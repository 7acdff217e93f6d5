import Virtualization.Idsig.Create

/-!
# `virtualizationservice::aidl`: the idsig of an APK

`createOrUpdateIdsigFile` digests the APK behind the client's descriptor into the idsig behind the
other.  It clones both descriptors, and a clone shares the file's position with the client's, so
`V4Signature::create` reads the APK from wherever the client left it; the idsig file is emptied by
`set_len(0)`, which keeps the position, and written from there.  Every step is unwrapped.

`create` returns only from the start of an APK of more than a block (`V4Signature.create_eq_ok`),
so from any other position the service panics; from the start it carries the tree of the whole
file (`createOrUpdateIdsigFile_start_or_panic`).  Cloning a
descriptor is left out: the model starts from the two files.
-/

namespace Virtualization.VirtualizationService

open Outcome VecCursor Idsig AuthFs

/-- `createOrUpdateIdsigFile` on the files behind the two descriptors: the idsig file written
with the signature of the APK from the APK's position on, or a panic. -/
def createOrUpdateIdsigFile (sha : List UInt8 → Sha256Hash) (input output : VecCursor) :
    Outcome Empty VecCursor := do
  let (sig, _) ← Stateful.unwrap (V4Signature.create sha 4096 [] .sha256) input
  -- `output.set_len(0).unwrap()` empties the file and leaves its position where it was
  let (_, output) ← Stateful.unwrap sig.writeInto ⟨[], output.pos⟩
  pure output

/-- On an APK of more than a block whose descriptor is not at its start, `create` fails and its
`unwrap` panics. -/
theorem createOrUpdateIdsigFile_past_start (sha : List UInt8 → Sha256Hash)
    (input output : VecCursor) (hbig : 4096 < input.inner.length) (hpos : 0 < input.pos) :
    createOrUpdateIdsigFile sha input output = panic := by
  have hcreate : ∀ a, Stateful.unwrap (V4Signature.create sha 4096 [] .sha256) input ≠ ok a := by
    rintro ⟨sig, input'⟩ hok
    have hstart := V4Signature.create_eq_ok hbig (Stateful.unwrap_eq_ok.1 hok)
    omega
  unfold createOrUpdateIdsigFile
  cases hunwrap : Stateful.unwrap (V4Signature.create sha 4096 [] .sha256) input with
  | ok a => exact absurd hunwrap (hcreate a)
  | err e => exact e.elim
  | panic => rfl

/-- `create` over an APK read from its start carries the tree and root hash of `HashTree::from`
over the whole file; from any later position of an APK of more than a block, the service
panics. -/
theorem createOrUpdateIdsigFile_start_or_panic (sha : List UInt8 → Sha256Hash) :
    (∀ {inner rest : List UInt8} {hashTree : HashTree},
      HashTree.fromReader inner.length [] 4096 (sha256 sha) inner = .ok (.ok hashTree, rest) →
      ∃ v c', V4Signature.create sha 4096 [] .sha256 ⟨inner, 0⟩ = .ok (.ok v, c') ∧
        v.merkleTree = hashTree.tree ∧ v.hashingInfo.rawRootHash = hashTree.rootHash ∧
        v.merkleTreeSize = UInt32.ofNat hashTree.tree.length ∧ v.hashingInfo.log2Blocksize = 12) ∧
    (∀ input output : VecCursor, 4096 < input.inner.length → 0 < input.pos →
      createOrUpdateIdsigFile sha input output = panic) :=
  ⟨V4Signature.create_start, createOrUpdateIdsigFile_past_start sha⟩

/-- An APK of one block and a byte, read from its second byte. -/
theorem createOrUpdateIdsigFile_one_past_start :
    4096 < (List.replicate 4097 (0 : UInt8)).length ∧ 0 < 1 ∧
      createOrUpdateIdsigFile (fun _ ↦ Sha256Hash.zero) ⟨List.replicate 4097 0, 1⟩ ⟨[], 0⟩ =
        panic := by
  have hbig : 4096 < (List.replicate 4097 (0 : UInt8)).length := by
    rw [List.length_replicate]
    decide
  exact ⟨hbig, Nat.one_pos, (createOrUpdateIdsigFile_start_or_panic _).2 ⟨List.replicate 4097 0, 1⟩
    ⟨[], 0⟩ hbig Nat.one_pos⟩

end Virtualization.VirtualizationService
