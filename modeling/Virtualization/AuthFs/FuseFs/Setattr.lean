import Virtualization.AuthFs.FuseFs.Inode

/-!
# `setattr` applies the size before it checks the mode

For a file the VM writes, `setattr` applies the requested size through the editor's `resize`,
which resizes the storage and the leaves, and only then hands the requested mode to
`Attr::set_mode`, which refuses type bits other than those of a regular file and fails when the
`fd_server` refuses the `chmod`.  A request for both, whose mode is refused, fails with the file
already resized: the error leaves the new size in the table (`setattr_resize_then_mode_error`).
A directory takes only a mode, so a failed request leaves it as it was.
-/

set_option linter.dupNamespace false

namespace Virtualization.AuthFs

open Outcome

/-- Below `2 ^ 63` bytes a file has its attributes. -/
theorem createStat_of_lt (ino : Nat) {fileSize : Nat} (accessMode : AccessMode) (h : fileSize < 2 ^ 63) :
    ∃ stat, createStat ino fileSize accessMode = .ok stat := by
  have hblocks : ¬2 ^ 63 ≤ (fileSize + 512 - 1) / 512 := by omega
  unfold createStat
  dsimp only
  rw [if_neg (Nat.not_le.mpr h), if_neg hblocks]
  exact ⟨_, rfl⟩

/-- A request for the mode and the size, as the kernel sends for `truncate` with `chmod`. -/
def SetattrValid.modeAndSize : SetattrValid := ⟨true, false, false, true⟩

namespace AuthFs

variable {sha : List UInt8 → Sha256Hash} {F : BackingFile RemoteFileEditor} {svc : VirtFdService}

/-- For a file the VM writes, a request for the size and the mode whose mode is refused fails, and
leaves the file grown to the requested size: the request is not all or nothing. -/
theorem setattr_resize_then_mode_error {s : AuthFs} {inode : Inode} {st : InodeState}
    {editor : VerifiedFileEditor RemoteFileEditor} {attr : Attr} {inAttr : InAttr}
    {file : RemoteFileEditor} {e : IoError} (hentry : s.inodeTable.lookup inode = some st)
    (hst : st.entry = .verifiedNew editor attr) (hsize : editor.size < 2 ^ 63)
    (hgrow : editor.size < (inAttr.stSize % 2 ^ 64).toNat)
    (hfit : (inAttr.stSize % 2 ^ 64).toNat + chunkSize < 2 ^ 64)
    (hresize : F.resize editor.file (inAttr.stSize % 2 ^ 64).toNat = .ok file)
    (hmode : attr.setMode svc inAttr.stMode = .error e) :
    ∃ s', setattr sha F svc s inode inAttr .modeAndSize = ok (.error e, s') ∧
      ∃ st' editor', s'.inodeTable.lookup inode = some st' ∧ st'.entry = .verifiedNew editor' attr ∧
        editor'.size = (inAttr.stSize % 2 ^ 64).toNat ∧ editor'.size ≠ editor.size := by
  obtain ⟨stat, hstat⟩ := createStat_of_lt inode (.variable attr.mode) hsize
  have hcheck : checkUnsupportedSetattrRequest .modeAndSize = .ok () := rfl
  have hvalidSize : SetattrValid.modeAndSize.size = true := rfl
  have hvalidMode : SetattrValid.modeAndSize.mode = true := rfl
  let editor' : VerifiedFileEditor RemoteFileEditor := ⟨file, ⟨Virtualization.resize
    editor.merkleTree.leaves ((inAttr.stSize % 2 ^ 64).toNat ⌈/⌉ chunkSize) hashOf4096Zeros,
      (inAttr.stSize % 2 ^ 64).toNat⟩⟩
  have hfile : setattrFile sha F svc inode editor attr inAttr .modeAndSize =
      ok (.error e, editor', attr) := by
    rw [setattrFile, hcheck, hstat]
    dsimp only
    rw [if_pos hvalidSize,
      VerifiedFileEditor.resize_of_le (Nat.le_of_lt hgrow) hfit hresize, ok_bind, pure_eq, ok_bind]
    dsimp only
    rw [if_pos hvalidMode, hmode]
    rfl
  refine ⟨{ s with inodeTable := s.inodeTable.insert inode { st with entry := .verifiedNew editor' attr } },
    ?_, _, editor', AList.lookup_insert _, rfl, rfl, Nat.ne_of_gt hgrow⟩
  rw [setattr, hentry]
  dsimp only
  rw [hst]
  dsimp only
  rw [hfile, ok_bind]
  rfl

/-- A new empty file `f` at the root, grown to a byte by a request whose `chmod` to `0o644` the
`fd_server` refuses. -/
theorem setattr_grow_chmod_refused :
    ∃ s st, addEntryAtRootDir new "f"
        (.verifiedNew ⟨⟨3⟩, MerkleLeaves.new⟩ (Attr.newFileWithMode 3 0o600)) = ok (.ok 2, s) ∧
      s.inodeTable.lookup 2 = some st ∧
      st.entry = .verifiedNew ⟨⟨3⟩, MerkleLeaves.new⟩ (Attr.newFileWithMode 3 0o600) ∧
      ∃ s', setattr (fun _ ↦ Sha256Hash.zero) ⟨fun _ _ _ ↦ panic, fun f _ _ ↦ .ok f, fun f _ ↦ .ok f⟩
          ⟨fun _ _ _ ↦ .ok 0, fun _ _ _ ↦ .ok 0, fun _ _ ↦ .error (.os EACCES)⟩ s 2
          ⟨1, 0o100644⟩ .modeAndSize = ok (.error (.os EIO), s') ∧
        ∃ st' editor', s'.inodeTable.lookup 2 = some st' ∧
          st'.entry = .verifiedNew editor' (Attr.newFileWithMode 3 0o600) ∧
          editor'.size = ((1 : Int) % 2 ^ 64).toNat ∧ editor'.size ≠ 0 := by
  have hsize : (⟨⟨3⟩, MerkleLeaves.new⟩ : VerifiedFileEditor RemoteFileEditor).size < 2 ^ 63 := by
    decide
  have hgrow : (⟨⟨3⟩, MerkleLeaves.new⟩ : VerifiedFileEditor RemoteFileEditor).size <
      ((1 : Int) % 2 ^ 64).toNat := by
    decide
  have hfit : ((1 : Int) % 2 ^ 64).toNat + chunkSize < 2 ^ 64 := by decide
  exact ⟨_, _, rfl, rfl, rfl, setattr_resize_then_mode_error rfl rfl hsize hgrow hfit rfl rfl⟩

end AuthFs

end Virtualization.AuthFs
