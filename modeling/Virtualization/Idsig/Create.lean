import Virtualization.Idsig.Apksigv4
import Virtualization.Idsig.Content

/-!
# `V4Signature::create`

`create` digests an APK read from a stream into a `V4Signature`: it takes the size of the APK from
`seek(SeekFrom::End(0))`, the end of the whole file, seeks back to where the stream was, and hands
the stream to `HashTree::from` with that size.  It hashes the bytes from the position on, as if
there were `size` of them.

Over more than a block `HashTree::from` returns only from a stream that holds the size it was told
(`HashTree.fromReader_eq_ok`, from `generateHashTree_eq_ok`), so `create` returns only from the
start of the file (`V4Signature.create_eq_ok`).  From the start the signature carries the tree and
the root hash that `HashTree::from` computes over the whole file (`V4Signature.create_start`).
-/

namespace Virtualization.Idsig

open Outcome VecCursor AuthFs

variable {ε : Type}

/-- `log2`: `(num_bits as u32 - n.leading_zeros() - 1) as u8`, which underflows at zero. -/
def log2 (n : Nat) : Outcome ε UInt8 := do
  let numBits := 64
  let bits ← checkedSub (← checkedSub numBits (leadingZeros 64 n)) 1
  pure (UInt8.ofNat bits)

/-- A block of 4096 bytes is `1 << 12`. -/
theorem log2_4096 : (log2 4096 : Outcome ε UInt8) = ok 12 := by
  have hbits : bitLength 4096 = 13 := by
    rw [bitLength, if_neg (by decide), @Nat.log2_two_pow 12]
  rw [log2, leadingZeros, hbits, checkedSub_of_le (by decide), ok_bind,
    checkedSub_of_le (by decide), ok_bind, pure_eq]
  rfl

/-- The `ring` algorithm of a `HashAlgorithm`, with `ring::digest::SHA256` the hash function
`sha`. -/
def HashAlgorithm.algorithm (sha : List UInt8 → Sha256Hash) : HashAlgorithm → Algorithm
  | .sha256 => Idsig.sha256 sha

/-- `HashingInfo::default()`. -/
def HashingInfo.default : HashingInfo := ⟨.sha256, 0, [], []⟩

/-- `SigningInfo::default()`. -/
def SigningInfo.default : SigningInfo := ⟨[], [], [], [], .dsaSha2_256, []⟩

@[simp] theorem ofIoResult_seekEnd (inner : List UInt8) (pos : Nat) :
    ofIoResult seekEnd ⟨inner, pos⟩ = .ok (.ok inner.length, ⟨inner, inner.length⟩) := rfl

/-- `V4Signature::create`: the signature of the stream from its position on, with the tree and the
root hash of `HashTree::from`.  The salt is hashed but not recorded, and the signing info is left
at its default. -/
def V4Signature.create (sha : List UInt8 → Sha256Hash) (blockSize : Nat) (salt : List UInt8)
    (algorithm : HashAlgorithm) : Stateful VecCursor V4Error V4Signature := do
  let start ← ofIoResult streamPosition
  let size ← ofIoResult seekEnd
  let _ ← ofIoResult (seekStart start)
  let hashTree ← ofIoResult
    (asStream (HashTree.fromReader size salt blockSize (algorithm.algorithm sha)))
  let log2Blocksize ← Stateful.lift (log2 blockSize)
  pure {
    version := .v2
    hashingInfo := { HashingInfo.default with rawRootHash := hashTree.rootHash, log2Blocksize }
    signingInfo := SigningInfo.default
    merkleTreeSize := UInt32.ofNat hashTree.tree.length
    -- the tree starts at the beginning of `data`
    merkleTreeOffset := 0
    data := ⟨hashTree.tree, 0⟩ }

/-- Over more than a block, `HashTree::from` returns only from a stream that holds `input_size`
bytes. -/
theorem HashTree.fromReader_eq_ok (g : Geometry) {salt : List UInt8} {algorithm : Algorithm}
    (halg : algorithm.outputLen = g.digestSize) {inputSize : Nat} (hlt : g.blockSize < inputSize)
    {input rest : List UInt8} {hashTree : HashTree}
    (h : HashTree.fromReader inputSize salt g.blockSize algorithm input =
      .ok (.ok hashTree, rest)) :
    inputSize ≤ input.length := by
  rw [HashTree.fromReader] at h
  obtain ⟨salt', -, h⟩ := Stateful.lift_bind_eq_ok.1 h
  obtain ⟨_, _, htree, -⟩ := Stateful.bind_eq_ok.1 h
  exact generateHashTree_eq_ok salt' algorithm g halg hlt htree

/-- The geometry of blocks of 4096 bytes and SHA-256 digests, which is fs-verity's. -/
def Geometry.sha256Blocks : Geometry := fsverityGeometry

/-- Over a file of more than a block, `create` returns only from the start of the file: from a
later position the stream holds fewer bytes than the size of the file. -/
theorem V4Signature.create_eq_ok {sha : List UInt8 → Sha256Hash} {salt : List UInt8}
    {c c' : VecCursor} {v : V4Signature} (hbig : 4096 < c.inner.length)
    (h : V4Signature.create sha 4096 salt .sha256 c = .ok (.ok v, c')) : c.pos = 0 := by
  obtain ⟨inner, pos⟩ := c
  rw [V4Signature.create, Stateful.bind_of_ok (ofIoResult_streamPosition inner pos),
    Stateful.bind_of_ok (ofIoResult_seekEnd inner pos),
    Stateful.bind_of_ok (ofIoResult_seekStart inner inner.length pos)] at h
  obtain ⟨hashTree, _, hread, -⟩ := Stateful.bind_eq_ok.1 h
  obtain ⟨rest, hfrom⟩ := asStream_eq_ok (Stateful.mapError_eq_ok.1 hread)
  have hlen := HashTree.fromReader_eq_ok Geometry.sha256Blocks rfl hbig hfrom
  rw [List.length_drop] at hlen
  dsimp only at hbig hlen ⊢
  omega

/-- From the start of the file, the signature carries the tree of `HashTree::from` over the whole
file, as `merkle_tree()` reads it back, its root hash, its length as a `u32`, and the block size of
4096 bytes as its logarithm 12. -/
theorem V4Signature.create_start {sha : List UInt8 → Sha256Hash} {inner rest : List UInt8}
    {hashTree : HashTree}
    (h : HashTree.fromReader inner.length [] 4096 (sha256 sha) inner = .ok (.ok hashTree, rest)) :
    ∃ v c', V4Signature.create sha 4096 [] .sha256 ⟨inner, 0⟩ = .ok (.ok v, c') ∧
      v.merkleTree = hashTree.tree ∧ v.hashingInfo.rawRootHash = hashTree.rootHash ∧
      v.merkleTreeSize = UInt32.ofNat hashTree.tree.length ∧ v.hashingInfo.log2Blocksize = 12 := by
  have hstream : asStream (HashTree.fromReader inner.length [] 4096
      (HashAlgorithm.sha256.algorithm sha)) ⟨inner, 0⟩ =
        .ok (.ok hashTree, ⟨inner, 0 + (inner.length - rest.length)⟩) := by
    unfold asStream
    dsimp only
    rw [List.drop_zero, HashAlgorithm.algorithm, h]
  have hread : ofIoResult (asStream (HashTree.fromReader inner.length [] 4096
      (HashAlgorithm.sha256.algorithm sha))) ⟨inner, 0⟩ =
        .ok (.ok hashTree, ⟨inner, 0 + (inner.length - rest.length)⟩) := by
    unfold ofIoResult Stateful.mapError
    rw [hstream]
    rfl
  rw [V4Signature.create, Stateful.bind_of_ok (ofIoResult_streamPosition inner 0),
    Stateful.bind_of_ok (ofIoResult_seekEnd inner 0),
    Stateful.bind_of_ok (ofIoResult_seekStart inner inner.length 0), Stateful.bind_of_ok hread,
    log2_4096, Stateful.lift_ok_bind, Stateful.pure_apply]
  exact ⟨_, _, rfl, rfl, rfl, rfl, rfl⟩

end Virtualization.Idsig
