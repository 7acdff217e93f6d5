import Virtualization.AuthFs.Fsverity.Common
import Virtualization.Lib.MerkleTree
import Mathlib.Data.FinEnum
import Mathlib.Data.Fintype.Vector

/-!
# The fs-verity digest of a byte string

What the fs-verity code computes, stated once over a content `D`: the leaves are the hashes of
the zero-padded 4096-byte blocks of `D`, the tree is the Merkle tree of `Lib/MerkleTree` with
128 hashes to a 4096-byte node, the root hash has the special cases of an empty and a one-block
file, and the digest hashes the descriptor holding the root hash and `|D|`.

SHA-256 is a parameter `sha`.  It cannot be injective (`not_injective`); what the verifier's
soundness rests on is that no string hashed for `D` has a second preimage
(`SecondPreimageResistant`), which an injective function would give
(`SecondPreimageResistant.of_injective`).

`merkleTreeHeight_eq` connects the code's `merkle_tree_height` to the tree's height.
-/

namespace Virtualization.AuthFs.Fsverity

open Outcome

variable {ε : Type} (sha : List UInt8 → Sha256Hash)

/-- The fs-verity tree: `CHUNK_SIZE / HASH_SIZE` hashes to a `CHUNK_SIZE`-byte node. -/
def shape : Merkle.Shape := ⟨chunkSize / hashSize, chunkSize, by decide⟩

@[simp] theorem arity_shape : shape.arity = 128 := rfl

@[simp] theorem nodeSize_shape : shape.nodeSize = chunkSize := rfl

/-- The hash of a data block, zero-padded to a chunk. -/
def hashBlock (b : List UInt8) : Sha256Hash := sha (b.rightpad chunkSize 0)

/-- The leaf hashes of `D`. -/
def leaves (D : List UInt8) : List Sha256Hash := (chunks chunkSize D).map (hashBlock sha)

/-- The nodes of the tree of `D`, top level first. -/
def treeNodes (D : List UInt8) : List (List UInt8) :=
  Merkle.treeNodes shape sha FixedBytes.toList 0 (leaves sha D)

/-- The fs-verity root hash of `D`: zeros for an empty file, the hash of the block for a
one-block file, and the root of the tree above the leaves otherwise. -/
def rootHash (D : List UInt8) : Sha256Hash :=
  match leaves sha D with
  | [] => Sha256Hash.zero
  | [leaf] => leaf
  | ls => Merkle.root shape sha FixedBytes.toList 0 ls

/-- The fs-verity digest of `D`. -/
def digest (D : List UInt8) : Sha256Hash := buildFsverityDigest sha (rootHash sha D) D.length

/-- The Merkle tree of `D` as fs-verity stores it, empty for at most one block. -/
def merkleTree (D : List UInt8) : List UInt8 :=
  if D.length ≤ chunkSize then [] else (treeNodes sha D).flatten

@[simp] theorem length_leaves (D : List UInt8) :
    (leaves sha D).length = D.length ⌈/⌉ chunkSize := by
  simp [leaves]

theorem getElem_leaves {D : List UInt8} {i : Nat} (hi : i < (leaves sha D).length) :
    (leaves sha D)[i] = hashBlock sha (chunk chunkSize D i) := by
  simp [leaves]

/-- A one-block file's root hash is the hash of its block. -/
theorem rootHash_of_le {D : List UInt8} (hD : D ≠ []) (hle : D.length ≤ chunkSize) :
    rootHash sha D = hashBlock sha D := by
  have hlen : (leaves sha D).length = 1 := by
    rw [length_leaves]
    refine le_antisymm ((ceilDiv_le_iff_le_mul (by decide)).2 ?_) ?_
    · rw [Nat.mul_one]
      exact hle
    · rw [Nat.one_le_iff_ne_zero, ← Nat.pos_iff_ne_zero, lt_ceilDiv_iff (by decide), Nat.mul_zero]
      exact List.length_pos_iff.mpr hD
  obtain ⟨leaf, hleaf⟩ := List.length_eq_one_iff.mp hlen
  have h0 : leaf = hashBlock sha D := by
    have h0 : 0 < (leaves sha D).length := by omega
    have := getElem_leaves sha h0
    simp only [hleaf, List.getElem_cons_zero] at this
    rw [this, chunk, Nat.mul_zero, List.drop_zero, List.take_of_length_le hle]
  rw [rootHash, hleaf, h0]

/-- Past one block, the root hash is the root of the tree. -/
theorem rootHash_of_lt {D : List UInt8} (hlt : chunkSize < D.length) :
    rootHash sha D = Merkle.root shape sha FixedBytes.toList 0 (leaves sha D) := by
  have hlen : 2 ≤ (leaves sha D).length := by
    rw [length_leaves]
    exact (lt_ceilDiv_iff (by decide)).2 (by omega)
  unfold rootHash
  split
  · rename_i h
    simp [h] at hlen
  · rename_i leaf h
    simp [h] at hlen
  · rfl

theorem merkleTree_of_lt {D : List UInt8} (hlt : chunkSize < D.length) :
    merkleTree sha D = (treeNodes sha D).flatten := if_neg (Nat.not_le.mpr hlt)

/-! ## What the digest rests on -/

/-- No string hashed for the digest of `D` has a second preimage under `sha`: the padded
blocks of `D`, the nodes of its tree, and its descriptor. -/
structure SecondPreimageResistant (D : List UInt8) : Prop where
  block : ∀ b ∈ chunks chunkSize D, ∀ m, sha m = hashBlock sha b → m = b.rightpad chunkSize 0
  node : ∀ q ∈ treeNodes sha D, ∀ m, sha m = sha q → m = q
  descriptor : ∀ m, sha m = digest sha D → m = fsverityDescriptor (rootHash sha D) D.length

/-- An injective hash would do, but there is none. -/
theorem SecondPreimageResistant.of_injective (hinj : Function.Injective sha) (D : List UInt8) :
    SecondPreimageResistant sha D where
  block _ _ _ h := hinj h
  node _ _ _ h := hinj h
  descriptor _ h := hinj h

theorem finite_fixedBytes (n : Nat) : Finite (FixedBytes n) := by
  let toVector : FixedBytes n → List.Vector UInt8 n := fun b ↦ ⟨b.toList, b.length_toList⟩
  exact Finite.of_injective toVector
    fun b b' h ↦ FixedBytes.toList_injective (congrArg Subtype.val h)

/-- A 32-byte hash of all byte strings is not injective. -/
theorem not_injective : ¬ Function.Injective sha :=
  haveI := finite_fixedBytes 32
  not_injective_infinite_finite sha

/-! ## A hash for the file of zeros

The hypothesis can be met.  For the file of `n` zero bytes every padded block and every node
is the chunk of zeros, so the hash that sends that chunk to the zero hash, the descriptor of the
zero hash and `n` to a second value, and everything else to a third, has no second preimage of
anything hashed for the file (`secondPreimageResistant_zeroFileSha`). -/

/-- The hash for the file of `n` zeros. -/
def zeroFileSha (n : Nat) (m : List UInt8) : Sha256Hash :=
  if m = List.replicate chunkSize 0 then Sha256Hash.zero
  else if m = fsverityDescriptor Sha256Hash.zero n then ⟨List.replicate 32 1, List.length_replicate⟩
  else ⟨List.replicate 32 2, List.length_replicate⟩

section ZeroFile

variable {n : Nat}

theorem length_fsverityDescriptor (r : Sha256Hash) (fileSize : Nat) :
    (fsverityDescriptor r fileSize).length = 256 := by
  simp only [fsverityDescriptor, List.length_append, List.length_cons, List.length_nil,
    length_leBytes, List.length_replicate, r.length_toList]

theorem zeroFileSha_zeros : zeroFileSha n (List.replicate chunkSize 0) = Sha256Hash.zero :=
  if_pos rfl

/-- Only the chunk of zeros hashes to the zero hash. -/
theorem eq_of_zeroFileSha_eq_zero {m : List UInt8} (h : zeroFileSha n m = Sha256Hash.zero) :
    m = List.replicate chunkSize 0 := by
  unfold zeroFileSha at h
  split_ifs at h with hz hd
  · exact hz
  · exact absurd h (by decide)
  · exact absurd h (by decide)

theorem zeroFileSha_descriptor :
    zeroFileSha n (fsverityDescriptor Sha256Hash.zero n) =
      ⟨List.replicate 32 1, List.length_replicate⟩ := by
  have hne : fsverityDescriptor Sha256Hash.zero n ≠ List.replicate chunkSize 0 := by
    intro h
    have := congrArg List.length h
    rw [length_fsverityDescriptor, List.length_replicate] at this
    exact absurd this (by decide)
  rw [zeroFileSha, if_neg hne, if_pos rfl]

/-- Only the descriptor hashes to the second value. -/
theorem eq_of_zeroFileSha_eq_descriptor {m : List UInt8}
    (h : zeroFileSha n m = zeroFileSha n (fsverityDescriptor Sha256Hash.zero n)) :
    m = fsverityDescriptor Sha256Hash.zero n := by
  rw [zeroFileSha_descriptor] at h
  unfold zeroFileSha at h
  split_ifs at h with hz hd
  · exact absurd h (by decide)
  · exact hd
  · exact absurd h (by decide)

/-- Every block of the file of zeros pads to the chunk of zeros. -/
theorem rightpad_of_mem_chunks_replicate {b : List UInt8}
    (hb : b ∈ chunks chunkSize (List.replicate n 0)) :
    b.rightpad chunkSize 0 = List.replicate chunkSize 0 := by
  obtain ⟨i, -, rfl⟩ := mem_chunks.mp hb
  refine rightpad_eq_replicate ?_ fun a ha ↦ List.eq_of_mem_replicate (mem_of_mem_chunk ha)
  rw [length_chunk]
  exact Nat.min_le_left _ _

theorem eq_zero_of_mem_leaves_replicate {h : Sha256Hash}
    (hh : h ∈ leaves (zeroFileSha n) (List.replicate n 0)) : h = Sha256Hash.zero := by
  obtain ⟨b, hb, rfl⟩ := List.mem_map.mp hh
  rw [hashBlock, rightpad_of_mem_chunks_replicate hb, zeroFileSha_zeros]

/-- Every node of the tree of the file of zeros is the chunk of zeros. -/
theorem eq_of_mem_treeNodes_replicate {q : List UInt8}
    (hq : q ∈ treeNodes (zeroFileSha n) (List.replicate n 0)) : q = List.replicate chunkSize 0 :=
  Merkle.eq_replicate_of_mem_levelsDown shape (zeroFileSha n) FixedBytes.toList 0
    (fun h ↦ h.length_toList) (by decide) (fun _ hb ↦ List.eq_of_mem_replicate hb)
    zeroFileSha_zeros (fun _ hh ↦ eq_zero_of_mem_leaves_replicate hh) _ hq

theorem rootHash_replicate (hn : n ≠ 0) :
    rootHash (zeroFileSha n) (List.replicate n 0) = Sha256Hash.zero := by
  rcases Nat.lt_or_ge chunkSize n with hlt | hle
  · have hlen : 0 < (leaves (zeroFileSha n) (List.replicate n 0)).length := by
      rw [length_leaves, lt_ceilDiv_iff (by decide), List.length_replicate]
      omega
    obtain ⟨node, hnode, hroot⟩ := Merkle.getElem?_treeNodes_zero shape (zeroFileSha n)
      FixedBytes.toList 0 hlen
    have hzeros := eq_of_mem_treeNodes_replicate (List.mem_of_getElem? hnode)
    rw [rootHash_of_lt _ (by rw [List.length_replicate]; exact hlt), hroot, hzeros,
      zeroFileSha_zeros]
  · have hpad : (List.replicate n (0 : UInt8)).rightpad chunkSize 0 = List.replicate chunkSize 0 :=
      rightpad_eq_replicate (by rw [List.length_replicate]; exact hle)
        fun _ ha ↦ List.eq_of_mem_replicate ha
    rw [rootHash_of_le _ (by simpa using hn) (by rw [List.length_replicate]; exact hle), hashBlock,
      hpad, zeroFileSha_zeros]

/-- The hash for the file of zeros has no second preimage of anything hashed for it. -/
theorem secondPreimageResistant_zeroFileSha (hn : n ≠ 0) :
    SecondPreimageResistant (zeroFileSha n) (List.replicate n 0) where
  block b hb m h := by
    rw [hashBlock, rightpad_of_mem_chunks_replicate hb, zeroFileSha_zeros] at h
    rw [rightpad_of_mem_chunks_replicate hb]
    exact eq_of_zeroFileSha_eq_zero h
  node q hq m h := by
    rw [eq_of_mem_treeNodes_replicate hq, zeroFileSha_zeros] at h
    rw [eq_of_mem_treeNodes_replicate hq]
    exact eq_of_zeroFileSha_eq_zero h
  descriptor m h := by
    rw [digest, rootHash_replicate hn, List.length_replicate, buildFsverityDigest] at h
    rw [rootHash_replicate hn, List.length_replicate]
    exact eq_of_zeroFileSha_eq_descriptor h

end ZeroFile

/-! ## The height of the tree -/

/-- `p ≤ 128 ^ h` exactly when `p - 1` has at most `7 h` bits. -/
theorem le_pow_iff_ceilDiv_bitLength {p h : Nat} (hp : 0 < p) :
    p ≤ 128 ^ h ↔ bitLength (p - 1) ⌈/⌉ 7 ≤ h := by
  have hpow : (128 : Nat) ^ h = 2 ^ (7 * h) := by rw [Nat.pow_mul]
  rw [ceilDiv_le_iff_le_mul (by decide), ← lt_two_pow_iff_bitLength_le, ← hpow]
  omega

/-- `log128_ceil(p)` is the least `h` with `p ≤ 128 ^ h`, computed from the bit length. -/
theorem log128Ceil_eq {p : Nat} (hp : 0 < p) (hlt : p - 1 < 2 ^ 64) :
    (log128Ceil p : Outcome ε (Option Nat)) = ok (some (bitLength (p - 1) ⌈/⌉ 7)) := by
  obtain ⟨n, rfl⟩ : ∃ n, p = n + 1 := ⟨p - 1, by omega⟩
  rw [Nat.add_sub_cancel] at hlt ⊢
  have hbits := bitLength_le_of_lt hlt
  have hsub : leadingZeros 64 n ≤ 64 := Nat.sub_le _ _
  simp only [log128Ceil, Nat.add_sub_cancel, checkedSub_of_le hsub, ok_bind,
    sub_leadingZeros hlt, map_eq]
  rw [divideRoundup_eq (by decide) (by omega)]
  rfl

/-- `merkle_tree_height(n)` is the height of the tree over the `⌈n / 4096⌉` leaves. -/
theorem merkleTreeHeight_eq {n : Nat} (hn : 0 < n) (hlt : n + 524288 < 2 ^ 64) :
    (merkleTreeHeight n : Outcome ε (Option Nat)) =
      ok (some (Merkle.height shape (n ⌈/⌉ chunkSize))) := by
  -- the span of a node is rewritten to its value, never unfolded against it
  have hspan : chunkSize / hashSize * chunkSize = 524288 := rfl
  have hlt' : n + chunkSize / hashSize * chunkSize < 2 ^ 64 := by
    rw [hspan]
    exact hlt
  set p := n ⌈/⌉ 524288 with hp_def
  have hp : 0 < p := (lt_ceilDiv_iff (by decide)).2 (by omega)
  have hple : p ≤ n := (ceilDiv_le_iff_le_mul (by decide)).2 (by omega)
  have hpages : n ⌈/⌉ chunkSize ⌈/⌉ 128 = p := by
    rw [ceilDiv_ceilDiv (by decide) (by decide)]
    rfl
  have hheight : Merkle.height shape (n ⌈/⌉ chunkSize) = bitLength (p - 1) ⌈/⌉ 7 := by
    refine Merkle.height_eq_of_forall_iff shape fun x ↦ ?_
    rw [arity_shape, Nat.pow_succ', ← ceilDiv_le_iff_le_mul (by decide), hpages]
    exact le_pow_iff_ceilDiv_bitLength hp
  rw [merkleTreeHeight, @divideRoundup_eq ε n _ (by decide) hlt', ok_bind, hspan,
    log128Ceil_eq hp (by omega), hheight]

/-- `merkle_tree_height(n)` panics when rounding `n` up to the span of a node overflows. -/
theorem merkleTreeHeight_of_le {n : Nat} (hle : 2 ^ 64 ≤ n + 524288) :
    (merkleTreeHeight n : Outcome ε (Option Nat)) = panic := by
  have hspan : chunkSize / hashSize * chunkSize = 524288 := rfl
  have hle' : 2 ^ 64 ≤ n + chunkSize / hashSize * chunkSize := by
    rw [hspan]
    exact hle
  rw [merkleTreeHeight, @divideRoundup_of_le ε n _ hle', panic_bind]

end Virtualization.AuthFs.Fsverity
