import Mathlib.Algebra.Order.Floor.Div
import Mathlib.GroupTheory.GroupAction.Ring
import Mathlib.Algebra.Order.Ring.Nat
import Mathlib.Data.List.Basic
import Mathlib.Data.List.GetD

/-!
# Lists cut into fixed-size blocks

Files, Merkle-tree levels and hash lists are all read and written as blocks of `k` elements:
`chunk k l i` is the `i`-th block of `l`, `l[k*i .. k*(i+1)]` cut short at the end, and
`chunks k l` lists them in order, as Rust's `slice::chunks(k)` does.  A block is padded with
`List.rightpad`.

The lemmas say how blocks interact with concatenation: a list made of blocks of size `k` gives
its blocks back (`chunk_flatten`), and a prefix of whole blocks shifts block indices
(`chunk_append_of_length`).  Sizes are counted with `⌈/⌉`.
-/

namespace Virtualization

variable {α : Type}

/-- The `i`-th block of `k` elements of `l`, `l[k*i .. k*(i+1)]`, cut short at the end of `l`. -/
def chunk (k : Nat) (l : List α) (i : Nat) : List α :=
  (l.drop (k * i)).take k

/-- The blocks of `k` elements of `l`, the last possibly shorter: Rust's `slice::chunks(k)`,
which panics for `k = 0`. -/
def chunks (k : Nat) (l : List α) : List (List α) :=
  (List.range (l.length ⌈/⌉ k)).map (chunk k l)

@[simp] theorem length_chunk (k : Nat) (l : List α) (i : Nat) :
    (chunk k l i).length = min k (l.length - k * i) := by
  simp [chunk]

@[simp] theorem length_chunks (k : Nat) (l : List α) :
    (chunks k l).length = l.length ⌈/⌉ k := by
  simp [chunks]

@[simp] theorem getElem_chunks (k : Nat) (l : List α) (i : Nat)
    (h : i < (chunks k l).length) : (chunks k l)[i] = chunk k l i := by
  simp [chunks]

theorem mem_chunks {k : Nat} {l b : List α} :
    b ∈ chunks k l ↔ ∃ i < l.length ⌈/⌉ k, chunk k l i = b := by
  simp [chunks]

theorem mem_of_mem_chunk {k i : Nat} {l : List α} {a : α} (h : a ∈ chunk k l i) : a ∈ l :=
  List.mem_of_mem_drop (List.mem_of_mem_take h)

/-- A block of `chunks` is at most the chunk size. -/
theorem length_le_of_mem_chunks {k : Nat} {l b : List α} (hb : b ∈ chunks k l) :
    b.length ≤ k := by
  obtain ⟨i, _, rfl⟩ := mem_chunks.1 hb
  rw [length_chunk]
  exact Nat.min_le_left _ _

/-- Block `i` exists exactly when it starts inside the list. -/
theorem lt_ceilDiv_iff {k n i : Nat} (hk : 0 < k) : i < n ⌈/⌉ k ↔ k * i < n := by
  rw [← not_le, ceilDiv_le_iff_le_mul hk, not_le]

/-- The number of `k`-blocks of a list of `k * m` elements is `m`. -/
theorem mul_ceilDiv {k : Nat} (hk : 0 < k) (m : Nat) : (k * m) ⌈/⌉ k = m := by
  refine le_antisymm ((ceilDiv_le_iff_le_mul hk).2 le_rfl) ?_
  rw [← Nat.mul_le_mul_left_iff hk]
  exact le_smul_ceilDiv hk

/-- Counting blocks of blocks: `⌈⌈n / a⌉ / b⌉ = ⌈n / (a * b)⌉`. -/
theorem ceilDiv_ceilDiv {a b : Nat} (ha : 0 < a) (hb : 0 < b) (n : Nat) :
    n ⌈/⌉ a ⌈/⌉ b = n ⌈/⌉ (a * b) := by
  refine eq_of_forall_ge_iff fun c ↦ ?_
  rw [ceilDiv_le_iff_le_mul hb, ceilDiv_le_iff_le_mul ha, ceilDiv_le_iff_le_mul (Nat.mul_pos ha hb),
    Nat.mul_assoc]

/-- A nonempty list takes one block more than what follows its first block. -/
theorem ceilDiv_eq_succ {k n : Nat} (hk : 0 < k) (hn : 0 < n) : n ⌈/⌉ k = (n - k) ⌈/⌉ k + 1 := by
  rw [Nat.ceilDiv_eq_add_pred_div, Nat.ceilDiv_eq_add_pred_div]
  by_cases hnk : k ≤ n
  · rw [show n + k - 1 = n - k + k - 1 + k by omega, Nat.add_div_right _ hk]
  · have hone : (n + k - 1) / k = 1 :=
      Nat.div_eq_of_lt_le (by omega) (by omega)
    rw [hone, Nat.div_eq_of_lt (by omega : n - k + k - 1 < k)]

/-- `slice::chunks` one block at a time: the first block, then the blocks of the rest. -/
theorem chunks_eq_cons {k : Nat} (hk : 0 < k) {l : List α} (hl : l ≠ []) :
    chunks k l = l.take k :: chunks k (l.drop k) := by
  have hcount : l.length ⌈/⌉ k = (l.drop k).length ⌈/⌉ k + 1 := by
    rw [List.length_drop]
    exact ceilDiv_eq_succ hk (List.length_pos_iff.2 hl)
  have hshift : ∀ i, chunk k l (i + 1) = chunk k (l.drop k) i := by
    intro i
    rw [chunk, chunk, List.drop_drop, Nat.mul_succ, Nat.add_comm]
  rw [chunks, hcount, List.range_succ_eq_map, List.map_cons, List.map_map, chunks]
  congr 1
  exact List.map_congr_left fun i _ ↦ hshift i

/-! ## Blocks of a concatenation -/

/-- Dropping a prefix of whole blocks shifts the block indices. -/
theorem chunk_append_of_length {k m : Nat} {pre : List α} (hpre : pre.length = k * m)
    (l : List α) (j : Nat) : chunk k (pre ++ l) (m + j) = chunk k l j := by
  rw [chunk, chunk, Nat.mul_add, ← List.drop_drop, List.drop_left' hpre]

/-- A list made of blocks of size `k` gives its blocks back. -/
theorem chunk_flatten {k : Nat} {bs : List (List α)} (h : ∀ b ∈ bs, b.length = k) (j : Nat)
    (hj : j < bs.length) : chunk k bs.flatten j = bs[j] := by
  induction bs generalizing j with
  | nil => simp at hj
  | cons b bs ih =>
    have hb : b.length = k * 1 := by rw [h b List.mem_cons_self, Nat.mul_one]
    have hbs : ∀ c ∈ bs, c.length = k := fun c hc ↦ h c (List.mem_cons_of_mem b hc)
    cases j with
    | zero =>
      simp only [chunk, Nat.mul_zero, List.drop_zero, List.flatten_cons, List.getElem_cons_zero]
      rw [List.take_left' (by omega)]
    | succ j =>
      rw [List.getElem_cons_succ, ← ih hbs j (by simp at hj; omega), List.flatten_cons,
        Nat.add_comm j 1]
      exact chunk_append_of_length hb _ j

@[simp] theorem length_flatten_of_length_eq {k : Nat} {bs : List (List α)}
    (h : ∀ b ∈ bs, b.length = k) : bs.flatten.length = k * bs.length := by
  induction bs with
  | nil => simp
  | cons b bs ih =>
    rw [List.flatten_cons, List.length_append, h b List.mem_cons_self,
      ih fun c hc ↦ h c (List.mem_cons_of_mem b hc), List.length_cons, Nat.mul_succ,
      Nat.add_comm]

/-! ## Resizing -/

/-- `Vec::resize(n, a)`: cut to `n` elements, or fill up to `n` with `a`. -/
def resize (l : List α) (n : Nat) (a : α) : List α :=
  l.take n ++ List.replicate (n - l.length) a

@[simp] theorem length_resize (l : List α) (n : Nat) (a : α) : (resize l n a).length = n := by
  simp only [resize, List.length_append, List.length_take, List.length_replicate]
  omega

/-- Resizing keeps the elements below the new length and fills the rest. -/
theorem getElem?_resize (l : List α) {n i : Nat} (a : α) (hi : i < n) :
    (resize l n a)[i]? = if i < l.length then l[i]? else some a := by
  unfold resize
  split_ifs with hl
  · rw [List.getElem?_append_left (by simp; omega), List.getElem?_take_of_lt hi]
  · rw [List.getElem?_append_right (by simp; omega), List.getElem?_replicate]
    simp only [List.length_take]
    rw [if_pos (by omega)]

theorem getElem_resize (l : List α) {n i : Nat} (a : α) (hi : i < (resize l n a).length) :
    (resize l n a)[i] = if h : i < l.length then l[i] else a := by
  have hi' : i < n := by rwa [length_resize] at hi
  have := getElem?_resize l a hi'
  rw [List.getElem?_eq_getElem hi] at this
  split_ifs at this ⊢ with hl
  · rw [List.getElem?_eq_getElem hl] at this
    exact Option.some.inj this
  · exact Option.some.inj this

/-! ## Reading with a default past the end

A file reads as zeros past its end: `l.getD i a` is the element at `i`, and `a` past the end.
Two lists are compared block by block through it (`rightpad_chunk_congr`). -/

theorem getD_resize (l : List α) (n i : Nat) (a : α) :
    (resize l n a).getD i a = if i < n then l.getD i a else a := by
  split_ifs with hi
  · rw [List.getD_eq_getElem?_getD, getElem?_resize l a hi, List.getD_eq_getElem?_getD]
    split_ifs with hl
    · rfl
    · rw [List.getElem?_eq_none (by omega)]
      rfl
  · exact List.getD_eq_default _ _ (by rw [length_resize]; omega)

theorem getD_take (l : List α) {n i : Nat} (a : α) (hi : i < n) :
    (l.take n).getD i a = l.getD i a := by
  rw [List.getD_eq_getElem?_getD, List.getElem?_take_of_lt hi, List.getD_eq_getElem?_getD]

theorem getD_drop (l : List α) (n i : Nat) (a : α) : (l.drop n).getD i a = l.getD (n + i) a := by
  rw [List.getD_eq_getElem?_getD, List.getElem?_drop, List.getD_eq_getElem?_getD]

/-- Two lists of one length that read alike are equal. -/
theorem ext_getD {l l' : List α} (a : α) (hlen : l.length = l'.length)
    (h : ∀ i, l.getD i a = l'.getD i a) : l = l' :=
  List.ext_getElem hlen fun i h₁ h₂ ↦ by
    rw [← List.getD_eq_getElem _ a h₁, ← List.getD_eq_getElem _ a h₂, h i]

/-! ## Padded blocks -/

theorem length_rightpad_of_le {n : Nat} {a : α} {l : List α} (h : l.length ≤ n) :
    (l.rightpad n a).length = n := by
  rw [List.length_rightpad]
  omega

/-- Padding a list of padding gives padding. -/
theorem rightpad_eq_replicate {n : Nat} {a : α} {l : List α} (hlen : l.length ≤ n)
    (hl : ∀ b ∈ l, b = a) : l.rightpad n a = List.replicate n a := by
  refine List.eq_replicate_iff.mpr ⟨length_rightpad_of_le hlen, fun b hb ↦ ?_⟩
  rw [List.rightpad, List.mem_append] at hb
  rcases hb with hb | hb
  · exact hl b hb
  · exact List.eq_of_mem_replicate hb

/-- Padding leaves every slice inside the original list alone. -/
theorem take_drop_rightpad {n b p : Nat} {a : α} {l : List α} (h : b + p ≤ l.length) :
    ((l.rightpad n a).drop b).take p = (l.drop b).take p := by
  rw [List.rightpad, List.drop_append_of_le_length (by omega),
    List.take_append_of_le_length (by simp; omega)]

/-- A slice of a block is a slice of the list, when it lies inside both. -/
theorem take_drop_chunk {k i b p : Nat} {l : List α} (hk : b + p ≤ k) :
    ((chunk k l i).drop b).take p = (l.drop (k * i + b)).take p := by
  rw [chunk, List.drop_take, List.take_take, Nat.min_eq_left (by omega), List.drop_drop]

/-- The padded image of a block, sliced inside the list, is the list's slice. -/
theorem take_drop_rightpad_chunk {k i b p n : Nat} {a : α} {l : List α} (hk : b + p ≤ k)
    (hl : k * i + b + p ≤ l.length) :
    (((chunk k l i).rightpad n a).drop b).take p = (l.drop (k * i + b)).take p := by
  rw [take_drop_rightpad (by rw [length_chunk]; omega), take_drop_chunk hk]

/-- Element `t` of block `i` padded to `k` is element `k * i + t` of the list, the padding past
its end. -/
theorem getElem_rightpad_chunk {k i t : Nat} {a : α} {l : List α}
    (ht : t < ((chunk k l i).rightpad k a).length) :
    ((chunk k l i).rightpad k a)[t] = l.getD (k * i + t) a := by
  have hlen : (chunk k l i).length = min k (l.length - k * i) := length_chunk k l i
  rw [List.length_rightpad] at ht
  simp only [List.rightpad, List.getElem_append]
  split_ifs with hlt
  · rw [List.getD_eq_getElem _ _ (by omega)]
    simp only [chunk, List.getElem_take, List.getElem_drop]
  · rw [List.getElem_replicate, List.getD_eq_default _ _ (by omega)]

@[simp] theorem length_rightpad_chunk (k : Nat) (l : List α) (i : Nat) (a : α) :
    ((chunk k l i).rightpad k a).length = k :=
  length_rightpad_of_le ((length_chunk k l i).trans_le (Nat.min_le_left _ _))

/-- A list of `k` elements that reads as block `i` of `l` is that block, padded. -/
theorem rightpad_chunk_eq {k i : Nat} {a : α} {l b : List α} (hb : b.length = k)
    (h : ∀ t (ht : t < k), b[t] = l.getD (k * i + t) a) : (chunk k l i).rightpad k a = b := by
  refine List.ext_getElem ((length_rightpad_chunk k l i a).trans hb.symm) fun t ht _ ↦ ?_
  rw [getElem_rightpad_chunk, h t (length_rightpad_chunk k l i a ▸ ht)]

/-- Two lists that read alike over block `i` have the same padded block `i`. -/
theorem rightpad_chunk_congr {k i : Nat} {a : α} {l l' : List α}
    (h : ∀ t < k, l.getD (k * i + t) a = l'.getD (k * i + t) a) :
    (chunk k l i).rightpad k a = (chunk k l' i).rightpad k a := by
  refine rightpad_chunk_eq (length_rightpad_chunk k l' i a) fun t ht ↦ ?_
  rw [getElem_rightpad_chunk, h t ht]

/-- A block past the end of the list is all padding. -/
theorem rightpad_chunk_of_le {k i : Nat} {a : α} {l : List α} (h : l.length ≤ k * i) :
    (chunk k l i).rightpad k a = List.replicate k a := by
  rw [chunk, List.drop_of_length_le h, List.take_nil, List.rightpad, List.length_nil,
    Nat.sub_zero, List.nil_append]

end Virtualization
