import Virtualization.Lib.Stateful
import Virtualization.Lib.Io

/-!
# A block device read and written at offsets

A block device is a byte string of fixed size.  `seek` followed by `read_exact` returns the bytes
at an offset, or fails with `UnexpectedEof` past the end; `seek` followed by `write_all`
overwrites the bytes at an offset, and past the end writes what fits and fails with `ENOSPC`.
The size never changes.

What a read sees after a write: the bytes written (`bytesAt_overwrite_self`), and elsewhere the
bytes that were there (`bytesAt_overwrite_of_le`, `bytesAt_congr`).  Every byte before
the offset of a write is kept (`getElem?_overwrite_of_lt`).
-/

namespace Virtualization

section Overwrite

variable {α : Type}

/-- `l` with the elements from `pos` on replaced by `data`, as far as `l` reaches. -/
def overwrite (l : List α) (pos : Nat) (data : List α) : List α :=
  l.take pos ++ data.take (l.length - pos) ++ l.drop (pos + data.length)

/-- The elements `[pos, pos + n)` of `l`, cut short at its end. -/
def bytesAt (l : List α) (pos n : Nat) : List α := (l.drop pos).take n

@[simp] theorem length_overwrite (l : List α) (pos : Nat) (data : List α) :
    (overwrite l pos data).length = l.length := by
  simp only [overwrite, List.length_append, List.length_take, List.length_drop]
  omega

theorem getElem?_overwrite (l : List α) (pos : Nat) (data : List α) (j : Nat) :
    (overwrite l pos data)[j]? =
      if j < pos ∨ pos + data.length ≤ j then l[j]?
      else if j < l.length then data[j - pos]? else none := by
  unfold overwrite
  rw [List.getElem?_append, List.getElem?_append]
  simp only [List.length_append, List.length_take, List.getElem?_take, List.getElem?_drop]
  generalize hm : pos ⊓ l.length + (l.length - pos) ⊓ data.length = m
  by_cases hin : j < l.length
  · by_cases hbefore : j < pos
    · have hkept : j < pos ⊓ l.length := by omega
      rw [if_pos (by omega : j < m), if_pos hkept, if_pos hbefore, if_pos (Or.inl hbefore)]
    · by_cases hafter : pos + data.length ≤ j
      · rw [if_neg (by omega : ¬ j < m), if_pos (Or.inr hafter)]
        congr 1
        omega
      · rw [if_pos (by omega : j < m), if_neg (by omega : ¬ j < pos ⊓ l.length),
          if_pos (by omega : j - pos ⊓ l.length < l.length - pos),
          if_neg (not_or.mpr ⟨hbefore, hafter⟩), if_pos hin]
        congr 1
        omega
  · rw [if_neg (by omega : ¬ j < m), List.getElem?_eq_none (by omega),
      List.getElem?_eq_none (Nat.le_of_not_lt hin), if_neg hin, ite_self]

theorem getElem?_overwrite_of_lt {l : List α} {pos j : Nat} (data : List α) (h : j < pos) :
    (overwrite l pos data)[j]? = l[j]? := by
  rw [getElem?_overwrite, if_pos (Or.inl h)]

theorem getElem?_bytesAt (l : List α) (pos n j : Nat) :
    (bytesAt l pos n)[j]? = if j < n then l[pos + j]? else none := by
  simp only [bytesAt, List.getElem?_take, List.getElem?_drop]

/-- A read of what was just written returns it. -/
theorem bytesAt_overwrite_self {l : List α} {pos : Nat} {data : List α}
    (h : pos + data.length ≤ l.length) : bytesAt (overwrite l pos data) pos data.length = data := by
  apply List.ext_getElem?
  intro j
  rw [getElem?_bytesAt, getElem?_overwrite]
  by_cases hj : j < data.length
  · rw [if_pos hj, if_neg (by omega), if_pos (by omega), Nat.add_sub_cancel_left]
  · rw [if_neg hj, List.getElem?_eq_none (by omega)]

/-- A read of as many elements as were just written returns them. -/
theorem bytesAt_overwrite_of_length {l : List α} {pos n : Nat} {data : List α}
    (hn : data.length = n) (h : pos + n ≤ l.length) : bytesAt (overwrite l pos data) pos n = data := by
  subst hn
  exact bytesAt_overwrite_self h

/-- A read that ends before a write does not see it. -/
theorem bytesAt_overwrite_of_le {l : List α} {pos q n : Nat} (data : List α) (h : q + n ≤ pos) :
    bytesAt (overwrite l pos data) q n = bytesAt l q n := by
  apply List.ext_getElem?
  intro j
  rw [getElem?_bytesAt, getElem?_bytesAt]
  by_cases hj : j < n
  · rw [if_pos hj, if_pos hj, getElem?_overwrite_of_lt data (by omega)]
  · rw [if_neg hj, if_neg hj]

/-- A read sees only the elements it covers. -/
theorem bytesAt_congr {l l' : List α} {pos n : Nat}
    (h : ∀ i, pos ≤ i → i < pos + n → l'[i]? = l[i]?) : bytesAt l' pos n = bytesAt l pos n := by
  apply List.ext_getElem?
  intro j
  rw [getElem?_bytesAt, getElem?_bytesAt]
  split_ifs with hj
  · exact h (pos + j) (by omega) (by omega)
  · rfl

/-- A read inside the list has the length asked for. -/
theorem length_bytesAt_of_le {l : List α} {pos n : Nat} (h : pos + n ≤ l.length) :
    (bytesAt l pos n).length = n := by
  rw [bytesAt, List.length_take, List.length_drop]
  omega

/-- The first `k` elements of a read are a shorter read. -/
theorem take_bytesAt (l : List α) (pos n k : Nat) :
    (bytesAt l pos n).take k = bytesAt l pos (min k n) := by
  rw [bytesAt, bytesAt, List.take_take]

/-- What follows the first `k` elements of a read is a read `k` further on. -/
theorem drop_bytesAt (l : List α) (pos n k : Nat) :
    (bytesAt l pos n).drop k = bytesAt l (pos + k) (n - k) := by
  rw [bytesAt, bytesAt, List.drop_take, List.drop_drop]

/-- A read from the start of the whole list is the list. -/
theorem bytesAt_zero_of_length {l : List α} {n : Nat} (h : l.length = n) : bytesAt l 0 n = l := by
  rw [bytesAt, List.drop_zero, List.take_of_length_le (Nat.le_of_eq h)]

end Overwrite

/-- `isize::MAX` on a 64-bit target: no `Vec<u8>` is longer. -/
def isizeMax : Nat := 2 ^ 63 - 1

/-- `vec![0; n]`, the buffer a read fills; past `isize::MAX` bytes it panics with "capacity
overflow". -/
def vecZeroed {ε : Type} (n : Nat) : Outcome ε (List UInt8) :=
  if n ≤ isizeMax then .ok (List.replicate n 0) else .panic

@[simp] theorem vecZeroed_of_le {ε : Type} {n : Nat} (h : n ≤ isizeMax) :
    (vecZeroed n : Outcome ε (List UInt8)) = .ok (List.replicate n 0) := if_pos h

theorem vecZeroed_of_lt {ε : Type} {n : Nat} (h : isizeMax < n) :
    (vecZeroed n : Outcome ε (List UInt8)) = .panic := if_neg (Nat.not_le.mpr h)

/-- The `io::Error` of `read_exact` past the end. -/
def unexpectedEof : IoError := .other "UnexpectedEof"

/-- `seek(SeekFrom::Start(pos))` then `read_exact` of `n` bytes, or `read_exact_at`: an empty
read succeeds wherever it starts. -/
def readExactAt (file : List UInt8) (pos n : Nat) : Except IoError (List UInt8) :=
  if pos + n ≤ file.length ∨ n = 0 then .ok (bytesAt file pos n) else .error unexpectedEof

/-- `seek(SeekFrom::Start(pos))` then `write_all`: what fits is written, and a write past the end
fails. -/
def writeAllAt (pos : Nat) (data : List UInt8) : Stateful (List UInt8) IoError Unit :=
  Stateful.step fun file ↦
    (if pos + data.length ≤ file.length then .ok () else .error (.os ENOSPC), overwrite file pos data)

theorem readExactAt_eq_ok {file : List UInt8} {pos n : Nat} {bytes : List UInt8} :
    readExactAt file pos n = .ok bytes ↔
      (pos + n ≤ file.length ∨ n = 0) ∧ bytes = bytesAt file pos n := by
  unfold readExactAt
  split_ifs with h <;> simp [h, eq_comm]

theorem readExactAt_of_le {file : List UInt8} {pos n : Nat} (h : pos + n ≤ file.length) :
    readExactAt file pos n = .ok (bytesAt file pos n) := if_pos (Or.inl h)

/-- A read in range on a device of the same size sees only the bytes it covers. -/
theorem readExactAt_congr {file file' : List UInt8} {pos n : Nat} (hlen : file'.length = file.length)
    (h : ∀ i, pos ≤ i → i < pos + n → file'[i]? = file[i]?) :
    readExactAt file' pos n = readExactAt file pos n := by
  unfold readExactAt
  rw [hlen, bytesAt_congr h]

theorem writeAllAt_eq_ok {pos : Nat} {data file file' : List UInt8} :
    writeAllAt pos data file = .ok (.ok (), file') ↔
      pos + data.length ≤ file.length ∧ file' = overwrite file pos data := by
  unfold writeAllAt
  rw [Stateful.step_apply]
  split_ifs with h <;> simp [h, eq_comm]

end Virtualization
