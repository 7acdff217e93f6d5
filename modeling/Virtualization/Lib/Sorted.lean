import Mathlib.Data.List.Sort
import Mathlib.Data.String.Basic

/-!
# Sorting, and names numbered in decimal

`sorted l` is `l` in ascending order.  A list has one ascending permutation under a linear order,
so every sorting algorithm returns the same list: insertion sort stands for any of them
(`sorted_eq_of_perm_of_pairwise`), the input order does not matter (`sorted_eq_of_perm`), and a
strictly monotone map commutes with sorting (`sorted_map`).

`indexedNames p n` lists the names `p0, p1, …, p(n-1)`, each `p` followed by the decimal numeral
of its index.  Strings are ordered character by character, so such names are sorted by their
numerals, and the numerals are sorted as numbers only while they are one digit long: the names of
fewer than eleven indices come back from sorting in index order (`sorted_numerals_of_le`),
and from eleven on they do not, since `p10` comes before `p2` (`sorted_numerals_ne`).
-/

namespace Virtualization

section Sorting

variable {α : Type} [LinearOrder α]

/-- The list in ascending order. -/
def sorted (l : List α) : List α := l.insertionSort (· ≤ ·)

theorem sorted_perm (l : List α) : (sorted l).Perm l := List.perm_insertionSort _ l

@[simp] theorem length_sorted (l : List α) : (sorted l).length = l.length :=
  List.length_insertionSort _ l

theorem pairwise_sorted (l : List α) : (sorted l).Pairwise (· ≤ ·) :=
  List.pairwise_insertionSort _ l

/-- The ascending permutation of a list is the only one. -/
theorem sorted_eq_of_perm_of_pairwise {l l' : List α} (hp : l.Perm l')
    (hs : l'.Pairwise (· ≤ ·)) : sorted l = l' :=
  ((sorted_perm l).trans hp).eq_of_pairwise' (pairwise_sorted l) hs

theorem sorted_eq_of_perm {l₁ l₂ : List α} (h : l₁.Perm l₂) : sorted l₁ = sorted l₂ :=
  sorted_eq_of_perm_of_pairwise (h.trans (sorted_perm l₂).symm) (pairwise_sorted l₂)

theorem sorted_of_pairwise {l : List α} (h : l.Pairwise (· ≤ ·)) : sorted l = l :=
  sorted_eq_of_perm_of_pairwise (List.Perm.refl l) h

/-- Sorting commutes with a strictly monotone map. -/
theorem sorted_map {β : Type} [LinearOrder β] {f : α → β} (hf : StrictMono f) (l : List α) :
    sorted (l.map f) = (sorted l).map f := by
  apply sorted_eq_of_perm_of_pairwise ((sorted_perm l).map f).symm
  rw [List.pairwise_map]
  exact (pairwise_sorted l).imp fun h ↦ hf.monotone h

end Sorting

/-! ## Strictly increasing keys -/

/-- In a list whose keys strictly increase, each key belongs to at most one element. -/
theorem countP_key_le_one {α β : Type} [Preorder β] [DecidableEq β] {f : α → β} {l : List α}
    (h : (l.map f).Pairwise (· < ·)) (x : β) : l.countP (fun a ↦ f a = x) ≤ 1 := by
  induction l with
  | nil => exact Nat.zero_le _
  | cons a l ih =>
    rw [List.map_cons, List.pairwise_cons] at h
    rw [List.countP_cons]
    by_cases hx : f a = x
    · have hzero : l.countP (fun a ↦ f a = x) = 0 := by
        rw [List.countP_eq_zero]
        intro b hb hbx
        have hlt := h.1 (f b) (List.mem_map_of_mem hb)
        rw [hx, of_decide_eq_true hbx] at hlt
        exact lt_irrefl x hlt
      simp [hzero, hx]
    · simpa [hx] using ih h.2

/-! ## Strings that share a stem -/

/-- Putting a stem in front keeps the order of strings. -/
theorem strictMono_append (p : String) : StrictMono (p ++ ·) := by
  intro s t hst
  rw [String.lt_iff_toList_lt, String.toList_append, String.toList_append]
  exact List.append_left_lt hst

theorem append_left_cancel {p s t : String} (h : p ++ s = p ++ t) : s = t := by
  rw [← String.toList_inj, String.toList_append, String.toList_append] at h
  exact String.toList_inj.mp (List.append_cancel_left h)

/-- A stem that is neither a beginning nor an extension of `q` begins no string `q ++ s`. -/
theorem not_prefix_append {p q : String} (hpq : ¬ p.toList <+: q.toList)
    (hqp : ¬ q.toList <+: p.toList) (s : String) : ¬ p.toList <+: (q ++ s).toList := by
  intro hp
  have hq : q.toList <+: (q ++ s).toList := by
    rw [String.toList_append]
    exact List.prefix_append _ _
  rcases List.prefix_or_prefix_of_prefix hp hq with h | h
  · exact hpq h
  · exact hqp h

/-! ## Names numbered in decimal -/

/-- The decimal numerals of `0, …, n-1`. -/
def numerals (n : Nat) : List String := (List.range n).map toString

/-- The names `p0, p1, …, p(n-1)`. -/
def indexedNames (p : String) (n : Nat) : List String := (numerals n).map (p ++ ·)

@[simp] theorem length_numerals (n : Nat) : (numerals n).length = n := by
  simp [numerals]

@[simp] theorem getElem_numerals {n i : Nat} (h : i < (numerals n).length) :
    (numerals n)[i] = toString i := by
  simp [numerals]

@[simp] theorem length_indexedNames (p : String) (n : Nat) : (indexedNames p n).length = n := by
  simp [indexedNames]

@[simp] theorem getElem_indexedNames {p : String} {n i : Nat} (h : i < (indexedNames p n).length) :
    (indexedNames p n)[i] = p ++ toString i := by
  simp [indexedNames]

theorem mem_indexedNames {p s : String} {n : Nat} :
    s ∈ indexedNames p n ↔ ∃ i < n, s = p ++ toString i := by
  simp [indexedNames, numerals, eq_comm]

/-- A number is read back from its numeral. -/
theorem toString_injective : Function.Injective (toString : Nat → String) := by
  intro m n h
  have hdigits : Nat.toDigits 10 m = Nat.toDigits 10 n := by
    rw [← Nat.toList_repr, ← Nat.toList_repr, ← Nat.toString_eq_repr, ← Nat.toString_eq_repr, h]
  rw [← Nat.ofDigitChars_ten_toDigits (n := m), hdigits, Nat.ofDigitChars_ten_toDigits]

/-- Numerals of one digit are ordered as their numbers. -/
theorem toString_lt_toString {i j : Nat} (hij : i < j) (hj : j < 10) : toString i < toString j := by
  have hdigits : ∀ j < 10, ∀ i < j, toString i < toString j := by decide
  exact hdigits j hj i hij

theorem sorted_numerals_of_le {n : Nat} (hn : n ≤ 10) : sorted (numerals n) = numerals n := by
  apply sorted_of_pairwise
  rw [numerals, List.pairwise_map]
  refine List.pairwise_lt_range.imp_of_mem fun {i j} _ hj hij ↦ ?_
  have hj10 : j < 10 := by
    rw [List.mem_range] at hj
    omega
  exact (toString_lt_toString hij hj10).le

/-- From eleven numerals on, sorting moves `10` before `2`. -/
theorem sorted_numerals_ne {n : Nat} (hn : 11 ≤ n) : sorted (numerals n) ≠ numerals n := by
  intro h
  have hsorted := pairwise_sorted (numerals n)
  rw [h, List.pairwise_iff_getElem] at hsorted
  have h2 : toString 2 ≤ toString 10 := by
    have := hsorted 2 10 (by simp; omega) (by simp; omega) (by decide)
    rwa [getElem_numerals, getElem_numerals] at this
  exact absurd h2 (by decide)

end Virtualization
