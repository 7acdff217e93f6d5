import Virtualization.Lib.Outcome
import Virtualization.Lib.Chunks
import Virtualization.Lib.Bytes

/-!
# `authfs::common` and `authfs::crypto`

The block size, the rounded-up division on `u64`, the iterator that cuts a byte range into
pieces that never cross a block boundary, and the SHA-256 digest type.

SHA-256 itself is BoringSSL's, reached through FFI: every function that hashes takes it as a
parameter `sha : List UInt8 → Sha256Hash`.  A hasher fed `a`, then `b`, finalizes to
`sha (a ++ b)`; the FFI calls report failure only on a null context, which never happens, so
the `CryptoError` paths of `Sha256Hasher` are not modelled.

`for (offset, size) in ChunkedSizeIter::new(..) { .. }` is `ChunkedSizeIter.forIn`: it pulls
items lazily with `next`, so an overflow in `next` panics only once the loop gets there.
`forIn_rule` is its invariant rule, `forIn_ensures` and `forIn_eq_ok` its rules of total
correctness, the second for a body that never fails.  The pieces `next` yields tile the range:
from `offset` on, each where the one before it ends, none empty and none across a block boundary,
`remaining` bytes in all (`collect_tiles`).
-/

namespace Virtualization.AuthFs

open Outcome

variable {ε σ : Type}

/-- `CHUNK_SIZE`: the common block and page size in Linux. -/
def chunkSize : Nat := 4096

/-- `divide_roundup`: `(dividend + divisor - 1) / divisor` on `u64`. -/
def divideRoundup (dividend divisor : Nat) : Outcome ε Nat := do
  let s ← checkedAdd 64 dividend divisor
  let t ← checkedSub s 1
  checkedDiv t divisor

theorem divideRoundup_eq {dividend divisor : Nat} (hpos : 0 < divisor)
    (hlt : dividend + divisor < 2 ^ 64) :
    (divideRoundup dividend divisor : Outcome ε Nat) = ok (dividend ⌈/⌉ divisor) := by
  have h1 : 1 ≤ dividend + divisor := by omega
  simp only [divideRoundup, checkedAdd_of_lt hlt, ok_bind, checkedSub_of_le h1,
    checkedDiv_of_pos hpos, Nat.ceilDiv_eq_add_pred_div]

/-- `divide_roundup` panics when `dividend + divisor` overflows. -/
theorem divideRoundup_of_le {dividend divisor : Nat} (h : 2 ^ 64 ≤ dividend + divisor) :
    (divideRoundup dividend divisor : Outcome ε Nat) = panic := by
  rw [divideRoundup, checkedAdd_of_le h, panic_bind]

/-- Everything `divide_roundup` can return: the rounded-up quotient, when the sum does not
overflow and the divisor is not zero. -/
theorem divideRoundup_eq_ok {dividend divisor q : Nat}
    (h : (divideRoundup dividend divisor : Outcome ε Nat) = ok q) :
    dividend + divisor < 2 ^ 64 ∧ 0 < divisor ∧ q = dividend ⌈/⌉ divisor := by
  obtain ⟨s, hs, h⟩ := bind_eq_ok.mp h
  obtain ⟨t, ht, h⟩ := bind_eq_ok.mp h
  obtain ⟨hlt, rfl⟩ := checkedAdd_eq_ok.mp hs
  obtain ⟨-, rfl⟩ := checkedSub_eq_ok.mp ht
  obtain ⟨hpos, rfl⟩ := checkedDiv_eq_ok.mp h
  exact ⟨hlt, hpos, by rw [Nat.ceilDiv_eq_add_pred_div]⟩

/-! ## `ChunkedSizeIter` -/

/-- `ChunkedSizeIter`: the `(offset, size)` pieces of `remaining` bytes from `offset`, none
crossing a multiple of `alignment`. -/
structure ChunkedSizeIter where
  remaining : Nat
  offset : Nat
  alignment : Nat

namespace ChunkedSizeIter

/-- The size of the next piece: what is left, up to the next multiple of `alignment`. -/
def chunkDataSize (it : ChunkedSizeIter) : Nat :=
  min it.remaining (it.alignment - it.offset % it.alignment)

/-- The iterator after yielding its next piece. -/
def advance (it : ChunkedSizeIter) : ChunkedSizeIter :=
  { remaining := it.remaining - it.chunkDataSize, offset := it.offset + it.chunkDataSize,
    alignment := it.alignment }

/-- `ChunkedSizeIter::next`.  The `%` by a zero alignment and the `u64` addition to the offset
panic. -/
def next (it : ChunkedSizeIter) : Outcome ε (Option ((Nat × Nat) × ChunkedSizeIter)) :=
  if it.remaining = 0 then ok none
  else if it.alignment = 0 then panic
  else do
    let _ ← (checkedAdd 64 it.offset it.chunkDataSize : Outcome ε Nat)
    pure (some ((it.offset, it.chunkDataSize), it.advance))

@[simp] theorem advance_alignment (it : ChunkedSizeIter) : it.advance.alignment = it.alignment :=
  rfl

@[simp] theorem advance_offset (it : ChunkedSizeIter) :
    it.advance.offset = it.offset + it.chunkDataSize := rfl

@[simp] theorem advance_remaining (it : ChunkedSizeIter) :
    it.advance.remaining = it.remaining - it.chunkDataSize := rfl

/-- A piece is never empty, and never longer than what is left. -/
theorem chunkDataSize_pos {it : ChunkedSizeIter} (hr : it.remaining ≠ 0) (ha : it.alignment ≠ 0) :
    0 < it.chunkDataSize := by
  have := Nat.mod_lt it.offset (Nat.pos_of_ne_zero ha)
  simp only [chunkDataSize]
  omega

/-- A piece never crosses a multiple of the alignment. -/
theorem mod_add_chunkDataSize_le {it : ChunkedSizeIter} (ha : it.alignment ≠ 0) :
    it.offset % it.alignment + it.chunkDataSize ≤ it.alignment := by
  have := Nat.mod_lt it.offset (Nat.pos_of_ne_zero ha)
  simp only [chunkDataSize]
  omega

/-- Everything `next` can do. -/
theorem next_eq_some {it it' : ChunkedSizeIter} {item : Nat × Nat}
    (h : (next it : Outcome ε _) = ok (some (item, it'))) :
    it.remaining ≠ 0 ∧ it.alignment ≠ 0 ∧ it.offset + it.chunkDataSize < 2 ^ 64 ∧
      item = (it.offset, it.chunkDataSize) ∧ it' = it.advance := by
  unfold next at h
  by_cases hr : it.remaining = 0
  · simp [hr] at h
  by_cases ha : it.alignment = 0
  · simp [hr, ha] at h
  by_cases hov : it.offset + it.chunkDataSize < 2 ^ 64
  · simp only [hr, ha, if_false, checkedAdd_of_lt hov, ok_bind, pure_eq, ok.injEq,
      Option.some.injEq, Prod.mk.injEq] at h
    exact ⟨hr, ha, hov, h.1.symm, h.2.symm⟩
  · simp [hr, ha, checkedAdd_of_le (Nat.le_of_not_lt hov)] at h

theorem next_eq_none {it : ChunkedSizeIter} :
    (next it : Outcome ε _) = ok none ↔ it.remaining = 0 := by
  unfold next
  by_cases hr : it.remaining = 0
  · simp [hr]
  by_cases ha : it.alignment = 0
  · simp [hr, ha]
  by_cases hov : it.offset + it.chunkDataSize < 2 ^ 64
  · simp [hr, ha, checkedAdd_of_lt hov]
  · simp [hr, ha, checkedAdd_of_le (Nat.le_of_not_lt hov)]

theorem remaining_lt_of_next {it it' : ChunkedSizeIter} {item : Nat × Nat}
    (h : (next it : Outcome ε _) = ok (some (item, it'))) : it'.remaining < it.remaining := by
  obtain ⟨hr, ha, -, -, rfl⟩ := next_eq_some h
  have := chunkDataSize_pos hr ha
  simp only [advance_remaining]
  omega

set_option linter.unusedVariables false in
/-- `for item in it { body }`: the body goes on with `yield` or leaves the loop with `done`;
errors and panics, of `next` or of the body, propagate. -/
def forIn (it : ChunkedSizeIter) (init : σ) (body : Nat × Nat → σ → Outcome ε (ForInStep σ)) :
    Outcome ε σ :=
  match h : (next it : Outcome ε _) with
  | .ok none => ok init
  | .ok (some (item, it')) =>
    body item init >>= fun
      | .done b => ok b
      | .yield b => forIn it' b body
  | .err e => err e
  | .panic => panic
termination_by it.remaining
decreasing_by exact remaining_lt_of_next h

/-- `next` yields the next piece when something is left, the alignment is not zero and the
offset does not overflow. -/
theorem next_of_ne_zero {it : ChunkedSizeIter} (hr : it.remaining ≠ 0) (ha : it.alignment ≠ 0)
    (hov : it.offset + it.chunkDataSize < 2 ^ 64) :
    (next it : Outcome ε _) = ok (some ((it.offset, it.chunkDataSize), it.advance)) := by
  simp only [next, if_neg hr, if_neg ha, checkedAdd_of_lt hov, ok_bind, pure_eq]

/-- When nothing is left, the loop returns its state. -/
theorem forIn_of_zero {body : Nat × Nat → σ → Outcome ε (ForInStep σ)} {it : ChunkedSizeIter}
    {acc : σ} (hr : it.remaining = 0) : forIn it acc body = ok acc := by
  rw [forIn]
  split
  · rfl
  · rename_i item it' hnext
    exact absurd (next_eq_some hnext).1 (not_not.mpr hr)
  · rename_i e hnext
    simp [next, hr] at hnext
  · rename_i hnext
    simp [next, hr] at hnext

/-- When something is left, the loop runs the body on the next piece, and goes on with the
rest if the body yields. -/
theorem forIn_of_ne_zero {body : Nat × Nat → σ → Outcome ε (ForInStep σ)} {it : ChunkedSizeIter}
    {acc : σ} (hr : it.remaining ≠ 0) (ha : it.alignment ≠ 0)
    (hov : it.offset + it.chunkDataSize < 2 ^ 64) :
    forIn it acc body = body (it.offset, it.chunkDataSize) acc >>= fun
      | .done b => ok b
      | .yield b => forIn it.advance b body := by
  rw [forIn]
  split
  · rename_i hnext
    exact absurd (next_eq_none.mp hnext) hr
  · rename_i item it' hnext
    rw [next_of_ne_zero hr ha hov] at hnext
    cases hnext
    rfl
  · rename_i e hnext
    rw [next_of_ne_zero hr ha hov] at hnext
    cases hnext
  · rename_i hnext
    rw [next_of_ne_zero hr ha hov] at hnext
    cases hnext

/-- The invariant rule of the loop, for total correctness: when the invariant holds before
each item, no item overflows, and the body keeps the invariant without panicking, the loop
does not panic and its value satisfies `Q`. -/
theorem forIn_ensures {body : Nat × Nat → σ → Outcome ε (ForInStep σ)}
    (P : ChunkedSizeIter → σ → Prop) (Q : σ → Prop)
    (hend : ∀ it acc, P it acc → it.remaining = 0 → Q acc)
    (hnext : ∀ it acc, P it acc → it.remaining ≠ 0 →
      it.alignment ≠ 0 ∧ it.offset + it.chunkDataSize < 2 ^ 64)
    (hbody : ∀ it acc, P it acc → it.remaining ≠ 0 →
      (body (it.offset, it.chunkDataSize) acc).Ensures fun
        | .yield b => P it.advance b
        | .done b => Q b)
    {it : ChunkedSizeIter} {acc : σ} (hP : P it acc) : (forIn it acc body).Ensures Q := by
  by_cases hr : it.remaining = 0
  · rw [forIn_of_zero hr]
    exact hend it acc hP hr
  · obtain ⟨ha, hov⟩ := hnext it acc hP hr
    rw [forIn_of_ne_zero hr ha hov]
    refine (hbody it acc hP hr).bind fun step hstep ↦ ?_
    cases step with
    | done b => exact hstep
    | yield b =>
      have : 0 < it.remaining ∧ 0 < it.chunkDataSize :=
        ⟨Nat.pos_of_ne_zero hr, chunkDataSize_pos hr ha⟩
      exact forIn_ensures P Q hend hnext hbody hstep
termination_by it.remaining

/-- The invariant rule of the loop for a body that always goes on: when the invariant holds
before each item, no item overflows, and the body yields and keeps the invariant, the loop
returns, with a value that satisfies `Q`. -/
theorem forIn_eq_ok {body : Nat × Nat → σ → Outcome ε (ForInStep σ)}
    (P : ChunkedSizeIter → σ → Prop) (Q : σ → Prop)
    (hend : ∀ it acc, P it acc → it.remaining = 0 → Q acc)
    (hnext : ∀ it acc, P it acc → it.remaining ≠ 0 →
      it.alignment ≠ 0 ∧ it.offset + it.chunkDataSize < 2 ^ 64)
    (hbody : ∀ it acc, P it acc → it.remaining ≠ 0 →
      ∃ b, body (it.offset, it.chunkDataSize) acc = ok (.yield b) ∧ P it.advance b)
    {it : ChunkedSizeIter} {acc : σ} (hP : P it acc) : ∃ r, forIn it acc body = ok r ∧ Q r := by
  by_cases hr : it.remaining = 0
  · exact ⟨acc, forIn_of_zero hr, hend it acc hP hr⟩
  · obtain ⟨ha, hov⟩ := hnext it acc hP hr
    obtain ⟨b, hb, hPb⟩ := hbody it acc hP hr
    rw [forIn_of_ne_zero hr ha hov, hb, ok_bind]
    have : 0 < it.remaining ∧ 0 < it.chunkDataSize :=
      ⟨Nat.pos_of_ne_zero hr, chunkDataSize_pos hr ha⟩
    exact forIn_eq_ok P Q hend hnext hbody hPb
termination_by it.remaining

/-- The invariant rule of the loop: what holds before each item, and is kept by every item the
body goes on from, holds when the loop returns. -/
theorem forIn_rule {body : Nat × Nat → σ → Outcome ε (ForInStep σ)}
    (P : ChunkedSizeIter → σ → Prop) (Q : σ → Prop)
    (hend : ∀ it acc, P it acc → it.remaining = 0 → Q acc)
    (hyield : ∀ it acc item it' b, P it acc → (next it : Outcome ε _) = ok (some (item, it')) →
      body item acc = ok (.yield b) → P it' b)
    (hdone : ∀ it acc item it' b, P it acc → (next it : Outcome ε _) = ok (some (item, it')) →
      body item acc = ok (.done b) → Q b)
    {it : ChunkedSizeIter} {acc r : σ} (hP : P it acc) (h : forIn it acc body = ok r) : Q r := by
  rw [forIn] at h
  split at h
  · rename_i hnext
    cases h
    exact hend it acc hP (next_eq_none.mp hnext)
  · rename_i item it' hnext
    obtain ⟨step, hstep, hb⟩ := bind_eq_ok.mp h
    cases step with
    | done b =>
      cases hb
      exact hdone it acc item it' _ hP hnext hstep
    | yield b =>
      have := remaining_lt_of_next hnext
      exact forIn_rule P Q hend hyield hdone (hyield it acc item it' b hP hnext hstep) hb
  · cases h
  · cases h
termination_by it.remaining

/-! ### The pieces -/

/-- `Iterator::collect::<Vec<_>>()`: the pieces in the order `next` yields them. -/
def collect (it : ChunkedSizeIter) : Outcome ε (List (Nat × Nat)) :=
  forIn it [] fun item acc ↦ ok (.yield (acc ++ [item]))

/-- Pieces that tile the bytes from `offset` on: each starts where the ones before it end, is not
empty, and lies inside one block of `alignment` bytes. -/
structure Tiles (alignment offset : Nat) (ps : List (Nat × Nat)) : Prop where
  fst_eq : ∀ (j : Nat) (hj : j < ps.length), ps[j].1 = offset + ((ps.map Prod.snd).take j).sum
  snd_pos : ∀ p ∈ ps, 0 < p.2
  in_block : ∀ p ∈ ps, ∃ a, a * alignment ≤ p.1 ∧ p.1 + p.2 ≤ (a + 1) * alignment

/-- The next piece extends a tiling that ends at the iterator's offset. -/
theorem Tiles.append_next {alignment offset : Nat} {ps : List (Nat × Nat)} {it : ChunkedSizeIter}
    (hps : Tiles alignment offset ps) (halign : it.alignment = alignment)
    (hoff : it.offset = offset + (ps.map Prod.snd).sum) (hr : it.remaining ≠ 0)
    (ha : alignment ≠ 0) :
    Tiles alignment offset (ps ++ [(it.offset, it.chunkDataSize)]) := by
  subst halign
  refine ⟨fun j hj ↦ ?_, fun p hp ↦ ?_, fun p hp ↦ ?_⟩
  · rw [List.length_append, List.length_singleton] at hj
    rw [List.map_append, List.getElem_append]
    split_ifs with hlt
    · rw [List.take_append_of_le_length (by simpa using hlt.le), hps.fst_eq j hlt]
    · have hj' : j = ps.length := by omega
      subst hj'
      rw [List.getElem_singleton, List.take_append_of_le_length (by simp), List.take_of_length_le
        (by simp), hoff]
  · rcases List.mem_append.1 hp with hp | hp
    · exact hps.snd_pos p hp
    · rw [List.mem_singleton.1 hp]
      exact chunkDataSize_pos hr ha
  · rcases List.mem_append.1 hp with hp | hp
    · exact hps.in_block p hp
    · rw [List.mem_singleton.1 hp]
      have hmod := mod_add_chunkDataSize_le ha
      have hdiv := Nat.div_add_mod it.offset it.alignment
      refine ⟨it.offset / it.alignment, ?_, ?_⟩ <;> rw [Nat.mul_comm] <;> dsimp only
      · omega
      · rw [Nat.mul_succ]
        omega

/-- In a tiling the first piece starts at the offset, and each next piece where the one before
it ends. -/
theorem Tiles.chain {alignment offset : Nat} {ps : List (Nat × Nat)}
    (hps : Tiles alignment offset ps) :
    (∀ h : 0 < ps.length, ps[0].1 = offset) ∧
      ∀ (j : Nat) (h : j + 1 < ps.length), ps[j + 1].1 = ps[j].1 + ps[j].2 := by
  refine ⟨fun h ↦ ?_, fun j h ↦ ?_⟩
  · rw [hps.fst_eq 0 h, List.take_zero, List.sum_nil, Nat.add_zero]
  · have hj : j < (ps.map Prod.snd).length := by
      rw [List.length_map]
      omega
    rw [hps.fst_eq (j + 1) h, hps.fst_eq j (by omega), List.take_add_one, List.sum_append,
      List.getElem?_eq_getElem hj, Option.toList_some, List.sum_singleton, List.getElem_map,
      Nat.add_assoc]

/-- A piece is no longer than what is left. -/
theorem chunkDataSize_le (it : ChunkedSizeIter) : it.chunkDataSize ≤ it.remaining :=
  Nat.min_le_left _ _

/-- For an alignment that is not zero and an offset and a size whose sum fits in a `u64`, the
iterator yields pieces of the bytes `[offset, offset + remaining)`, in order from `offset`, each
starting where the one before it ends, none empty, none crossing a multiple of the alignment,
and together `remaining` bytes long. -/
theorem collect_tiles (remaining offset alignment : Nat) (ha : 0 < alignment)
    (hov : offset + remaining < 2 ^ 64) :
    ∃ ps, (collect ⟨remaining, offset, alignment⟩ : Outcome ε _) = ok ps ∧
      (∀ h : 0 < ps.length, ps[0].1 = offset) ∧
      (∀ (j : Nat) (h : j + 1 < ps.length), ps[j + 1].1 = ps[j].1 + ps[j].2) ∧
      (∀ p ∈ ps, 1 ≤ p.2 ∧ ∃ a, a * alignment ≤ p.1 ∧ p.1 + p.2 ≤ (a + 1) * alignment) ∧
      (ps.map Prod.snd).sum = remaining := by
  -- what has been yielded tiles the bytes from `offset` up to the iterator's offset
  let P : ChunkedSizeIter → List (Nat × Nat) → Prop := fun it ps ↦
    it.alignment = alignment ∧ it.offset = offset + (ps.map Prod.snd).sum ∧
      it.remaining + (ps.map Prod.snd).sum = remaining ∧ Tiles alignment offset ps
  have hstart : P ⟨remaining, offset, alignment⟩ [] :=
    ⟨rfl, by simp, by simp, ⟨by simp, by simp, by simp⟩⟩
  have hend : ∀ it ps, P it ps → it.remaining = 0 →
      (ps.map Prod.snd).sum = remaining ∧ Tiles alignment offset ps := by
    rintro it ps ⟨-, -, hrem, htiles⟩ hr
    exact ⟨by omega, htiles⟩
  have hnext : ∀ it ps, P it ps → it.remaining ≠ 0 →
      it.alignment ≠ 0 ∧ it.offset + it.chunkDataSize < 2 ^ 64 := by
    rintro it ps ⟨halign, hoff, hrem, -⟩ -
    have := it.chunkDataSize_le
    omega
  have hbody : ∀ it ps, P it ps → it.remaining ≠ 0 →
      ∃ b, (ok (ForInStep.yield (ps ++ [(it.offset, it.chunkDataSize)])) : Outcome ε _) =
        ok (ForInStep.yield b) ∧ P it.advance b := by
    rintro it ps ⟨halign, hoff, hrem, htiles⟩ hr
    have := it.chunkDataSize_le
    refine ⟨_, rfl, halign, ?_, ?_, htiles.append_next halign hoff hr (by omega)⟩ <;>
      simp only [advance_offset, advance_remaining, List.map_append, List.sum_append,
        List.map_singleton, List.sum_singleton] <;> omega
  obtain ⟨ps, hps, hsum, htiles⟩ :=
    @forIn_eq_ok ε _ (fun item acc ↦ ok (.yield (acc ++ [item]))) P _ hend hnext hbody _ _ hstart
  obtain ⟨hfirst, hchain⟩ := htiles.chain
  exact ⟨ps, hps, hfirst, hchain, fun p hp ↦ ⟨htiles.snd_pos p hp, htiles.in_block p hp⟩, hsum⟩

/-- The pieces of four blocks from offset 1, one of the module's test cases. -/
theorem collect_tiles_one :
    0 < 4096 ∧ 1 + 16384 < 2 ^ 64 ∧
      ∃ ps, (collect ⟨16384, 1, 4096⟩ : Outcome Empty _) = ok ps ∧
        (∀ h : 0 < ps.length, ps[0].1 = 1) ∧
        (∀ (j : Nat) (h : j + 1 < ps.length), ps[j + 1].1 = ps[j].1 + ps[j].2) ∧
        (∀ p ∈ ps, 1 ≤ p.2 ∧ ∃ a, a * 4096 ≤ p.1 ∧ p.1 + p.2 ≤ (a + 1) * 4096) ∧
        (ps.map Prod.snd).sum = 16384 :=
  ⟨by decide, by decide, collect_tiles 16384 1 4096 (by decide) (by decide)⟩

end ChunkedSizeIter

/-! ## `authfs::crypto` -/

/-- `Sha256Hasher::HASH_SIZE`. -/
def hashSize : Nat := 32

/-- `Sha256Hash`, `[u8; Sha256Hasher::HASH_SIZE]`. -/
abbrev Sha256Hash := FixedBytes 32

/-- `ChunkBuffer`, `[u8; CHUNK_SIZE]`. -/
abbrev ChunkBuffer := FixedBytes 4096

/-- A digest of all zeros, `[0u8; 32]`. -/
def Sha256Hash.zero : Sha256Hash := FixedBytes.zero 32

/-- `Sha256Hasher::HASH_OF_4096_ZEROS`. -/
def hashOf4096Zeros : Sha256Hash :=
  ⟨[0xad, 0x7f, 0xac, 0xb2, 0x58, 0x6f, 0xc6, 0xe9, 0x66, 0xc0, 0x04, 0xd7, 0xd1, 0xd1, 0x6b,
    0x02, 0x4f, 0x58, 0x05, 0xff, 0x7c, 0xb4, 0x7c, 0x7a, 0x85, 0xda, 0xbd, 0x8b, 0x48, 0x89,
    0x2c, 0xa7], rfl⟩

end Virtualization.AuthFs
