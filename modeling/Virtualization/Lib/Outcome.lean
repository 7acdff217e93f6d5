import Mathlib.Algebra.Group.Nat.Defs
import Mathlib.Algebra.Group.Int.Defs
import Mathlib.Order.Basic

/-!
# Computations that return, fail or panic

A Rust function ends in one of three ways: it returns `Ok`, it returns `Err`, or it panics
(an `unwrap` of `None`, an `assert!`, a slice out of range, an arithmetic overflow under
overflow checks).  `Outcome ε α` records which.  It is the error monad with one more,
unrecoverable, failure; `?` is `bind`, and a panic is never caught.

Machine arithmetic is kept on `Nat`: a `w`-bit operation is `checkedAdd w`, `checkedMul w`, …,
which panic exactly when the checked Rust operation overflows its `w` bits.
-/

namespace Virtualization

/-- The end of a Rust computation: a value, an error value, or a panic. -/
inductive Outcome (ε α : Type) where
  | ok (a : α)
  | err (e : ε)
  | panic
deriving DecidableEq, Repr

namespace Outcome

variable {ε ε' α β γ : Type}

/-- Sequencing: errors and panics short-circuit, as `?` and unwinding do. -/
def bind : Outcome ε α → (α → Outcome ε β) → Outcome ε β
  | ok a, f => f a
  | err e, _ => err e
  | panic, _ => panic

instance : Monad (Outcome ε) where
  pure := ok
  bind := bind

@[simp] theorem pure_eq (a : α) : (pure a : Outcome ε α) = ok a := rfl

@[simp] theorem ok_bind (a : α) (f : α → Outcome ε β) : (ok a >>= f) = f a := rfl

@[simp] theorem err_bind (e : ε) (f : α → Outcome ε β) : (err e >>= f) = err e := rfl

@[simp] theorem panic_bind (f : α → Outcome ε β) : ((panic : Outcome ε α) >>= f) = panic := rfl

@[simp] theorem map_eq (f : α → β) (x : Outcome ε α) : f <$> x = x >>= fun a ↦ ok (f a) := rfl

instance : LawfulMonad (Outcome ε) := LawfulMonad.mk' (Outcome ε)
  (fun x ↦ by cases x <;> rfl)
  (fun _ _ ↦ rfl)
  (fun x _ _ ↦ by cases x <;> rfl)

/-- The inversion rule for `?`: a bind returns a value only if its first stage did. -/
theorem bind_eq_ok {x : Outcome ε α} {f : α → Outcome ε β} {b : β} :
    (x >>= f) = ok b ↔ ∃ a, x = ok a ∧ f a = ok b := by
  cases x with
  | ok a => simp
  | err e => simp
  | panic => simp

/-- A bind panics exactly when its first stage does, or its continuation does. -/
theorem bind_eq_panic {x : Outcome ε α} {f : α → Outcome ε β} :
    (x >>= f) = panic ↔ x = panic ∨ ∃ a, x = ok a ∧ f a = panic := by
  cases x with
  | ok a => simp
  | err e => simp
  | panic => simp

/-- A bind does not panic when its first stage does not, nor any continuation it reaches. -/
theorem bind_ne_panic {x : Outcome ε α} {f : α → Outcome ε β} (hx : x ≠ panic)
    (hf : ∀ a, x = ok a → f a ≠ panic) : (x >>= f) ≠ panic := by
  rw [Ne, bind_eq_panic]
  rintro (h | ⟨a, ha, h⟩)
  · exact hx h
  · exact hf a ha h

/-- A `mapM` whose every step returns a value returns the list of values. -/
theorem mapM_eq_ok_map {f : α → Outcome ε β} {g : α → β} {l : List α}
    (h : ∀ a ∈ l, f a = ok (g a)) : l.mapM f = ok (l.map g) := by
  induction l with
  | nil => rfl
  | cons a l ih =>
    rw [List.mapM_cons, h a List.mem_cons_self,
      ih fun b hb ↦ h b (List.mem_cons_of_mem a hb)]
    rfl

/-- What a `mapM` that returned computed: where each step's value determines `g` of it from the
input as `h`, the values give `h` of the inputs. -/
theorem map_of_mapM_eq_ok {f : α → Outcome ε β} {g : β → γ} {h : α → γ}
    (hstep : ∀ a b, f a = ok b → g b = h a) {l : List α} {bs : List β} (hl : l.mapM f = ok bs) :
    bs.map g = l.map h := by
  induction l generalizing bs with
  | nil =>
    cases hl
    rfl
  | cons a l ih =>
    rw [List.mapM_cons] at hl
    obtain ⟨b, hb, hl⟩ := bind_eq_ok.mp hl
    obtain ⟨bs', hbs', hl⟩ := bind_eq_ok.mp hl
    cases hl
    rw [List.map_cons, List.map_cons, hstep a b hb, ih hbs']

/-- The value-independent fact that an outcome returned normally. -/
def IsOk : Outcome ε α → Prop
  | ok _ => True
  | _ => False

/-- An outcome other than a panic: the function returned, with a value or an error. -/
def Returns : Outcome ε α → Prop
  | panic => False
  | _ => True

@[simp] theorem returns_ok (a : α) : Returns (ok a : Outcome ε α) := trivial

@[simp] theorem returns_err (e : ε) : Returns (err e : Outcome ε α) := trivial

@[simp] theorem not_returns_panic : ¬ Returns (panic : Outcome ε α) := id

/-- A bind returns when its first stage returns and every continuation it reaches does. -/
theorem returns_bind {x : Outcome ε α} {f : α → Outcome ε β} (hx : Returns x)
    (hf : ∀ a, x = ok a → Returns (f a)) : Returns (x >>= f) := by
  cases x with
  | ok a => exact hf a rfl
  | err e => trivial
  | panic => exact hx.elim

/-! ## Postconditions -/

/-- `x` never panics, and every value it returns satisfies `Q`; an error is allowed.  This is
the total-correctness triple of a function that may fail but must not panic. -/
def Ensures (x : Outcome ε α) (Q : α → Prop) : Prop :=
  match x with
  | ok a => Q a
  | err _ => True
  | panic => False

@[simp] theorem ensures_ok {a : α} {Q : α → Prop} : (ok a : Outcome ε α).Ensures Q ↔ Q a :=
  Iff.rfl

@[simp] theorem ensures_err {e : ε} {Q : α → Prop} : (err e : Outcome ε α).Ensures Q := trivial

@[simp] theorem not_ensures_panic {Q : α → Prop} : ¬ (panic : Outcome ε α).Ensures Q := id

theorem Ensures.returns {x : Outcome ε α} {Q : α → Prop} (h : x.Ensures Q) : x.Returns := by
  cases x with
  | ok a => trivial
  | err e => trivial
  | panic => exact h.elim

theorem Ensures.of_eq_ok {x : Outcome ε α} {Q : α → Prop} (h : x.Ensures Q) {a : α}
    (hx : x = ok a) : Q a := by
  subst hx
  exact h

theorem Ensures.mono {x : Outcome ε α} {P Q : α → Prop} (h : x.Ensures P)
    (hPQ : ∀ a, P a → Q a) : x.Ensures Q := by
  cases x with
  | ok a => exact hPQ a h
  | err e => trivial
  | panic => exact h.elim

/-- The sequencing rule. -/
theorem Ensures.bind {x : Outcome ε α} {f : α → Outcome ε β} {P : α → Prop} {Q : β → Prop}
    (hx : x.Ensures P) (hf : ∀ a, P a → (f a).Ensures Q) : (x >>= f).Ensures Q := by
  cases x with
  | ok a => exact hf a hx
  | err e => trivial
  | panic => exact hx.elim

/-- Change the error type, as `map_err` does. -/
def mapErr (g : ε → ε') : Outcome ε α → Outcome ε' α
  | ok a => ok a
  | err e => err (g e)
  | panic => panic

@[simp] theorem mapErr_ok (g : ε → ε') (a : α) : mapErr g (ok a) = ok a := rfl

@[simp] theorem mapErr_err (g : ε → ε') (e : ε) : (mapErr g (err e) : Outcome ε' α) = err (g e) :=
  rfl

@[simp] theorem mapErr_panic (g : ε → ε') : mapErr g (panic : Outcome ε α) = panic := rfl

theorem ensures_mapErr {g : ε → ε'} {x : Outcome ε α} {Q : α → Prop} :
    (mapErr g x).Ensures Q ↔ x.Ensures Q := by
  cases x <;> simp [mapErr]

/-- The `Result` of a computation as a value, for a caller that matches on it; a panic stays a
panic. -/
def result : Outcome ε α → Outcome ε' (Except ε α)
  | ok a => ok (.ok a)
  | err e => ok (.error e)
  | panic => panic

@[simp] theorem result_ok (a : α) : (result (ok a : Outcome ε α) : Outcome ε' _) = ok (.ok a) := rfl

@[simp] theorem result_err (e : ε) :
    (result (err e : Outcome ε α) : Outcome ε' _) = ok (.error e) := rfl

@[simp] theorem result_panic : (result (panic : Outcome ε α) : Outcome ε' _) = panic := rfl

/-- A fallible computation that cannot panic. -/
def ofExcept : Except ε α → Outcome ε α
  | .ok a => ok a
  | .error e => err e

@[simp] theorem ofExcept_ok (a : α) : ofExcept (.ok a : Except ε α) = ok a := rfl

@[simp] theorem ofExcept_error (e : ε) : ofExcept (.error e : Except ε α) = err e := rfl

theorem returns_ofExcept (x : Except ε α) : Returns (ofExcept x) := by
  cases x <;> trivial

theorem ofExcept_eq_ok {x : Except ε α} {a : α} : ofExcept x = ok a ↔ x = .ok a := by
  cases x <;> simp

theorem ofExcept_ne_panic (x : Except ε α) : ofExcept x ≠ panic := by
  cases x <;> simp

/-- `Option::ok_or(e)?`: `None` is the error `e`. -/
def okOr (o : Option α) (e : ε) : Outcome ε α :=
  match o with
  | some a => ok a
  | none => err e

@[simp] theorem okOr_some (a : α) (e : ε) : okOr (some a) e = ok a := rfl

@[simp] theorem okOr_none (e : ε) : (okOr none e : Outcome ε α) = err e := rfl

theorem okOr_eq_ok {o : Option α} {e : ε} {a : α} : okOr o e = ok a ↔ o = some a := by
  cases o <;> simp

theorem okOr_ne_panic (o : Option α) (e : ε) : okOr o e ≠ panic := by
  cases o <;> simp

/-- `Option::expect` and `Option::unwrap`: `None` panics. -/
def expect : Option α → Outcome ε α
  | some a => ok a
  | none => panic

@[simp] theorem expect_some (a : α) : (expect (some a) : Outcome ε α) = ok a := rfl

@[simp] theorem expect_none : (expect none : Outcome ε α) = panic := rfl

/-- `assert!(p)`. -/
def assert (p : Prop) [Decidable p] : Outcome ε Unit :=
  if p then ok () else panic

@[simp] theorem assert_of_true {p : Prop} [Decidable p] (h : p) :
    (assert p : Outcome ε Unit) = ok () := if_pos h

@[simp] theorem assert_of_false {p : Prop} [Decidable p] (h : ¬ p) :
    (assert p : Outcome ε Unit) = panic := if_neg h

/-- The outcome with each value paired with the proof that it is the value: for recursion
on a value a computation returned. -/
def attach : (x : Outcome ε α) → Outcome ε {a // x = ok a}
  | ok a => ok ⟨a, rfl⟩
  | err e => err e
  | panic => panic

/-- Binding the attached outcome is binding the outcome, when the continuation does not look at
the proof. -/
theorem attach_bind_eq_bind {x : Outcome ε α} {f : {a // x = ok a} → Outcome ε β} {g : α → Outcome ε β}
    (h : ∀ a (ha : x = ok a), f ⟨a, ha⟩ = g a) : x.attach >>= f = x >>= g := by
  cases x with
  | ok a => exact h a rfl
  | err e => rfl
  | panic => rfl

/-- `&l[b..e]`, panicking unless `b ≤ e ≤ l.len()`. -/
def slice (l : List α) (b e : Nat) : Outcome ε (List α) :=
  if b ≤ e ∧ e ≤ l.length then ok ((l.drop b).take (e - b)) else panic

@[simp] theorem slice_of_le {l : List α} {b e : Nat} (hbe : b ≤ e) (he : e ≤ l.length) :
    (slice l b e : Outcome ε (List α)) = ok ((l.drop b).take (e - b)) := if_pos ⟨hbe, he⟩

theorem slice_of_length_lt {l : List α} {b e : Nat} (he : l.length < e) :
    (slice l b e : Outcome ε (List α)) = panic := if_neg fun h ↦ absurd h.2 (Nat.not_le.mpr he)

theorem slice_of_lt {l : List α} {b e : Nat} (hbe : e < b) :
    (slice l b e : Outcome ε (List α)) = panic := if_neg fun h ↦ absurd h.1 (Nat.not_le.mpr hbe)

/-! ## Checked machine arithmetic -/

/-- `a + b` on `w`-bit unsigned integers, panicking on overflow. -/
def checkedAdd (w a b : Nat) : Outcome ε Nat :=
  if a + b < 2 ^ w then ok (a + b) else panic

/-- `a - b` on unsigned integers, panicking on underflow. -/
def checkedSub (a b : Nat) : Outcome ε Nat :=
  if b ≤ a then ok (a - b) else panic

/-- `a * b` on `w`-bit unsigned integers, panicking on overflow. -/
def checkedMul (w a b : Nat) : Outcome ε Nat :=
  if a * b < 2 ^ w then ok (a * b) else panic

/-- `a.pow(b)` on `w`-bit unsigned integers, panicking on overflow.  For `a ≥ 1` the partial
products increase, so an intermediate product overflows exactly when the result does. -/
def checkedPow (w a b : Nat) : Outcome ε Nat :=
  if a ^ b < 2 ^ w then ok (a ^ b) else panic

/-- `a / b`, panicking on division by zero. -/
def checkedDiv (a b : Nat) : Outcome ε Nat :=
  if b = 0 then panic else ok (a / b)

@[simp] theorem checkedAdd_of_lt {w a b : Nat} (h : a + b < 2 ^ w) :
    (checkedAdd w a b : Outcome ε Nat) = ok (a + b) := if_pos h

@[simp] theorem checkedAdd_of_le {w a b : Nat} (h : 2 ^ w ≤ a + b) :
    (checkedAdd w a b : Outcome ε Nat) = panic := if_neg (Nat.not_lt.mpr h)

@[simp] theorem checkedSub_of_le {a b : Nat} (h : b ≤ a) :
    (checkedSub a b : Outcome ε Nat) = ok (a - b) := if_pos h

@[simp] theorem checkedMul_of_lt {w a b : Nat} (h : a * b < 2 ^ w) :
    (checkedMul w a b : Outcome ε Nat) = ok (a * b) := if_pos h

@[simp] theorem checkedMul_of_le {w a b : Nat} (h : 2 ^ w ≤ a * b) :
    (checkedMul w a b : Outcome ε Nat) = panic := if_neg (Nat.not_lt.mpr h)

@[simp] theorem checkedPow_of_lt {w a b : Nat} (h : a ^ b < 2 ^ w) :
    (checkedPow w a b : Outcome ε Nat) = ok (a ^ b) := if_pos h

/-- `a.checked_add(b).ok_or(e)?` on `w`-bit unsigned integers: overflow is the error `e`. -/
def checkedAddOr (w a b : Nat) (e : ε) : Outcome ε Nat :=
  if a + b < 2 ^ w then ok (a + b) else err e

theorem checkedAddOr_eq_ok {w a b c : Nat} {e : ε} :
    checkedAddOr w a b e = ok c ↔ a + b < 2 ^ w ∧ c = a + b := by
  unfold checkedAddOr
  split_ifs with h <;> simp [h, eq_comm]

theorem checkedAddOr_ne_panic (w a b : Nat) (e : ε) : checkedAddOr w a b e ≠ panic := by
  unfold checkedAddOr
  split_ifs <;> simp

theorem checkedAdd_eq_ok {w a b c : Nat} :
    (checkedAdd w a b : Outcome ε Nat) = ok c ↔ a + b < 2 ^ w ∧ c = a + b := by
  unfold checkedAdd
  split_ifs with h <;> simp [h, eq_comm]

theorem checkedSub_eq_ok {a b c : Nat} :
    (checkedSub a b : Outcome ε Nat) = ok c ↔ b ≤ a ∧ c = a - b := by
  unfold checkedSub
  split_ifs with h <;> simp [h, eq_comm]

theorem checkedMul_eq_ok {w a b c : Nat} :
    (checkedMul w a b : Outcome ε Nat) = ok c ↔ a * b < 2 ^ w ∧ c = a * b := by
  unfold checkedMul
  split_ifs with h <;> simp [h, eq_comm]

theorem checkedDiv_eq_ok {a b c : Nat} :
    (checkedDiv a b : Outcome ε Nat) = ok c ↔ 0 < b ∧ c = a / b := by
  unfold checkedDiv
  split_ifs with h <;> simp [h, eq_comm, Nat.pos_iff_ne_zero]

@[simp] theorem checkedDiv_of_pos {a b : Nat} (h : 0 < b) :
    (checkedDiv a b : Outcome ε Nat) = ok (a / b) := if_neg (Nat.pos_iff_ne_zero.mp h)

end Outcome

/-! ## Code that only fails with an error

A function whose only failure is an error value is modelled in `Except`, whose `bind` is `?`. -/

namespace Except

variable {ε α β : Type}

@[simp] theorem ok_bind {a : α} {f : α → Except ε β} : (Except.ok a >>= f) = f a := rfl

@[simp] theorem error_bind {e : ε} {f : α → Except ε β} : (Except.error e >>= f) = .error e := rfl

/-- The inversion rule of `?` on `Except`. -/
theorem bind_eq_ok {x : Except ε α} {f : α → Except ε β} {b : β} :
    x >>= f = .ok b ↔ ∃ a, x = .ok a ∧ f a = .ok b := by
  cases x with
  | error e => exact ⟨fun h ↦ (nomatch h), fun ⟨_, ha, _⟩ ↦ (nomatch ha)⟩
  | ok a => exact ⟨fun h ↦ ⟨a, rfl, h⟩, fun ⟨_, ha, hb⟩ ↦ by cases ha; exact hb⟩

end Except

end Virtualization
