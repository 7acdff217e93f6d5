import Virtualization.Lib.Outcome

/-!
# Calls that change a state and report a result

A Rust method on `&mut self` that returns a `Result` may have changed `self` before it fails: a
write that stops half way has still written what it wrote.  `Stateful σ ε α` is such a call on a
state `σ`: it returns its `Result` together with the state it left, or it panics.  `?` passes an
error on with the state reached, and a panic is never caught.

A computation that does not touch the state is lifted by `lift`; one step that changes the
state is `step`.  `bind_eq_ok` is the inversion rule of `?` that proofs peel a call with, and
`bind_of_ok` the rule that runs one.
-/

namespace Virtualization

/-- A call on the state `σ`: its `Result`, with the state after it, or a panic. -/
def Stateful (σ ε α : Type) : Type := σ → Outcome Empty (Except ε α × σ)

namespace Stateful

variable {σ ε α β : Type}

/-- Sequencing: an error stops the call with the state reached. -/
def bind (x : Stateful σ ε α) (f : α → Stateful σ ε β) : Stateful σ ε β := fun s ↦
  match x s with
  | .ok (.ok a, s') => f a s'
  | .ok (.error e, s') => .ok (.error e, s')
  | .panic => .panic

instance : Monad (Stateful σ ε) where
  pure a := fun s ↦ .ok (.ok a, s)
  bind := bind

/-- A computation that reads, fails or panics without changing the state. -/
def lift (x : Outcome ε α) : Stateful σ ε α := fun s ↦
  match x with
  | .ok a => .ok (.ok a, s)
  | .err e => .ok (.error e, s)
  | .panic => .panic

/-- One change of the state, which may fail after it changed the state. -/
def step (f : σ → Except ε α × σ) : Stateful σ ε α := fun s ↦ .ok (f s)

/-- The call with its error mapped, as `.map_err(f)?` or `.context(..)?` do. -/
def mapError {ε' : Type} (f : ε → ε') (x : Stateful σ ε α) : Stateful σ ε' α := fun s ↦
  match x s with
  | .ok (r, s') => .ok (r.mapError f, s')
  | .panic => .panic

/-- `.unwrap()` of the call's `Result`: an error panics. -/
def unwrap (x : Stateful σ ε α) (s : σ) : Outcome Empty (α × σ) :=
  match x s with
  | .ok (.ok a, s') => .ok (a, s')
  | .ok (.error _, _) => .panic
  | .err e => e.elim
  | .panic => .panic

/-- The state as it is. -/
def get : Stateful σ ε σ := fun s ↦ .ok (.ok s, s)

@[simp] theorem pure_apply (a : α) (s : σ) : (pure a : Stateful σ ε α) s = .ok (.ok a, s) := rfl

@[simp] theorem lift_ok (a : α) (s : σ) : (lift (.ok a) : Stateful σ ε α) s = .ok (.ok a, s) := rfl

@[simp] theorem lift_err (e : ε) (s : σ) : (lift (.err e) : Stateful σ ε α) s = .ok (.error e, s) :=
  rfl

@[simp] theorem lift_panic (s : σ) : (lift .panic : Stateful σ ε α) s = .panic := rfl

@[simp] theorem step_apply (f : σ → Except ε α × σ) (s : σ) : step f s = .ok (f s) := rfl

@[simp] theorem get_apply (s : σ) : (get : Stateful σ ε σ) s = .ok (.ok s, s) := rfl

/-- Running `?` on a call that returned. -/
theorem bind_of_ok {x : Stateful σ ε α} {f : α → Stateful σ ε β} {s s' : σ} {a : α}
    (h : x s = .ok (.ok a, s')) : (x >>= f) s = f a s' := by
  show bind x f s = _
  rw [bind, h]

/-- Running `?` on a call that failed: the error and the state it left. -/
theorem bind_of_error {x : Stateful σ ε α} {f : α → Stateful σ ε β} {s s' : σ} {e : ε}
    (h : x s = .ok (.error e, s')) : (x >>= f) s = .ok (.error e, s') := by
  show bind x f s = _
  rw [bind, h]

/-- The inversion rule for `?`: a sequence returns only if its first call did, and the rest
returned from the state it left. -/
theorem bind_eq_ok {x : Stateful σ ε α} {f : α → Stateful σ ε β} {s s'' : σ} {b : β} :
    (x >>= f) s = .ok (.ok b, s'') ↔ ∃ a s', x s = .ok (.ok a, s') ∧ f a s' = .ok (.ok b, s'') := by
  constructor
  · intro h
    show ∃ a s', x s = .ok (.ok a, s') ∧ f a s' = .ok (.ok b, s'')
    change bind x f s = _ at h
    unfold bind at h
    split at h
    · rename_i a s' hx
      exact ⟨a, s', hx, h⟩
    · cases h
    · cases h
  · rintro ⟨a, s', hx, hf⟩
    rw [bind_of_ok hx, hf]

/-- A lifted computation that returned leaves the state as it was. -/
theorem lift_eq_ok {x : Outcome ε α} {s s' : σ} {a : α} :
    (lift x : Stateful σ ε α) s = .ok (.ok a, s') ↔ x = .ok a ∧ s' = s := by
  cases x with
  | ok a' => simp [lift, eq_comm]
  | err e => simp [lift]
  | panic => simp [lift]

@[simp] theorem get_bind (f : σ → Stateful σ ε β) (s : σ) : (get >>= f) s = f s s := rfl

/-- The inversion rule for `?` on a lifted computation: it returned, and left the state. -/
theorem lift_bind_eq_ok {x : Outcome ε α} {f : α → Stateful σ ε β} {s s'' : σ} {b : β} :
    (lift x >>= f) s = .ok (.ok b, s'') ↔ ∃ a, x = .ok a ∧ f a s = .ok (.ok b, s'') := by
  rw [bind_eq_ok]
  constructor
  · rintro ⟨a, s', hx, hf⟩
    obtain ⟨rfl, rfl⟩ := lift_eq_ok.mp hx
    exact ⟨a, rfl, hf⟩
  · rintro ⟨a, rfl, hf⟩
    exact ⟨a, s, rfl, hf⟩

/-- A sequence does not panic when its first call does not, nor the rest from any state the first
call returns in. -/
theorem bind_ne_panic {x : Stateful σ ε α} {f : α → Stateful σ ε β} {s : σ} (hx : x s ≠ .panic)
    (hf : ∀ a s', x s = .ok (.ok a, s') → f a s' ≠ .panic) : (x >>= f) s ≠ .panic := by
  show bind x f s ≠ _
  unfold bind
  split
  · rename_i a s' hxs
    exact hf a s' hxs
  · simp
  · contradiction

theorem mapError_eq_ok {ε' : Type} {f : ε → ε'} {x : Stateful σ ε α} {s s' : σ} {a : α} :
    mapError f x s = .ok (.ok a, s') ↔ x s = .ok (.ok a, s') := by
  unfold mapError
  split
  · rename_i r s'' hx
    cases r <;> simp [hx, Except.mapError]
  · rename_i hx
    simp [hx]

/-- An unwrapped call returns only what the call returned. -/
theorem unwrap_eq_ok {x : Stateful σ ε α} {s s' : σ} {a : α} :
    unwrap x s = .ok (a, s') ↔ x s = .ok (.ok a, s') := by
  constructor
  · intro h
    unfold unwrap at h
    split at h
    · rename_i a' s'' hx
      cases h
      exact hx
    · cases h
    · rename_i e _
      exact e.elim
    · cases h
  · intro h
    rw [unwrap, h]

/-! ## Postconditions -/

/-- From `s` the call never panics, and every value `a` it returns in a state `s'` satisfies
`Q a s'`; an error is allowed.  The total-correctness triple of a call that may fail. -/
def Ensures (x : Stateful σ ε α) (s : σ) (Q : α → σ → Prop) : Prop :=
  match x s with
  | .ok (.ok a, s') => Q a s'
  | .ok (.error _, _) => True
  | .err e => e.elim
  | .panic => False

@[simp] theorem ensures_pure {a : α} {s : σ} {Q : α → σ → Prop} :
    (pure a : Stateful σ ε α).Ensures s Q ↔ Q a s := Iff.rfl

theorem Ensures.of_eq_ok {x : Stateful σ ε α} {s s' : σ} {Q : α → σ → Prop} {a : α}
    (h : x.Ensures s Q) (hx : x s = .ok (.ok a, s')) : Q a s' := by
  unfold Ensures at h
  rw [hx] at h
  exact h

theorem Ensures.mono {x : Stateful σ ε α} {s : σ} {P Q : α → σ → Prop} (h : x.Ensures s P)
    (hPQ : ∀ a s', P a s' → Q a s') : x.Ensures s Q := by
  unfold Ensures at h ⊢
  split at h
  · exact hPQ _ _ h
  · trivial
  · rename_i e _
    exact e.elim
  · exact h.elim

/-- The sequencing rule. -/
theorem Ensures.bind {x : Stateful σ ε α} {f : α → Stateful σ ε β} {s : σ} {P : α → σ → Prop}
    {Q : β → σ → Prop} (hx : x.Ensures s P) (hf : ∀ a s', P a s' → (f a).Ensures s' Q) :
    (x >>= f).Ensures s Q := by
  unfold Ensures at hx
  split at hx
  · rename_i a s' hxs
    have hrun : (x >>= f) s = f a s' := bind_of_ok hxs
    have hfa := hf a s' hx
    unfold Ensures at hfa ⊢
    rw [hrun]
    exact hfa
  · rename_i e s' hxs
    unfold Ensures
    rw [bind_of_error hxs]
    trivial
  · rename_i e _
    exact e.elim
  · exact hx.elim

/-- A lifted value is passed on in the state as it is. -/
@[simp] theorem lift_ok_bind (a : α) (f : α → Stateful σ ε β) : (lift (.ok a) >>= f) = f a := by
  funext s
  exact bind_of_ok (lift_ok a s)

@[simp] theorem pure_bind (a : α) (f : α → Stateful σ ε β) : (pure a >>= f) = f a :=
  lift_ok_bind a f

/-- A lifted computation ensures of the state it leaves what it ensures. -/
theorem ensures_lift {x : Outcome ε α} {s : σ} {Q : α → σ → Prop} (hx : x.Ensures fun a ↦ Q a s) :
    (lift x).Ensures s Q := by
  cases x with
  | ok a => exact hx
  | err e => trivial
  | panic => exact hx.elim

end Stateful

end Virtualization
