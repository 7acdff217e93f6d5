import Virtualization.Lib.Outcome
import Mathlib.Logic.Function.Basic

/-!
# `composd::instance_manager`: one CompOS instance at a time

`InstanceManager::start_instance` takes the lock on its `State` to run `mark_starting`, releases it
while `try_start_instance` boots the VM, and takes it again to run `mark_started` with the new
instance or `mark_stopped` after an error.  The `State` keeps a `Weak` reference to the instance
last started and a flag for a call in between.  Clients hold the `Arc<CompOsInstance>` they get
back, may clone it, and drop it; an instance is alive while its strong count is positive, and
once dead it stays dead.

The model is the whole of composd as far as the manager sees it: a `System` holds the `State`,
the calls that passed `mark_starting` and have not yet taken the lock again, and the strong
references to each instance, numbered in the order they are created.  A `step` is one atomic
action of one call or one client, and every interleaving of any number of calls is a run of
`step`s (`Reachable`).  A call whose `mark_starting` fails returns its error at once, and the
parameters that `start_current_instance` and `start_test_instance` pass to the VM do not matter
to the manager: `try_start_instance` succeeds or fails (`vmStarted`, `vmFailed`).

`Inv` is what every reachable system satisfies (`inv_of_reachable`): at most one call is in
between, and only while `is_starting` is set; at most one instance is alive, and it is the one
`running_instance` names or the one a call is about to return.  From it, `mark_starting` fails
exactly when a call is in between or the last started instance is alive, and neither
`mark_stopped` nor `mark_started` panics.
-/

namespace Virtualization.Composd

open Outcome

/-- The `anyhow::Error`s of `mark_starting`. -/
inductive InstanceManagerError where
  /-- "An instance is already starting" -/
  | alreadyStarting
  /-- "An instance is already running" -/
  | alreadyRunning
deriving DecidableEq, Repr

/-- `State`: the instance last started, as a `Weak` reference by its number, and whether a call
is starting one. -/
structure State where
  runningInstance : Option Nat
  isStarting : Bool
deriving DecidableEq, Repr

/-- `#[derive(Default)]`. -/
instance : Inhabited State := ⟨⟨none, false⟩⟩

/-- `State::mark_starting`, with `Weak::strong_count` of each instance. -/
def markStarting (strongCount : Nat → Nat) (s : State) : Outcome InstanceManagerError State := do
  if s.isStarting then err .alreadyStarting
  if let some weak := s.runningInstance then
    if strongCount weak ≠ 0 then err .alreadyRunning
  pure { s with runningInstance := none, isStarting := true }

/-- `State::mark_stopped`: "Tried to mark stopped when not starting" is a panic. -/
def markStopped (s : State) : Outcome Empty State :=
  if !s.isStarting || s.runningInstance.isSome then panic
  else pure { s with isStarting := false }

/-- `State::mark_started`, which returns `Ok` or panics. -/
def markStarted (inst : Nat) (s : State) : Outcome Empty State := do
  -- "Tried to mark started when not starting"
  if !s.isStarting then panic
  -- "Attempted to mark started when already started"
  if s.runningInstance.isSome then panic
  pure { s with isStarting := false, runningInstance := some inst }

theorem markStarting_eq_ok {strongCount : Nat → Nat} {s s' : State} :
    markStarting strongCount s = ok s' ↔
      s.isStarting = false ∧ (∀ w, s.runningInstance = some w → strongCount w = 0) ∧
        s' = ⟨none, true⟩ := by
  rcases s with ⟨_ | weak, _ | _⟩
  · simp [markStarting, eq_comm]
  · simp [markStarting]
  · by_cases hw : strongCount weak = 0 <;> simp [markStarting, hw, eq_comm]
  · simp [markStarting]

/-- `mark_starting` fails when a call is starting or the recorded instance is alive. -/
theorem markStarting_eq_err {strongCount : Nat → Nat} {s : State} :
    (∃ e, markStarting strongCount s = err e) ↔
      s.isStarting = true ∨ ∃ w, s.runningInstance = some w ∧ strongCount w ≠ 0 := by
  rcases s with ⟨_ | weak, _ | _⟩
  · simp [markStarting]
  · simp [markStarting]
  · by_cases hw : strongCount weak = 0 <;> simp [markStarting, hw]
  · simp [markStarting]

theorem markStarting_ne_panic (strongCount : Nat → Nat) (s : State) :
    markStarting strongCount s ≠ panic := by
  rcases s with ⟨_ | weak, _ | _⟩
  · simp [markStarting]
  · simp [markStarting]
  · by_cases hw : strongCount weak = 0 <;> simp [markStarting, hw]
  · simp [markStarting]

theorem markStopped_of_starting {s : State} (hs : s.isStarting = true)
    (hr : s.runningInstance = none) : markStopped s = ok { s with isStarting := false } := by
  simp [markStopped, hs, hr]

theorem markStarted_of_starting {s : State} (inst : Nat) (hs : s.isStarting = true)
    (hr : s.runningInstance = none) :
    markStarted inst s = ok { s with isStarting := false, runningInstance := some inst } := by
  simp [markStarted, hs, hr]

/-! ## composd -/

/-- Where a call of `start_instance` is after its `mark_starting` succeeded. -/
inductive Phase where
  /-- The lock is released, and `try_start_instance` boots the VM. -/
  | starting
  /-- `try_start_instance` returned the new instance, or `none` for its error. -/
  | attempted (inst : Option Nat)
deriving DecidableEq, Repr

/-- composd as its `InstanceManager` sees it. -/
structure System where
  state : State
  /-- The calls between a successful `mark_starting` and their second lock, in no order. -/
  calls : List Phase
  /-- The strong references clients hold to each instance. -/
  refs : Nat → Nat
  /-- The number of instances created; the next one is numbered `created`. -/
  created : Nat
  /-- The instance of the last `mark_started`. -/
  lastStarted : Option Nat

/-- `Weak::strong_count`: the clients' references, and the one a call holds from
`try_start_instance` until it returns. -/
def strongCount (sys : System) (i : Nat) : Nat :=
  sys.refs i + sys.calls.count (.attempted (some i))

/-- The atomic steps of the calls and of the clients. -/
inductive Action where
  /-- A client calls `start_current_instance` or `start_test_instance`, which runs
  `mark_starting` under the lock. -/
  | call
  /-- `try_start_instance` of a starting call returns a new instance. -/
  | vmStarted
  /-- `try_start_instance` of a starting call fails. -/
  | vmFailed
  /-- A call that attempted takes the lock again and runs `mark_started` or `mark_stopped`. -/
  | relock (inst : Option Nat)
  /-- A client clones a reference it holds. -/
  | clone (inst : Nat)
  /-- A client drops a reference it holds. -/
  | drop (inst : Nat)

/-- One step, when a call or a client can take it; a panic of the code is `panic`. -/
def step (sys : System) : Action → Option (Outcome Empty System)
  | .call =>
    match markStarting (strongCount sys) sys.state with
    | .ok state => some (.ok { sys with state, calls := .starting :: sys.calls })
    -- the call returns its error, and nothing changes
    | .err _ => some (.ok sys)
    | .panic => some .panic
  | .vmStarted =>
    if .starting ∈ sys.calls then
      some (.ok { sys with calls := .attempted (some sys.created) :: sys.calls.erase .starting,
                           created := sys.created + 1 })
    else none
  | .vmFailed =>
    if .starting ∈ sys.calls then
      some (.ok { sys with calls := .attempted none :: sys.calls.erase .starting })
    else none
  | .relock none =>
    if .attempted none ∈ sys.calls then
      some do
        let state ← markStopped sys.state
        pure { sys with state, calls := sys.calls.erase (.attempted none) }
    else none
  | .relock (some i) =>
    if .attempted (some i) ∈ sys.calls then
      -- the call returns its `Arc` to its client
      some do
        let state ← markStarted i sys.state
        pure { sys with state, calls := sys.calls.erase (.attempted (some i)),
                        refs := Function.update sys.refs i (sys.refs i + 1), lastStarted := some i }
    else none
  | .clone i =>
    if 0 < sys.refs i then some (.ok { sys with refs := Function.update sys.refs i (sys.refs i + 1) })
    else none
  | .drop i =>
    if 0 < sys.refs i then some (.ok { sys with refs := Function.update sys.refs i (sys.refs i - 1) })
    else none

/-- composd before any call: the default `State`. -/
def System.init : System := ⟨default, [], fun _ ↦ 0, 0, none⟩

/-- The systems some interleaving of calls and clients reaches without a panic. -/
inductive Reachable : System → Prop
  | init : Reachable System.init
  | step {sys sys' : System} {a : Action} : Reachable sys → step sys a = some (.ok sys') →
      Reachable sys'

/-! ## The invariant -/

@[simp] theorem strongCount_mk (state : State) (calls : List Phase) (refs : Nat → Nat)
    (created : Nat) (lastStarted : Option Nat) (i : Nat) :
    strongCount ⟨state, calls, refs, created, lastStarted⟩ i = refs i + calls.count (.attempted (some i)) :=
  rfl

/-- A list of at most one element holding `p` is `[p]`. -/
theorem eq_singleton_of_mem {α : Type} {l : List α} {p : α} (hl : l.length ≤ 1) (hp : p ∈ l) :
    l = [p] := by
  match l, hl, hp with
  | [q], _, hq => rw [List.mem_singleton.mp hq]

/-- What every reachable system satisfies. -/
structure Inv (sys : System) : Prop where
  calls_le_one : sys.calls.length ≤ 1
  isStarting_iff : sys.state.isStarting = true ↔ sys.calls ≠ []
  running_none : sys.state.isStarting = true → sys.state.runningInstance = none
  running_last : ∀ i, sys.state.runningInstance = some i → sys.lastStarted = some i
  last_lt : ∀ i, sys.lastStarted = some i → i < sys.created
  unborn : ∀ i, sys.created ≤ i → strongCount sys i = 0
  alive_unique : ∀ i j, 0 < strongCount sys i → 0 < strongCount sys j → i = j
  alive_held : ∀ i, 0 < strongCount sys i →
    sys.state.runningInstance = some i ∨ .attempted (some i) ∈ sys.calls
  dead_of_pending : .starting ∈ sys.calls ∨ .attempted none ∈ sys.calls →
    ∀ i, strongCount sys i = 0
  last_alive : ∀ i, sys.lastStarted = some i → 0 < strongCount sys i →
    sys.state.runningInstance = some i

namespace Inv

variable {sys : System}

theorem init : Inv System.init where
  calls_le_one := by simp [System.init]
  isStarting_iff := by simp [System.init, default]
  running_none := by simp [System.init, default]
  running_last := by simp [System.init, default]
  last_lt := by simp [System.init]
  unborn := by simp [System.init]
  alive_unique := by simp [System.init]
  alive_held := by simp [System.init]
  dead_of_pending := by simp [System.init]
  last_alive := by simp [System.init]

/-- The one call in between. -/
theorem calls_eq (h : Inv sys) {p : Phase} (hp : p ∈ sys.calls) : sys.calls = [p] :=
  eq_singleton_of_mem h.calls_le_one hp

theorem starting (h : Inv sys) {p : Phase} (hp : p ∈ sys.calls) : sys.state.isStarting = true :=
  h.isStarting_iff.mpr (List.ne_nil_of_mem hp)

theorem lt_created (h : Inv sys) {i : Nat} (hi : 0 < strongCount sys i) : i < sys.created := by
  by_contra hle
  have := h.unborn i (Nat.le_of_not_lt hle)
  omega

/-- When `mark_starting` succeeds, no instance is alive: the one recorded is dead, and no call is
in between to hold another. -/
theorem dead_of_markStarting (h : Inv sys) {state : State}
    (hm : markStarting (strongCount sys) sys.state = ok state) : ∀ i, strongCount sys i = 0 := by
  obtain ⟨hnot, hdead, -⟩ := markStarting_eq_ok.mp hm
  intro i
  by_contra halive
  rcases h.alive_held i (Nat.pos_of_ne_zero halive) with hrun | hcall
  · exact halive (hdead i hrun)
  · have := h.starting hcall
    simp [hnot] at this

theorem call (h : Inv sys) {state : State}
    (hm : markStarting (strongCount sys) sys.state = ok state) :
    Inv { sys with state, calls := .starting :: sys.calls } := by
  have hdead := h.dead_of_markStarting hm
  obtain ⟨hnot, -, rfl⟩ := markStarting_eq_ok.mp hm
  have hcalls : sys.calls = [] := by
    by_contra hne
    simp [h.isStarting_iff.mpr hne] at hnot
  have hcount : ∀ i,
      strongCount { sys with state := ⟨none, true⟩, calls := .starting :: sys.calls } i = 0 := by
    intro i
    simpa [strongCount, hcalls] using hdead i
  exact {
    calls_le_one := by simp [hcalls]
    isStarting_iff := by simp
    running_none := fun _ ↦ rfl
    running_last := by simp
    last_lt := h.last_lt
    unborn := fun i _ ↦ hcount i
    alive_unique := fun i _ hi ↦ by simp [hcount i] at hi
    alive_held := fun i hi ↦ by simp [hcount i] at hi
    dead_of_pending := fun _ ↦ hcount
    last_alive := fun i _ hi ↦ by simp [hcount i] at hi }

/-- The VM of the starting call boots: the new instance is the only one alive. -/
theorem vmStarted (h : Inv sys) (hs : .starting ∈ sys.calls) :
    Inv { sys with calls := .attempted (some sys.created) :: sys.calls.erase .starting,
                   created := sys.created + 1 } := by
  have hcalls := h.calls_eq hs
  have hstarting := h.starting hs
  have hrefs : ∀ i, sys.refs i = 0 := by
    intro i
    simpa [strongCount, hcalls] using h.dead_of_pending (.inl hs) i
  have hcount : ∀ i, strongCount
      { sys with calls := .attempted (some sys.created) :: sys.calls.erase .starting,
                 created := sys.created + 1 } i = if i = sys.created then 1 else 0 := by
    intro i
    by_cases hi : i = sys.created
    · simp [strongCount, hcalls, hrefs, hi]
    · simp [strongCount, hcalls, hrefs, hi, Ne.symm hi]
  have halive : ∀ i, 0 < strongCount
      { sys with calls := .attempted (some sys.created) :: sys.calls.erase .starting,
                 created := sys.created + 1 } i → i = sys.created := by
    intro i hi
    rw [hcount i] at hi
    by_contra hne
    simp [hne] at hi
  exact {
    calls_le_one := by simp [hcalls]
    isStarting_iff := by simp [hstarting]
    running_none := h.running_none
    running_last := h.running_last
    last_lt := fun i hi ↦ Nat.lt_succ_of_lt (h.last_lt i hi)
    unborn := fun i hi ↦ by
      have hne : i ≠ sys.created := by
        simp only at hi
        omega
      simp [hcount i, hne]
    alive_unique := fun i j hi hj ↦ (halive i hi).trans (halive j hj).symm
    alive_held := fun i hi ↦ .inr (by simp [halive i hi, hcalls])
    dead_of_pending := by simp [hcalls]
    last_alive := fun i hlast hi ↦ by
      have := h.last_lt i hlast
      have := halive i hi
      omega }

/-- The VM of the starting call fails to boot. -/
theorem vmFailed (h : Inv sys) (hs : .starting ∈ sys.calls) :
    Inv { sys with calls := .attempted none :: sys.calls.erase .starting } := by
  have hcalls := h.calls_eq hs
  have hstarting := h.starting hs
  have hcount : ∀ i,
      strongCount { sys with calls := .attempted none :: sys.calls.erase .starting } i = 0 := by
    intro i
    simpa [strongCount, hcalls] using h.dead_of_pending (.inl hs) i
  exact {
    calls_le_one := by simp [hcalls]
    isStarting_iff := by simp [hstarting]
    running_none := h.running_none
    running_last := h.running_last
    last_lt := h.last_lt
    unborn := fun i _ ↦ hcount i
    alive_unique := fun i _ hi ↦ by simp [hcount i] at hi
    alive_held := fun i hi ↦ by simp [hcount i] at hi
    dead_of_pending := fun _ ↦ hcount
    last_alive := fun i _ hi ↦ by simp [hcount i] at hi }

/-- A call whose VM failed runs `mark_stopped`. -/
theorem relockFailed (h : Inv sys) (hs : .attempted none ∈ sys.calls) :
    Inv { sys with state := { sys.state with isStarting := false },
                   calls := sys.calls.erase (.attempted none) } := by
  have hcalls := h.calls_eq hs
  have hrunning := h.running_none (h.starting hs)
  have hcount : ∀ i, strongCount
      { sys with state := { sys.state with isStarting := false },
                 calls := sys.calls.erase (.attempted none) } i = 0 := by
    intro i
    simpa [strongCount, hcalls] using h.dead_of_pending (.inr hs) i
  exact {
    calls_le_one := by simp [hcalls]
    isStarting_iff := by simp [hcalls]
    running_none := by simp
    running_last := by simp [hrunning]
    last_lt := h.last_lt
    unborn := fun i _ ↦ hcount i
    alive_unique := fun i _ hi ↦ by simp [hcount i] at hi
    alive_held := fun i hi ↦ by simp [hcount i] at hi
    dead_of_pending := fun _ ↦ hcount
    last_alive := fun i _ hi ↦ by simp [hcount i] at hi }

/-- A call whose VM booted runs `mark_started` and hands its reference to its client: no strong
count changes. -/
theorem relockStarted (h : Inv sys) {i : Nat} (hs : .attempted (some i) ∈ sys.calls) :
    Inv { sys with state := { sys.state with isStarting := false, runningInstance := some i },
                   calls := sys.calls.erase (.attempted (some i)),
                   refs := Function.update sys.refs i (sys.refs i + 1), lastStarted := some i } := by
  have hcalls := h.calls_eq hs
  have hrunning := h.running_none (h.starting hs)
  have hcount : ∀ j, strongCount
      { sys with state := { sys.state with isStarting := false, runningInstance := some i },
                 calls := sys.calls.erase (.attempted (some i)),
                 refs := Function.update sys.refs i (sys.refs i + 1), lastStarted := some i } j =
      strongCount sys j := by
    intro j
    by_cases hj : j = i
    · subst hj
      simp [strongCount, hcalls]
    · simp [strongCount, hcalls, Function.update_of_ne hj, Ne.symm hj]
  have hi : 0 < strongCount sys i := by simp [strongCount, hcalls]
  have halive : ∀ j, 0 < strongCount sys j → j = i := fun j hj ↦ h.alive_unique j i hj hi
  exact {
    calls_le_one := by simp [hcalls]
    isStarting_iff := by simp [hcalls]
    running_none := by simp
    running_last := by simp
    last_lt := fun j hj ↦ by
      cases hj
      exact h.lt_created hi
    unborn := fun j hj ↦ by rw [hcount j]; exact h.unborn j hj
    alive_unique := fun j k hj hk ↦ by
      rw [hcount] at hj hk
      exact h.alive_unique j k hj hk
    alive_held := fun j hj ↦ by
      rw [hcount] at hj
      simp [halive j hj]
    dead_of_pending := by simp [hcalls]
    last_alive := fun j hj _ ↦ by
      cases hj
      rfl }

/-- A client's clone or drop changes only the strong counts: the invariant holds while no dead
instance comes alive. -/
theorem of_refs (h : Inv sys) {refs : Nat → Nat}
    (halive : ∀ j, 0 < strongCount { sys with refs } j → 0 < strongCount sys j)
    (hdead : ∀ j, strongCount sys j = 0 → strongCount { sys with refs } j = 0) :
    Inv { sys with refs } := by
  exact {
    calls_le_one := h.calls_le_one
    isStarting_iff := h.isStarting_iff
    running_none := h.running_none
    running_last := h.running_last
    last_lt := h.last_lt
    unborn := fun j hj ↦ hdead j (h.unborn j hj)
    alive_unique := fun j k hj hk ↦ h.alive_unique j k (halive j hj) (halive k hk)
    alive_held := fun j hj ↦ h.alive_held j (halive j hj)
    dead_of_pending := fun hp j ↦ hdead j (h.dead_of_pending hp j)
    last_alive := fun j hj hk ↦ h.last_alive j hj (halive j hk) }

theorem clone (h : Inv sys) {i : Nat} (hi : 0 < sys.refs i) :
    Inv { sys with refs := Function.update sys.refs i (sys.refs i + 1) } := by
  have hcount : 0 < strongCount sys i := Nat.lt_of_lt_of_le hi (Nat.le_add_right _ _)
  apply h.of_refs
  · intro j hj
    by_cases hji : j = i
    · rwa [hji]
    · simpa [strongCount, Function.update_of_ne hji] using hj
  · intro j hj
    have hji : j ≠ i := fun hji ↦ by rw [hji] at hj; omega
    simpa [strongCount, Function.update_of_ne hji] using hj

theorem drop (h : Inv sys) {i : Nat} :
    Inv { sys with refs := Function.update sys.refs i (sys.refs i - 1) } := by
  have hle : ∀ j, strongCount { sys with refs := Function.update sys.refs i (sys.refs i - 1) } j ≤
      strongCount sys j := by
    intro j
    by_cases hji : j = i
    · subst hji
      simp [strongCount]
    · simp [strongCount, Function.update_of_ne hji]
  apply h.of_refs
  · intro j hj
    exact Nat.lt_of_lt_of_le hj (hle j)
  · intro j hj
    have := hle j
    omega

end Inv

/-- Every step keeps the invariant. -/
theorem inv_step {sys sys' : System} {a : Action} (h : Inv sys) (hs : step sys a = some (.ok sys')) :
    Inv sys' := by
  cases a with
  | call =>
    simp only [step] at hs
    split at hs
    · rename_i state hm
      cases hs
      exact h.call hm
    · cases hs
      exact h
    · cases hs
  | vmStarted =>
    simp only [step] at hs
    split at hs
    · rename_i hmem
      cases hs
      exact h.vmStarted hmem
    · cases hs
  | vmFailed =>
    simp only [step] at hs
    split at hs
    · rename_i hmem
      cases hs
      exact h.vmFailed hmem
    · cases hs
  | relock inst =>
    cases inst with
    | none =>
      simp only [step] at hs
      split at hs
      · rename_i hmem
        rw [markStopped_of_starting (h.starting hmem) (h.running_none (h.starting hmem)), ok_bind,
          pure_eq, Option.some.injEq, ok.injEq] at hs
        subst hs
        exact h.relockFailed hmem
      · cases hs
    | some i =>
      simp only [step] at hs
      split at hs
      · rename_i hmem
        rw [markStarted_of_starting i (h.starting hmem) (h.running_none (h.starting hmem)), ok_bind,
          pure_eq, Option.some.injEq, ok.injEq] at hs
        subst hs
        exact h.relockStarted hmem
      · cases hs
  | clone i =>
    simp only [step] at hs
    split at hs
    · rename_i hi
      cases hs
      exact h.clone hi
    · cases hs
  | drop i =>
    simp only [step] at hs
    split at hs
    · cases hs
      exact h.drop
    · cases hs

theorem inv_of_reachable {sys : System} (h : Reachable sys) : Inv sys := by
  induction h with
  | init => exact Inv.init
  | step _ hs ih => exact inv_step ih hs

/-! ## Safety -/

/-- Under the invariant, `mark_starting` fails exactly when a call is in between or the last
started instance is alive. -/
theorem Inv.markStarting_err_iff {sys : System} (h : Inv sys) :
    (∃ e, markStarting (strongCount sys) sys.state = err e) ↔
      sys.calls ≠ [] ∨ ∃ i, sys.lastStarted = some i ∧ 0 < strongCount sys i := by
  rw [markStarting_eq_err, h.isStarting_iff]
  constructor
  · rintro (hcalls | ⟨w, hrun, hw⟩)
    · exact .inl hcalls
    · exact .inr ⟨w, h.running_last w hrun, Nat.pos_of_ne_zero hw⟩
  · rintro (hcalls | ⟨i, hlast, hi⟩)
    · exact .inl hcalls
    · exact .inr ⟨i, h.last_alive i hlast hi, Nat.pos_iff_ne_zero.mp hi⟩

/-- Under the invariant no step panics: a call that takes the lock again finds `is_starting` set
and no instance recorded. -/
theorem Inv.step_ne_panic {sys : System} (h : Inv sys) (a : Action) : step sys a ≠ some .panic := by
  cases a with
  | call =>
    simp only [step]
    split
    · simp
    · simp
    · rename_i hm
      exact absurd hm (markStarting_ne_panic _ _)
  | relock inst =>
    cases inst with
    | none =>
      simp only [step]
      split
      · rename_i hmem
        rw [markStopped_of_starting (h.starting hmem) (h.running_none (h.starting hmem))]
        simp
      · simp
    | some i =>
      simp only [step]
      split
      · rename_i hmem
        rw [markStarted_of_starting i (h.starting hmem) (h.running_none (h.starting hmem))]
        simp
      · simp
  | vmStarted | vmFailed | clone _ | drop _ =>
    simp only [step]
    split <;> simp

theorem instanceManager_safe {sys : System} (h : Reachable sys) :
    (∀ i j, 0 < strongCount sys i → 0 < strongCount sys j → i = j) ∧
      ((∃ e, markStarting (strongCount sys) sys.state = err e) ↔
        sys.calls ≠ [] ∨ ∃ i, sys.lastStarted = some i ∧ 0 < strongCount sys i) ∧
      ∀ a, step sys a ≠ some .panic := by
  have hinv := inv_of_reachable h
  exact ⟨hinv.alive_unique, hinv.markStarting_err_iff, hinv.step_ne_panic⟩

/-- composd after one call started instance 0 and returned it to its client. -/
def startedSystem : System :=
  ⟨⟨some 0, false⟩, [], Function.update (fun _ ↦ 0) 0 1, 1, some 0⟩

theorem reachable_startedSystem : Reachable startedSystem := by
  have hcall : Reachable ⟨⟨none, true⟩, [.starting], fun _ ↦ 0, 0, none⟩ :=
    .step .init (show step System.init .call = _ from rfl)
  have hboot : Reachable ⟨⟨none, true⟩, [.attempted (some 0)], fun _ ↦ 0, 1, none⟩ :=
    .step hcall (show step _ .vmStarted = _ from rfl)
  exact .step hboot (show step _ (.relock (some 0)) = _ from rfl)

theorem instanceManager_safe_started :
    Reachable startedSystem ∧
      (∀ i j, 0 < strongCount startedSystem i → 0 < strongCount startedSystem j → i = j) ∧
      ((∃ e, markStarting (strongCount startedSystem) startedSystem.state = err e) ↔
        startedSystem.calls ≠ [] ∨
          ∃ i, startedSystem.lastStarted = some i ∧ 0 < strongCount startedSystem i) ∧
      ∀ a, step startedSystem a ≠ some .panic :=
  ⟨reachable_startedSystem, instanceManager_safe reachable_startedSystem⟩

end Virtualization.Composd
