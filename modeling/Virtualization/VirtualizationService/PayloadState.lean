import Virtualization.Lib.Transition
import Virtualization.Lib.Sorted
import Mathlib.Order.Basic
import Mathlib.Data.Nat.Basic
import Mathlib.Data.List.Basic

/-!
# The payload state and its callbacks

The guest reports its payload's progress to `IVirtualMachineService` through `notifyPayloadStarted`,
`notifyPayloadReady`, `notifyPayloadFinished` and `notifyError`.  Each call runs on a binder thread
of its own.  It looks the VM up with `self.state.lock().unwrap().get_vm(cid)` in the scrutinee of an
`if let`, moves the VM's `PayloadState` forward with `update_payload_state`, and calls every
registered callback.  The guard on `State` is a temporary of that scrutinee, and in the 2018
edition such a temporary lives to the end of the whole `if let`: the call holds the lock on `State`
from the lookup to the last callback.  `update_payload_state` takes the VM's own lock on the
payload state, and only a strictly later state replaces the current one.

The model is the service as one VM's notifications see it.  A `System` holds the payload state,
the call that holds the lock on `State`, the calls in flight with where each one is, and the
registrations of callbacks with what each has received.  An `Event` is one atomic step of one call
or of a client: a new call, taking the lock and looking the VM up, the update, and the delivery
to every callback under the callbacks' own lock.  Every interleaving of any number of calls is a
run of `step`s.

`Invariant` is what every reachable system satisfies (`inv_of_reachable`): only the holder of the lock
is between its lookup and its return, a call that updated the state set the current state, and
every registration has received notifications of strictly increasing states.  The payload state
never decreases along a run (`payloadState_le_of_run`).  The callbacks are a `Vec`, so a callback
registered twice has two registrations and receives each notification twice
(`received_registered_twice`).
-/

namespace Virtualization.VirtualizationService

open Transition

/-! ## `PayloadState` and `update_payload_state` -/

/-- `PayloadState`; the variants are in the order of the payload's lifecycle. -/
inductive PayloadState where
  | starting
  | started
  | ready
  | finished
deriving DecidableEq, Repr

namespace PayloadState

/-- The place of the variant in the declaration, which `#[derive(PartialOrd, Ord)]` compares. -/
def toNat : PayloadState → Nat
  | starting => 0
  | started => 1
  | ready => 2
  | finished => 3

theorem toNat_injective : Function.Injective toNat := by
  intro a b h
  cases a <;> cases b <;> first | rfl | cases h

instance : LinearOrder PayloadState := LinearOrder.lift' toNat toNat_injective

end PayloadState

/-- The `anyhow::Error` of `update_payload_state`:
"Invalid payload state transition from {:?} to {:?}". -/
structure InvalidTransition where
  current : PayloadState
  newState : PayloadState
deriving DecidableEq, Repr

/-- `VmInstance::update_payload_state`, on the state behind its lock. -/
def updatePayloadState (current newState : PayloadState) : Except InvalidTransition PayloadState :=
  if newState > current then .ok newState else .error ⟨current, newState⟩

theorem updatePayloadState_eq_ok {current newState st : PayloadState} :
    updatePayloadState current newState = .ok st ↔ current < newState ∧ st = newState := by
  unfold updatePayloadState
  split
  · rename_i hlt
    exact ⟨fun h ↦ ⟨hlt, (Except.ok.inj h).symm⟩, fun h ↦ by rw [h.2]⟩
  · rename_i hle
    exact ⟨fun h ↦ (nomatch h), fun h ↦ absurd h.1 hle⟩

/-! ## Notifications and calls -/

/-- A notification of the guest, and the callback method it is passed on to. -/
inductive Notification where
  /-- `notifyPayloadStarted`, passed on as `onPayloadStarted`. -/
  | payloadStarted
  /-- `notifyPayloadReady`, passed on as `onPayloadReady`. -/
  | payloadReady
  /-- `notifyPayloadFinished(exit_code)`, passed on as `onPayloadFinished`. -/
  | payloadFinished (exitCode : Int)
  /-- `notifyError(error_code, message)`, passed on as `onError`. -/
  | error (errorCode : Int) (message : String)
deriving DecidableEq, Repr

/-- The state a notification moves the payload to: an error finishes it. -/
def Notification.newState : Notification → PayloadState
  | .payloadStarted => .started
  | .payloadReady => .ready
  | .payloadFinished _ => .finished
  | .error _ _ => .finished

/-- The binder exceptions of the notify calls. -/
inductive ServiceError where
  /-- `ILLEGAL_STATE`, with the error of `update_payload_state`. -/
  | illegalState (e : InvalidTransition)
  /-- `SERVICE_SPECIFIC`: "cannot find a VM with CID {}". -/
  | unknownCid
deriving DecidableEq, Repr

/-- Where a notify call is. -/
inductive Phase where
  /-- The call waits for the lock on `State`. -/
  | waiting (n : Notification)
  /-- The call holds the lock and found the VM; `update_payload_state` is next. -/
  | found (n : Notification)
  /-- The state moved forward; the callbacks are next, still under the lock. -/
  | updated (n : Notification)
  /-- The call returned, and released the lock. -/
  | returned (r : Except ServiceError Unit)
deriving DecidableEq, Repr

/-- The phases of a call that holds the lock on `State`. -/
def Phase.holdsLock : Phase → Bool
  | .found _ => true
  | .updated _ => true
  | _ => false

/-- A callback in the `Vec` of `VirtualMachineCallbacks`, with the notifications it received. -/
structure Registration where
  callback : Nat
  received : List Notification
deriving DecidableEq, Repr

/-- The service as the notifications of one VM see it. -/
structure System where
  payloadState : PayloadState
  /-- The call that holds the lock on `State`, by its place in `calls`. -/
  holder : Option Nat
  calls : List Phase
  callbacks : List Registration
  /-- Whether `get_vm` still finds the VM: a strong reference to it is left. -/
  vmAlive : Bool
deriving DecidableEq, Repr

/-- One atomic step of a notify call or of a client. -/
inductive Event where
  /-- The guest makes a notify call. -/
  | call (n : Notification)
  /-- A client calls `registerCallback`, which pushes onto the callbacks under their lock. -/
  | registerCallback (callback : Nat)
  /-- A call takes the lock on `State` and looks the VM up. -/
  | lock (t : Nat)
  /-- A call runs `update_payload_state`. -/
  | update (t : Nat)
  /-- A call runs `notify_*` on the callbacks, and returns. -/
  | deliver (t : Nat)
  /-- The last strong reference to the VM is dropped. -/
  | dropVm

namespace System

/-- A new VM: its payload is starting, and nothing is registered. -/
def init : System := ⟨.starting, none, [], [], true⟩

/-- One step, when the call or the client can take it. -/
def step (s : System) : Event → Option System
  | .call n => some { s with calls := s.calls ++ [.waiting n] }
  | .registerCallback c => some { s with callbacks := s.callbacks ++ [⟨c, []⟩] }
  | .lock t =>
    match s.calls[t]?, s.holder with
    | some (.waiting n), none =>
      if s.vmAlive then some { s with holder := some t, calls := s.calls.set t (.found n) }
      -- the `else` branch runs under the lock too, and returns at once
      else some { s with calls := s.calls.set t (.returned (.error .unknownCid)) }
    | _, _ => none
  | .update t =>
    match s.calls[t]? with
    | some (.found n) =>
      match updatePayloadState s.payloadState n.newState with
      | .ok st => some { s with payloadState := st, calls := s.calls.set t (.updated n) }
      -- `?` returns the error, and drops the guard on `State`
      | .error e =>
        some { s with holder := none, calls := s.calls.set t (.returned (.error (.illegalState e))) }
    | _ => none
  | .deliver t =>
    match s.calls[t]? with
    | some (.updated n) =>
      some { s with holder := none, calls := s.calls.set t (.returned (.ok ())),
                    callbacks := s.callbacks.map fun r ↦ ⟨r.callback, r.received ++ [n]⟩ }
    | _ => none
  | .dropVm => some { s with vmAlive := false }

/-- What a callback receives over all its registrations. -/
def received (s : System) (callback : Nat) : List Notification :=
  (s.callbacks.filter (·.callback = callback)).flatMap Registration.received

/-! ## One step -/

variable {s s' : System}

/-- The payload state never moves back. -/
theorem payloadState_le_of_step {e : Event} (h : step s e = some s') :
    s.payloadState ≤ s'.payloadState := by
  cases e with
  | update t =>
    simp only [step] at h
    split at h
    · split at h
      · rename_i st hst
        cases h
        obtain ⟨hlt, rfl⟩ := updatePayloadState_eq_ok.1 hst
        exact le_of_lt hlt
      · cases h
        exact le_refl _
    · cases h
  | lock t =>
    simp only [step] at h
    split at h
    · split at h <;> cases h <;> exact le_refl _
    · cases h
  | deliver t =>
    simp only [step] at h
    split at h
    · cases h
      exact le_refl _
    · cases h
  | call n =>
    cases h
    exact le_refl _
  | registerCallback c =>
    cases h
    exact le_refl _
  | dropVm =>
    cases h
    exact le_refl _

/-- The payload state does not decrease along a run, from any state. -/
theorem payloadState_le_of_run {events : List Event} (h : run step s events = some s') :
    s.payloadState ≤ s'.payloadState :=
  le_of_run (fun _ _ _ ↦ payloadState_le_of_step) h

/-! ## The invariant -/

theorem getElem?_set_eq_some {β : Type} {l : List β} {t t' : Nat} {p q : β}
    (h : (l.set t q)[t']? = some p) : (t' = t ∧ p = q) ∨ (t' ≠ t ∧ l[t']? = some p) := by
  rw [List.getElem?_set] at h
  by_cases ht : t = t'
  · rw [if_pos ht] at h
    split at h
    · exact .inl ⟨ht.symm, (Option.some.inj h).symm⟩
    · cases h
  · rw [if_neg ht] at h
    exact .inr ⟨Ne.symm ht, h⟩

theorem getElem?_concat_eq_some {β : Type} {l : List β} {t : Nat} {p q : β}
    (h : (l ++ [q])[t]? = some p) : l[t]? = some p ∨ p = q := by
  rw [List.getElem?_append] at h
  split at h
  · exact .inl h
  · rename_i ht
    rw [List.getElem?_singleton] at h
    split at h
    · exact .inr (Option.some.inj h).symm
    · cases h

/-- What every reachable system satisfies. -/
structure Invariant (s : System) : Prop where
  /-- A call between its lookup and its return holds the lock. -/
  holder_of_holdsLock : ∀ (t : Nat) (p : Phase), s.calls[t]? = some p → p.holdsLock → s.holder = some t
  /-- A call that updated the state set the current state, above all that was delivered. -/
  updated : ∀ (t : Nat) (n : Notification), s.calls[t]? = some (.updated n) →
    n.newState = s.payloadState ∧ ∀ r ∈ s.callbacks, ∀ m ∈ r.received, m.newState < s.payloadState
  received_le : ∀ r ∈ s.callbacks, ∀ m ∈ r.received, m.newState ≤ s.payloadState
  /-- Every registration received notifications of strictly increasing states. -/
  ordered : ∀ r ∈ s.callbacks, (r.received.map Notification.newState).Pairwise (· < ·)

namespace Invariant

theorem init : Invariant System.init where
  holder_of_holdsLock := by simp [System.init]
  updated := by simp [System.init]
  received_le := by simp [System.init]
  ordered := by simp [System.init]

/-- Once the lock is free, a system needs only the facts about what was delivered. -/
theorem of_free (hfree : ∀ (t : Nat) (p : Phase), s.calls[t]? = some p → p.holdsLock = false)
    (hle : ∀ r ∈ s.callbacks, ∀ m ∈ r.received, m.newState ≤ s.payloadState)
    (hordered : ∀ r ∈ s.callbacks, (r.received.map Notification.newState).Pairwise (· < ·)) :
    Invariant s where
  holder_of_holdsLock t p hp hlock := by
    rw [hfree t p hp] at hlock
    cases hlock
  updated t n hp := nomatch hfree t _ hp
  received_le := hle
  ordered := hordered

/-- Setting the phase of the holder, or of any call while the lock is free, to a phase without the
lock leaves no call holding it. -/
theorem released (h : Invariant s) {t : Nat} (hheld : s.holder = none ∨ s.holder = some t) {q : Phase}
    (hq : q.holdsLock = false) : ∀ (t' : Nat) (p : Phase), (s.calls.set t q)[t']? = some p → p.holdsLock = false := by
  intro t' p hp
  rcases getElem?_set_eq_some hp with ⟨-, rfl⟩ | ⟨hne, hp⟩
  · exact hq
  · cases hlock : p.holdsLock with
    | false => rfl
    | true =>
      have hholder := h.holder_of_holdsLock t' p hp hlock
      rcases hheld with hnone | hsome
      · rw [hnone] at hholder
        cases hholder
      · rw [hsome] at hholder
        exact absurd (Option.some.inj hholder).symm hne

theorem call (h : Invariant s) (n : Notification) : Invariant { s with calls := s.calls ++ [.waiting n] } where
  holder_of_holdsLock t p hp hlock := by
    rcases getElem?_concat_eq_some hp with hp | rfl
    · exact h.holder_of_holdsLock t p hp hlock
    · cases hlock
  updated t m hp := by
    rcases getElem?_concat_eq_some hp with hp | hq
    · exact h.updated t m hp
    · cases hq
  received_le := h.received_le
  ordered := h.ordered

theorem registerCallback (h : Invariant s) (c : Nat) :
    Invariant { s with callbacks := s.callbacks ++ [⟨c, []⟩] } where
  holder_of_holdsLock := h.holder_of_holdsLock
  updated t n hp := by
    obtain ⟨hnew, hlt⟩ := h.updated t n hp
    refine ⟨hnew, fun r hr m hm ↦ ?_⟩
    rcases List.mem_append.1 hr with hr | hr
    · exact hlt r hr m hm
    · rw [List.mem_singleton.1 hr] at hm
      cases hm
  received_le r hr m hm := by
    rcases List.mem_append.1 hr with hr | hr
    · exact h.received_le r hr m hm
    · rw [List.mem_singleton.1 hr] at hm
      cases hm
  ordered r hr := by
    rcases List.mem_append.1 hr with hr | hr
    · exact h.ordered r hr
    · rw [List.mem_singleton.1 hr]
      exact List.Pairwise.nil

/-- A call takes the free lock and finds the VM. -/
theorem lock (h : Invariant s) {t : Nat} (hfree : s.holder = none) (n : Notification) :
    Invariant { s with holder := some t, calls := s.calls.set t (.found n) } where
  holder_of_holdsLock t' p hp hlock := by
    rcases getElem?_set_eq_some hp with ⟨rfl, -⟩ | ⟨-, hp⟩
    · rfl
    · have hholder := h.holder_of_holdsLock t' p hp hlock
      rw [hfree] at hholder
      cases hholder
  updated t' m hp := by
    rcases getElem?_set_eq_some hp with ⟨-, hq⟩ | ⟨-, hp⟩
    · cases hq
    · have hholder := h.holder_of_holdsLock t' _ hp rfl
      rw [hfree] at hholder
      cases hholder
  received_le := h.received_le
  ordered := h.ordered

/-- The holder moves the state forward to its notification's state. -/
theorem update (h : Invariant s) {t : Nat} {n : Notification} (hfound : s.calls[t]? = some (.found n))
    (hlt : s.payloadState < n.newState) :
    Invariant { s with payloadState := n.newState, calls := s.calls.set t (.updated n) } where
  holder_of_holdsLock t' p hp hlock := by
    rcases getElem?_set_eq_some hp with ⟨rfl, -⟩ | ⟨hne, hp⟩
    · exact h.holder_of_holdsLock t' _ hfound rfl
    · have hholder := h.holder_of_holdsLock t' p hp hlock
      rw [h.holder_of_holdsLock t _ hfound rfl] at hholder
      exact absurd (Option.some.inj hholder).symm hne
  updated t' m hp := by
    rcases getElem?_set_eq_some hp with ⟨-, hq⟩ | ⟨hne, hp⟩
    · cases hq
      exact ⟨rfl, fun r hr m' hm' ↦ lt_of_le_of_lt (h.received_le r hr m' hm') hlt⟩
    · have hholder := h.holder_of_holdsLock t' _ hp rfl
      rw [h.holder_of_holdsLock t _ hfound rfl] at hholder
      exact absurd (Option.some.inj hholder).symm hne
  received_le r hr m hm := le_of_lt (lt_of_le_of_lt (h.received_le r hr m hm) hlt)
  ordered := h.ordered

/-- Appending the holder's notification keeps every registration in increasing order. -/
theorem deliver (h : Invariant s) {t : Nat} {n : Notification} (hupdated : s.calls[t]? = some (.updated n)) :
    Invariant { s with holder := none, calls := s.calls.set t (.returned (.ok ())),
                       callbacks := s.callbacks.map fun r ↦ ⟨r.callback, r.received ++ [n]⟩ } := by
  obtain ⟨hnew, hlt⟩ := h.updated t n hupdated
  have hheld : s.holder = none ∨ s.holder = some t :=
    .inr (h.holder_of_holdsLock t _ hupdated rfl)
  refine of_free (h.released hheld rfl) ?_ ?_
  · intro r' hr' m hm
    obtain ⟨r, hr, rfl⟩ := List.mem_map.1 hr'
    rcases List.mem_append.1 hm with hm | hm
    · exact h.received_le r hr m hm
    · rw [List.mem_singleton.1 hm, hnew]
  · intro r' hr'
    obtain ⟨r, hr, rfl⟩ := List.mem_map.1 hr'
    rw [List.map_append, List.pairwise_append]
    refine ⟨h.ordered r hr, List.pairwise_singleton _ _, ?_⟩
    intro a ha b hb
    obtain ⟨m, hm, rfl⟩ := List.mem_map.1 ha
    rw [List.mem_singleton.1 hb, hnew]
    exact hlt r hr m hm

end Invariant

/-- Every step keeps the invariant. -/
theorem inv_step {e : Event} (h : Invariant s) (hs : step s e = some s') : Invariant s' := by
  cases e with
  | call n =>
    cases hs
    exact h.call n
  | registerCallback c =>
    cases hs
    exact h.registerCallback c
  | lock t =>
    simp only [step] at hs
    split at hs
    · rename_i n hwaiting hfree
      split at hs
      · cases hs
        exact h.lock hfree n
      · cases hs
        exact Invariant.of_free (h.released (.inl hfree) rfl) h.received_le h.ordered
    · cases hs
  | update t =>
    simp only [step] at hs
    split at hs
    · rename_i n hfound
      split at hs
      · rename_i st hst
        cases hs
        obtain ⟨hlt, rfl⟩ := updatePayloadState_eq_ok.1 hst
        exact h.update hfound hlt
      · cases hs
        exact Invariant.of_free (h.released (.inr (h.holder_of_holdsLock t _ hfound rfl)) rfl)
          h.received_le h.ordered
    · cases hs
  | deliver t =>
    simp only [step] at hs
    split at hs
    · rename_i n hupdated
      cases hs
      exact h.deliver hupdated
    · cases hs
  | dropVm =>
    cases hs
    exact ⟨h.holder_of_holdsLock, h.updated, h.received_le, h.ordered⟩

theorem inv_of_reachable (h : Reachable step init s) : Invariant s :=
  h.inv Invariant.init fun _ _ _ hinv hs ↦ inv_step hinv hs

/-! ## The notifications each registration receives -/

/-- However the calls interleave, along every run from a reachable system the payload state does
not decrease, and every registration of a callback receives at most one notification of each
state, in strictly increasing order of states: `onPayloadStarted`, `onPayloadReady`, then one of
`onPayloadFinished` and `onError`, each at most once. -/
theorem notify_per_registration {s s' : System} {events : List Event}
    (hs : Reachable step init s) (hrun : run step s events = some s') :
    s.payloadState ≤ s'.payloadState ∧
      ∀ r ∈ s'.callbacks, (∀ st, r.received.countP (fun m ↦ m.newState = st) ≤ 1) ∧
        (r.received.map Notification.newState).Pairwise (· < ·) := by
  have hinv := inv_of_reachable (hs.run hrun)
  refine ⟨payloadState_le_of_run hrun, fun r hr ↦ ⟨fun st ↦ ?_, hinv.ordered r hr⟩⟩
  exact countP_key_le_one (hinv.ordered r hr) st

/-- One callback, and the guest reports each state in turn, the last two calls waiting on each
other for the lock. -/
theorem notify_per_registration_lifecycle :
    ∃ s', run step init [.registerCallback 0, .call .payloadStarted, .lock 0, .update 0,
        .deliver 0, .call .payloadReady, .call (.payloadFinished 0), .lock 1, .update 1,
        .deliver 1, .lock 2, .update 2, .deliver 2] = some s' ∧
      s'.callbacks = [⟨0, [.payloadStarted, .payloadReady, .payloadFinished 0]⟩] ∧
      init.payloadState ≤ s'.payloadState ∧
      ∀ r ∈ s'.callbacks, (∀ st, r.received.countP (fun m ↦ m.newState = st) ≤ 1) ∧
        (r.received.map Notification.newState).Pairwise (· < ·) :=
  ⟨_, rfl, rfl, @notify_per_registration init _ [.registerCallback 0, .call .payloadStarted,
    .lock 0, .update 0, .deliver 0, .call .payloadReady, .call (.payloadFinished 0), .lock 1,
    .update 1, .deliver 1, .lock 2, .update 2, .deliver 2] Reachable.init rfl⟩

/-- A callback registered twice receives `onPayloadReady` twice. -/
theorem received_registered_twice :
    ∃ s, run step init [.registerCallback 7, .registerCallback 7, .call .payloadReady, .lock 0,
        .update 0, .deliver 0] = some s ∧ received s 7 = [.payloadReady, .payloadReady] :=
  ⟨_, rfl, rfl⟩

end System

end Virtualization.VirtualizationService
