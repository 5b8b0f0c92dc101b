import Mathlib.Logic.Function.Basic
import Patrol.ProofKit.Reentry

/-! `StateMachine`: transitions with guards and actions, and callbacks on entering and leaving a
state.  `process` and `current` take the mutex, and `process` holds it while it calls the guard, the
action and the callbacks.  These may call `process` and `current`, but register nothing, so that the
transition that `process` refers to stays as it is. -/

namespace Patrol.Core

open ProofKit

namespace StateMachine

/-- A call of an operation that takes the mutex. -/
inductive Call (Event : Type)
  | process (ev : Event)
  | current

@[reducible] def Ret (State : Type) {Event : Type} : Call Event → Type
  | .process _ => Bool
  | .current => State

/-- Code outside of the machine. -/
abbrev Code (State Event Mem α : Type) := Prog Mem (@Ret State Event) α

/-- What a transition does; `target` is the state that it leads to. -/
structure Info (State Event Mem : Type) where
  target : State
  action : Option (State → Event → State → Code State Event Mem Unit) := none
  guard : Option (State → Event → Code State Event Mem Bool) := none

end StateMachine

/-- The machine.  Its maps have at most one entry for each key. -/
structure StateMachine (State Event Mem : Type) where
  cur : State
  trans : State × Event → Option (StateMachine.Info State Event Mem) := fun _ => none
  enterCb : State → Option (StateMachine.Code State Event Mem Unit) := fun _ => none
  exitCb : State → Option (StateMachine.Code State Event Mem Unit) := fun _ => none

namespace StateMachine

variable {State Event Mem : Type}

/-- The machine with its mutex, and the memory of the callbacks. -/
abbrev World (State Event Mem : Type) := Guarded (StateMachine State Event Mem) × Mem

section Registration

variable [DecidableEq State] [DecidableEq Event]

/-- An operation that registers a transition or a callback.  It does not take the mutex. -/
inductive Registration (State Event Mem : Type)
  | addTransition (src : State) (ev : Event) (info : Info State Event Mem)
  | onEnter (s : State) (cb : Option (Code State Event Mem Unit))
  | onExit (s : State) (cb : Option (Code State Event Mem Unit))

def register (s : StateMachine State Event Mem) :
    Registration State Event Mem → StateMachine State Event Mem
  | .addTransition src ev info =>
    { s with trans := Function.update s.trans (src, ev) (some info) }
  | .onEnter st cb => { s with enterCb := Function.update s.enterCb st cb }
  | .onExit st cb => { s with exitCb := Function.update s.exitCb st cb }

end Registration

/-- The code of a callback.  One that is not set is not called. -/
def codeOf (cb : Option (Code State Event Mem Unit)) : Code State Event Mem Unit :=
  cb.getD (.ret ())

/-- The code of the guard of a transition.  A transition without a guard is taken. -/
def Info.guardCode (t : Info State Event Mem) (src : State) (ev : Event) :
    Code State Event Mem Bool :=
  t.guard.elim (.ret true) fun g => g src ev

def Info.actionCode (t : Info State Event Mem) (src : State) (ev : Event) (dst : State) :
    Code State Event Mem Unit :=
  codeOf (t.action.map fun a => a src ev dst)

/-- What `process` does under the lock, given what a call of an operation does. -/
def processLocked (call : (c : Call Event) → World State Event Mem →
      Outcome (World State Event Mem) (Ret State c)) (ev : Event)
    (w : World State Event Mem) : Outcome (World State Event Mem) Bool :=
  match w.1.obj.trans (w.1.obj.cur, ev) with
  | none => .returned false w
  | some t =>
    ((t.guardCode w.1.obj.cur ev).run call w).bind fun ok w =>
      if !ok then .returned false w
      else
        let prev := w.1.obj.cur
        ((codeOf (w.1.obj.exitCb prev)).run call w).bind fun _ w =>
          let w := ({ w.1 with obj := { w.1.obj with cur := t.target } }, w.2)
          ((t.actionCode prev ev w.1.obj.cur).run call w).bind fun _ w =>
            ((codeOf (w.1.obj.enterCb w.1.obj.cur)).run call w).bind fun _ w =>
              .returned true w

/-- A call of an operation, and the calls that callbacks make in it.  Calls are followed as deep as
`fuel` says. -/
def exec : Nat → (c : Call Event) → World State Event Mem →
    Outcome (World State Event Mem) (Ret State c)
  | 0, _, w => .unfinished w
  | fuel + 1, .process ev, w => lockGuard (processLocked (exec fuel) ev) w
  | _ + 1, .current, w => lockGuard (fun w => .returned w.1.obj.cur w) w

/-- The callbacks of a transition, in order. -/
def transitionCode (s : StateMachine State Event Mem) (t : Info State Event Mem) (ev : Event) :
    Code State Event Mem Unit :=
  (codeOf (s.exitCb s.cur)).bind fun _ =>
    (t.actionCode s.cur ev t.target).bind fun _ => codeOf (s.enterCb t.target)

/-- The code that a call runs while it holds the mutex: of `process`, the guard of the transition
and, if it holds, the callbacks. -/
def callbacks (s : StateMachine State Event Mem) : Call Event → Code State Event Mem Unit
  | .current => .ret ()
  | .process ev =>
    match s.trans (s.cur, ev) with
    | none => .ret ()
    | some t =>
      (t.guardCode s.cur ev).bind fun ok => if ok then s.transitionCode t ev else .ret ()

/-- While the mutex is held, every call deadlocks. -/
theorem exec_held (fuel : Nat) (c : Call Event) (s : StateMachine State Event Mem) (m : Mem) :
    exec (fuel + 1) c (⟨true, s⟩, m) = .deadlocked (⟨true, s⟩, m) := by
  cases c <;> rfl

/-- Where its guard and its callbacks make no call, `process` returns, and has taken the transition
if there is one and its guard holds. -/
theorem processLocked_quiet (call : (c : Call Event) → World State Event Mem →
      Outcome (World State Event Mem) (Ret State c)) {s : StateMachine State Event Mem}
    {ev : Event} {m m' : Mem} (h : (s.callbacks (.process ev)).silent m = some ((), m')) :
    ∃ r s', processLocked call ev (⟨true, s⟩, m) = .returned r (⟨true, s'⟩, m') := by
  cases ht : s.trans (s.cur, ev) with
  | none =>
    simp only [callbacks, ht] at h
    cases h
    refine ⟨false, s, ?_⟩
    simp only [processLocked, ht]
  | some t =>
    simp only [callbacks, ht] at h
    obtain ⟨ok, m₁, hguard, hrest⟩ := Prog.silent_bind_some h
    cases ok with
    | false =>
      cases hrest
      refine ⟨false, s, ?_⟩
      simp only [processLocked, ht, Prog.run_of_silent hguard]
      rfl
    | true =>
      obtain ⟨u₂, m₂, hexit, hrest⟩ := Prog.silent_bind_some hrest
      obtain ⟨u₃, m₃, haction, henter⟩ := Prog.silent_bind_some hrest
      refine ⟨true, { s with cur := t.target }, ?_⟩
      simp [processLocked, ht, Prog.run_of_silent hguard, Prog.run_of_silent hexit,
        Prog.run_of_silent haction, Prog.run_of_silent henter]

/-- Where the guard or a callback that is reached makes a call, `process` deadlocks. -/
theorem processLocked_call {call : (c : Call Event) → World State Event Mem →
      Outcome (World State Event Mem) (Ret State c)}
    (hcall : ∀ c s m, call c (⟨true, s⟩, m) = .deadlocked (⟨true, s⟩, m))
    {s : StateMachine State Event Mem} {ev : Event} {m : Mem}
    (h : (s.callbacks (.process ev)).silent m = none) :
    ∃ w, processLocked call ev (⟨true, s⟩, m) = .deadlocked w := by
  cases ht : s.trans (s.cur, ev) with
  | none =>
    simp only [callbacks, ht] at h
    cases h
  | some t =>
    simp only [callbacks, ht] at h
    simp only [processLocked, ht]
    refine Prog.run_bind_call h (hcall · s ·) ?_
    intro ok m₁ h
    cases ok with
    | false => cases h
    | true =>
      refine Prog.run_bind_call h (hcall · s ·) ?_
      intro _ m₂ h
      -- the action and the enter callback find the machine in its new state
      refine Prog.run_bind_call h (hcall · { s with cur := t.target } ·) ?_
      intro _ m₃ h
      obtain ⟨m', hrun⟩ := Prog.run_of_call h (hcall · { s with cur := t.target } ·)
      rw [hrun, Outcome.bind_deadlocked]
      exact ⟨_, rfl⟩

/-- A call outside of all callbacks returns where its callbacks make no call. -/
theorem exec_quiet (fuel : Nat) (c : Call Event) {s : StateMachine State Event Mem} {m : Mem}
    (h : (s.callbacks c).Quiet m) :
    ∃ r s' m', exec (fuel + 1) c (⟨false, s⟩, m) = .returned r (⟨false, s'⟩, m') := by
  cases c with
  | current => exact ⟨_, _, m, rfl⟩
  | process ev =>
    obtain ⟨⟨u, m'⟩, hm'⟩ := Option.isSome_iff_exists.mp h
    obtain ⟨r, s', hlocked⟩ := processLocked_quiet (exec fuel) hm'
    exact ⟨r, s', m', lockGuard_returned hlocked⟩

/-- It deadlocks where they make one. -/
theorem exec_call (fuel : Nat) (c : Call Event) {s : StateMachine State Event Mem} {m : Mem}
    (h : ¬ (s.callbacks c).Quiet m) :
    ∃ w, exec (fuel + 2) c (⟨false, s⟩, m) = .deadlocked w := by
  cases c with
  | current => exact absurd rfl h
  | process ev =>
    have hnone : (s.callbacks (.process ev)).silent m = none :=
      Option.not_isSome_iff_eq_none.mp h
    obtain ⟨w, hlocked⟩ := processLocked_call (exec_held fuel) hnone
    exact ⟨w, lockGuard_deadlocked hlocked⟩

end StateMachine

end Patrol.Core
