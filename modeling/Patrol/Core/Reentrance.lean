import Patrol.Core.StateMachine
import Patrol.Core.TaskScheduler

/-! Callbacks that call the object that calls them.  `tick` and `process` hold a mutex that is not
recursive while they call tasks, guards, actions and callbacks, so a run returns exactly if none of
these makes a call of an operation that takes the mutex. -/

namespace Patrol.Core

open ProofKit

namespace TaskScheduler

variable {Fn Mem : Type}

/-- A call that the program around the scheduler makes. -/
def step (body : Fn → Body Fn Mem) (fuel : Nat) (c : Call Fn) (w : World Fn Mem) :
    Outcome (World Fn Mem) Unit :=
  (exec body fuel c w).void

/-- The tasks that a call runs in a state make no call of the scheduler. -/
def QuietCall (body : Fn → Body Fn Mem) (c : Call Fn) (w : World Fn Mem) : Prop :=
  (callbacks body w.1.obj c).Quiet w.2

theorem step_quiet (body : Fn → Body Fn Mem) (fuel : Nat) (c : Call Fn) (w : World Fn Mem)
    (hfree : w.1.held = false) (h : QuietCall body c w) :
    ∃ w', step body (fuel + 2) c w = .returned () w' ∧ w'.1.held = false := by
  obtain ⟨⟨held, s⟩, m⟩ := w
  cases hfree
  obtain ⟨r, s', m', hexec⟩ := exec_quiet body (fuel + 1) c h
  refine ⟨(⟨false, s'⟩, m'), ?_, rfl⟩
  rw [step, hexec]
  rfl

theorem step_call (body : Fn → Body Fn Mem) (fuel : Nat) (c : Call Fn) (w : World Fn Mem)
    (hfree : w.1.held = false) (h : ¬ QuietCall body c w) :
    ∃ w', step body (fuel + 2) c w = .deadlocked w' := by
  obtain ⟨⟨held, s⟩, m⟩ := w
  cases hfree
  obtain ⟨w', hexec⟩ := exec_call body fuel c h
  refine ⟨w', ?_⟩
  rw [step, hexec]
  rfl

end TaskScheduler

namespace StateMachine

variable {State Event Mem : Type} [DecidableEq State] [DecidableEq Event]

/-- What the program around the machine does. -/
inductive Op (State Event Mem : Type)
  | register (r : Registration State Event Mem)
  | call (c : Call Event)

def step (fuel : Nat) (op : Op State Event Mem) (w : World State Event Mem) :
    Outcome (World State Event Mem) Unit :=
  match op with
  | .register r => .returned () ({ w.1 with obj := w.1.obj.register r }, w.2)
  | .call c => (exec fuel c w).void

/-- The guard and the callbacks that a call reaches in a state make no call of the machine. -/
def QuietCall (op : Op State Event Mem) (w : World State Event Mem) : Prop :=
  ∀ c, op = .call c → (w.1.obj.callbacks c).Quiet w.2

theorem step_quiet (fuel : Nat) (op : Op State Event Mem) (w : World State Event Mem)
    (hfree : w.1.held = false) (h : QuietCall op w) :
    ∃ w', step (fuel + 2) op w = .returned () w' ∧ w'.1.held = false := by
  obtain ⟨⟨held, s⟩, m⟩ := w
  cases hfree
  cases op with
  | register r => exact ⟨_, rfl, rfl⟩
  | call c =>
    obtain ⟨r, s', m', hexec⟩ := exec_quiet (fuel + 1) c (h c rfl)
    refine ⟨(⟨false, s'⟩, m'), ?_, rfl⟩
    simp only [step, hexec]
    rfl

theorem step_call (fuel : Nat) (op : Op State Event Mem) (w : World State Event Mem)
    (hfree : w.1.held = false) (h : ¬ QuietCall op w) :
    ∃ w', step (fuel + 2) op w = .deadlocked w' := by
  obtain ⟨⟨held, s⟩, m⟩ := w
  cases hfree
  cases op with
  | register r =>
    apply absurd _ h
    rintro c ⟨⟩
  | call c =>
    have hcall : ¬ (s.callbacks c).Quiet m := by
      intro hquiet
      apply h
      rintro c ⟨⟩
      exact hquiet
    obtain ⟨w', hexec⟩ := exec_call fuel c hcall
    refine ⟨w', ?_⟩
    simp only [step, hexec]
    rfl

end StateMachine

/-- A run on an object whose mutex is free returns exactly if at every call the callbacks that this
reaches make no call of the object, and tries to lock the mutex that it holds otherwise. -/
theorem calls_return_iff {Fn State Event Mem : Type} [DecidableEq State] [DecidableEq Event]
    (fuel : Nat) :
    (∀ (body : Fn → TaskScheduler.Body Fn Mem) (s : TaskScheduler Fn) (m : Mem)
      (ops : List (TaskScheduler.Call Fn)),
      let step := TaskScheduler.step body (fuel + 2)
      let quiet := QuietRun step (TaskScheduler.QuietCall body) ops (⟨false, s⟩, m)
      ((∃ w, runSteps step ops (⟨false, s⟩, m) = .returned () w) ↔ quiet) ∧
        ((∃ w, runSteps step ops (⟨false, s⟩, m) = .deadlocked w) ↔ ¬ quiet)) ∧
    (∀ (s : StateMachine State Event Mem) (m : Mem) (ops : List (StateMachine.Op State Event Mem)),
      let step := StateMachine.step (fuel + 2)
      let quiet := QuietRun step StateMachine.QuietCall ops (⟨false, s⟩, m)
      ((∃ w, runSteps step ops (⟨false, s⟩, m) = .returned () w) ↔ quiet) ∧
        ((∃ w, runSteps step ops (⟨false, s⟩, m) = .deadlocked w) ↔ ¬ quiet)) := by
  constructor
  · intro body s m ops
    exact runSteps_iff (TaskScheduler.step_quiet body fuel) (TaskScheduler.step_call body fuel)
      rfl ops
  · intro s m ops
    exact runSteps_iff (StateMachine.step_quiet fuel) (StateMachine.step_call fuel) rfl ops

/-- A task that removes itself. -/
def selfRemoving : Unit → TaskScheduler.Body Unit Unit :=
  fun _ => .call (.removeTask 0) .ret

/-- A machine with one transition, whose action asks for the state that it leads to. -/
def askingAction : StateMachine Unit Unit Unit where
  cur := ()
  trans _ := some { target := (), action := some fun _ _ _ => .call .current .ret }

/-- Neither a task that removes itself nor an action that asks for the state ever returns. -/
theorem callbacks_lock_out :
    ¬ (∀ (body : Unit → TaskScheduler.Body Unit Unit) (ops : List (TaskScheduler.Call Unit)),
        ∃ fuel w, runSteps (TaskScheduler.step body fuel) ops (⟨false, {}⟩, ()) =
          .returned () w) ∧
      ¬ (∀ (s : StateMachine Unit Unit Unit) (ops : List (StateMachine.Op Unit Unit Unit)),
        ∃ fuel w, runSteps (StateMachine.step fuel) ops (⟨false, s⟩, ()) = .returned () w) := by
  constructor
  · intro h
    obtain ⟨fuel, w, hrun⟩ := h selfRemoving [.addTask 0 0 (some ()), .tick 0]
    match fuel with
    | 0 => cases hrun
    | 1 => cases hrun
    | fuel + 2 => cases hrun
  · intro h
    obtain ⟨fuel, w, hrun⟩ := h askingAction [.call (.process ())]
    match fuel with
    | 0 => cases hrun
    | 1 => cases hrun
    | fuel + 2 => cases hrun

end Patrol.Core
