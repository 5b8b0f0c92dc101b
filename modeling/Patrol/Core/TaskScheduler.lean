import Mathlib.Algebra.Ring.Int.Defs
import Patrol.ProofKit.Reentry

/-! `TaskScheduler`: periodic tasks that `tick` runs when they are due.  All operations take the mutex,
and `tick` holds it while it calls the tasks.  Times are readings of the steady clock, in
milliseconds. -/

namespace Patrol.Core

open ProofKit

/-- A task.  Its `fn` names the code that it runs.  The ids come from an `int` counter, which overflows
only at the 2^31st task. -/
structure ScheduledTask (Fn : Type) where
  id : Int
  intervalMs : UInt32
  fn : Option Fn
  last : Int
deriving DecidableEq, Repr

structure TaskScheduler (Fn : Type) where
  tasks : List (ScheduledTask Fn) := []
  nextId : Int := 0

/-- The elapsed time, cast to 32 bits. -/
def elapsedMs (now last : Int) : UInt32 :=
  UInt32.ofNat ((now - last) % 2 ^ 32).toNat

theorem elapsedMs_toNat (now last : Int) :
    ((elapsedMs now last).toNat : Int) = (now - last) % 2 ^ 32 := by
  have hpos := Int.emod_nonneg (now - last) (by decide : (2 ^ 32 : Int) ≠ 0)
  have hlt := Int.emod_lt_of_pos (now - last) (by decide : (0 : Int) < 2 ^ 32)
  rw [elapsedMs, UInt32.toNat_ofNat_of_lt' (by rw [UInt32.size]; omega)]
  exact Int.toNat_of_nonneg hpos

/-- Of an interval that has passed, the cast shows it too. -/
def Shown (intervalMs : UInt32) (now last : Int) : Prop :=
  now - last < intervalMs.toNat ∨ intervalMs.toNat ≤ (now - last) % 2 ^ 32

/-- The comparison with the cast is right exactly if the cast shows an interval that has passed. -/
theorem elapsedMs_exact (intervalMs : UInt32) {now last : Int} (h : last ≤ now) :
    (intervalMs ≤ elapsedMs now last ↔ (intervalMs.toNat : Int) ≤ now - last) ↔
      Shown intervalMs now last := by
  have hcast := elapsedMs_toNat now last
  rw [UInt32.le_iff_toNat_le, Shown]
  omega

namespace ScheduledTask

variable {Fn : Type}

/-- The comparison of `tick`. -/
def due (now : Int) (t : ScheduledTask Fn) : Bool :=
  t.intervalMs ≤ elapsedMs now t.last

/-- A task after a `tick`. -/
def ticked (now : Int) (t : ScheduledTask Fn) : ScheduledTask Fn :=
  if t.due now then { t with last := now } else t

end ScheduledTask

namespace TaskScheduler

variable {Fn : Type}

/-- What `addTask` does under the lock.  The name of a task is never read. -/
def addTask (s : TaskScheduler Fn) (now : Int) (intervalMs : UInt32) (fn : Option Fn) :
    TaskScheduler Fn × Int :=
  ({ tasks := s.tasks ++ [⟨s.nextId, intervalMs, fn, now⟩], nextId := s.nextId + 1 }, s.nextId)

/-- What `removeTask` does under the lock: the first task with the id goes. -/
def removeTask (s : TaskScheduler Fn) (id : Int) : TaskScheduler Fn :=
  { s with tasks := s.tasks.eraseP fun t => t.id = id }

/-- The tasks that a `tick` at a time runs, in order. -/
def dueTasks (s : TaskScheduler Fn) (now : Int) : List (ScheduledTask Fn) :=
  s.tasks.filter (ScheduledTask.due now)

/-- The scheduler after a `tick` whose tasks do not call it. -/
def ticked (s : TaskScheduler Fn) (now : Int) : TaskScheduler Fn :=
  { s with tasks := s.tasks.map (ScheduledTask.ticked now) }

/-! ### Calls, also from tasks -/

/-- A call of an operation, with the reading of the clock that it takes. -/
inductive Call (Fn : Type)
  | addTask (now : Int) (intervalMs : UInt32) (fn : Option Fn)
  | removeTask (id : Int)
  | tick (now : Int)

@[reducible] def Ret : Call Fn → Type
  | .addTask .. => Int
  | .removeTask _ => Unit
  | .tick _ => Unit

variable {Mem : Type}

/-- The scheduler with its mutex, and the memory of the tasks. -/
abbrev World (Fn Mem : Type) := Guarded (TaskScheduler Fn) × Mem

/-- The code of a task, and of the program around the scheduler. -/
abbrev Body (Fn Mem : Type) := Prog Mem (@Ret Fn) Unit

/-- The loop of `tick` over the tasks, with `left` tasks left from position `i` on. -/
def tickLoop (invoke : Fn → World Fn Mem → Outcome (World Fn Mem) Unit) (now : Int) :
    Nat → Nat → World Fn Mem → Outcome (World Fn Mem) Unit
  | _, 0, w => .returned () w
  | i, left + 1, (g, m) =>
    match g.obj.tasks[i]? with
    | none => .returned () (g, m)
    | some t =>
      if t.due now then
        let s := { g.obj with tasks := g.obj.tasks.set i { t with last := now } }
        match t.fn with
        | none => tickLoop invoke now (i + 1) left ({ g with obj := s }, m)
        | some f =>
          (invoke f ({ g with obj := s }, m)).bind fun _ w => tickLoop invoke now (i + 1) left w
      else tickLoop invoke now (i + 1) left (g, m)

/-- A call of an operation, and the calls that tasks make in it.  Calls are followed as deep as
`fuel` says. -/
def exec (body : Fn → Body Fn Mem) :
    Nat → (c : Call Fn) → World Fn Mem → Outcome (World Fn Mem) (Ret c)
  | 0, _, w => .unfinished w
  | _ + 1, .addTask now intervalMs fn, w =>
    lockGuard (fun w =>
      let (s, id) := w.1.obj.addTask now intervalMs fn
      .returned id ({ w.1 with obj := s }, w.2)) w
  | _ + 1, .removeTask id, w =>
    lockGuard (fun w => .returned () ({ w.1 with obj := w.1.obj.removeTask id }, w.2)) w
  | fuel + 1, .tick now, w =>
    lockGuard (fun w =>
      tickLoop (fun f => (body f).run (exec body fuel)) now 0 w.1.obj.tasks.length w) w

/-- The code of tasks, in order. -/
def bodies (body : Fn → Body Fn Mem) (ts : List (ScheduledTask Fn)) : Body Fn Mem :=
  .sequence ((ts.filterMap ScheduledTask.fn).map body)

/-- The code that a call runs while it holds the mutex: of `tick`, the tasks that are due. -/
def callbacks (body : Fn → Body Fn Mem) (s : TaskScheduler Fn) : Call Fn → Body Fn Mem
  | .addTask .. => .ret ()
  | .removeTask _ => .ret ()
  | .tick now => bodies body (s.dueTasks now)

/-- While the mutex is held, every call deadlocks. -/
theorem exec_held (body : Fn → Body Fn Mem) (fuel : Nat) (c : Call Fn) (s : TaskScheduler Fn)
    (m : Mem) : exec body (fuel + 1) c (⟨true, s⟩, m) = .deadlocked (⟨true, s⟩, m) := by
  cases c <;> rfl

theorem bodies_cons_some (body : Fn → Body Fn Mem) {t : ScheduledTask Fn} {f : Fn}
    (h : t.fn = some f) (ts : List (ScheduledTask Fn)) :
    bodies body (t :: ts) = (body f).bind fun _ => bodies body ts := by
  rw [bodies, List.filterMap_cons_some h]
  rfl

theorem bodies_cons_none (body : Fn → Body Fn Mem) {t : ScheduledTask Fn}
    (h : t.fn = none) (ts : List (ScheduledTask Fn)) : bodies body (t :: ts) = bodies body ts := by
  rw [bodies, List.filterMap_cons_none h]
  rfl

/-- The loop goes past a task that is not due. -/
theorem tickLoop_skip (invoke : Fn → World Fn Mem → Outcome (World Fn Mem) Unit) {now : Int}
    {t : ScheduledTask Fn} (h : ¬ t.due now = true) (done todo : List (ScheduledTask Fn))
    (nextId : Int) (m : Mem) :
    tickLoop invoke now done.length (todo.length + 1) (⟨true, done ++ t :: todo, nextId⟩, m) =
      tickLoop invoke now (done ++ [t.ticked now]).length todo.length
        (⟨true, done ++ [t.ticked now] ++ todo, nextId⟩, m) := by
  have hticked : t.ticked now = t := if_neg h
  rw [hticked, tickLoop]
  simp [h]

/-- The loop sets the time of a task that is due, and calls its code. -/
theorem tickLoop_due (invoke : Fn → World Fn Mem → Outcome (World Fn Mem) Unit) {now : Int}
    {t : ScheduledTask Fn} (h : t.due now = true) (done todo : List (ScheduledTask Fn))
    (nextId : Int) (m : Mem) :
    tickLoop invoke now done.length (todo.length + 1) (⟨true, done ++ t :: todo, nextId⟩, m) =
      match t.fn with
      | none =>
        tickLoop invoke now (done ++ [t.ticked now]).length todo.length
          (⟨true, done ++ [t.ticked now] ++ todo, nextId⟩, m)
      | some f =>
        (invoke f (⟨true, done ++ [t.ticked now] ++ todo, nextId⟩, m)).bind fun _ w =>
          tickLoop invoke now (done ++ [t.ticked now]).length todo.length w := by
  have hticked : t.ticked now = { t with last := now } := if_pos h
  rw [hticked, tickLoop]
  simp [h]

/-- Where the tasks that are due make no call, the loop of `tick` returns, and has set their times. -/
theorem tickLoop_quiet {body : Fn → Body Fn Mem}
    (call : (c : Call Fn) → World Fn Mem → Outcome (World Fn Mem) (Ret c)) {now : Int}
    (done : List (ScheduledTask Fn)) {todo : List (ScheduledTask Fn)} (nextId : Int) {m m' : Mem}
    (h : (bodies body (todo.filter (ScheduledTask.due now))).silent m = some ((), m')) :
    tickLoop (fun f => (body f).run call) now done.length todo.length
        (⟨true, done ++ todo, nextId⟩, m) =
      .returned () (⟨true, done ++ todo.map (ScheduledTask.ticked now), nextId⟩, m') := by
  induction todo generalizing done m with
  | nil =>
    cases h
    rfl
  | cons t todo ih =>
    rw [List.map_cons, List.append_cons done (t.ticked now), List.length_cons]
    by_cases hdue : t.due now = true
    · rw [List.filter_cons_of_pos hdue] at h
      rw [tickLoop_due _ hdue]
      cases hfn : t.fn with
      | none =>
        rw [bodies_cons_none body hfn] at h
        exact ih _ h
      | some f =>
        rw [bodies_cons_some body hfn] at h
        obtain ⟨u, m₁, hf, hrest⟩ := Prog.silent_bind_some h
        simp only [Prog.run_of_silent hf, Outcome.bind_returned]
        exact ih _ hrest
    · rw [List.filter_cons_of_neg hdue] at h
      rw [tickLoop_skip _ hdue]
      exact ih _ h

/-- Where one of them makes a call, the loop of `tick` deadlocks. -/
theorem tickLoop_call {body : Fn → Body Fn Mem}
    {call : (c : Call Fn) → World Fn Mem → Outcome (World Fn Mem) (Ret c)}
    (hcall : ∀ c s m, call c (⟨true, s⟩, m) = .deadlocked (⟨true, s⟩, m)) {now : Int}
    (done : List (ScheduledTask Fn)) {todo : List (ScheduledTask Fn)} (nextId : Int) {m : Mem}
    (h : (bodies body (todo.filter (ScheduledTask.due now))).silent m = none) :
    ∃ w, tickLoop (fun f => (body f).run call) now done.length todo.length
        (⟨true, done ++ todo, nextId⟩, m) = .deadlocked w := by
  induction todo generalizing done m with
  | nil => cases h
  | cons t todo ih =>
    rw [List.length_cons]
    by_cases hdue : t.due now = true
    · rw [List.filter_cons_of_pos hdue] at h
      rw [tickLoop_due _ hdue]
      cases hfn : t.fn with
      | none =>
        rw [bodies_cons_none body hfn] at h
        exact ih _ h
      | some f =>
        rw [bodies_cons_some body hfn] at h
        refine Prog.run_bind_call h (hcall · ⟨done ++ [t.ticked now] ++ todo, nextId⟩ ·) ?_
        exact fun _ m' hrest => ih _ hrest
    · rw [List.filter_cons_of_neg hdue] at h
      rw [tickLoop_skip _ hdue]
      exact ih _ h

/-- A `tick` whose tasks make no call runs exactly the tasks that are due. -/
theorem exec_tick_quiet {body : Fn → Body Fn Mem} (fuel : Nat) {s : TaskScheduler Fn} {now : Int}
    {m m' : Mem} (h : (bodies body (s.dueTasks now)).silent m = some ((), m')) :
    exec body (fuel + 1) (.tick now) (⟨false, s⟩, m) =
      .returned () (⟨false, s.ticked now⟩, m') := by
  have hloop := tickLoop_quiet (exec body fuel) [] s.nextId h
  exact lockGuard_returned hloop

/-- A call outside of all tasks returns where its tasks make no call. -/
theorem exec_quiet (body : Fn → Body Fn Mem) (fuel : Nat) (c : Call Fn) {s : TaskScheduler Fn}
    {m : Mem} (h : (callbacks body s c).Quiet m) :
    ∃ r s' m', exec body (fuel + 1) c (⟨false, s⟩, m) = .returned r (⟨false, s'⟩, m') := by
  cases c with
  | addTask now intervalMs fn => exact ⟨_, _, m, rfl⟩
  | removeTask id => exact ⟨_, _, m, rfl⟩
  | tick now =>
    obtain ⟨⟨u, m'⟩, hm'⟩ := Option.isSome_iff_exists.mp h
    exact ⟨_, _, m', exec_tick_quiet fuel hm'⟩

/-- It deadlocks where they make one. -/
theorem exec_call (body : Fn → Body Fn Mem) (fuel : Nat) (c : Call Fn) {s : TaskScheduler Fn}
    {m : Mem} (h : ¬ (callbacks body s c).Quiet m) :
    ∃ w, exec body (fuel + 2) c (⟨false, s⟩, m) = .deadlocked w := by
  cases c with
  | addTask now intervalMs fn => exact absurd rfl h
  | removeTask id => exact absurd rfl h
  | tick now =>
    have hnone : (bodies body (s.dueTasks now)).silent m = none :=
      Option.not_isSome_iff_eq_none.mp h
    obtain ⟨w, hw⟩ := tickLoop_call (exec_held body fuel) [] s.nextId hnone
    exact ⟨w, lockGuard_deadlocked hw⟩

end TaskScheduler

end Patrol.Core
