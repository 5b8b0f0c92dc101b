import Patrol.ProofKit.Machine

/-! `PatrolController`: starting, pausing, resuming and aborting the patrol of a path. -/

namespace Patrol.Business

open ProofKit

/-- The controller.  It only counts the waypoints, and only passes the callback a result. -/
structure PatrolController (Waypoint DoneCallback : Type) where
  path : List Waypoint := []
  currentWp : Nat := 0
  running : Bool := false
  doneCb : Option DoneCallback := none

namespace PatrolController

variable {Waypoint DoneCallback : Type}

def start (s : PatrolController Waypoint DoneCallback) (path : List Waypoint)
    (cb : Option DoneCallback) : PatrolController Waypoint DoneCallback × Bool :=
  if path.isEmpty then
    (s, false)
  else
    ({ path, currentWp := 0, running := true, doneCb := cb }, true)

def pause (s : PatrolController Waypoint DoneCallback) : PatrolController Waypoint DoneCallback :=
  { s with running := false }

def resume (s : PatrolController Waypoint DoneCallback) : PatrolController Waypoint DoneCallback :=
  { s with running := true }

/-- The controller after an abort, and the call of the callback that it makes. -/
def abort (s : PatrolController Waypoint DoneCallback) :
    PatrolController Waypoint DoneCallback × Option (DoneCallback × Bool) :=
  ({ s with running := false, currentWp := 0 }, s.doneCb.map fun cb => (cb, false))

/-- Behind the guard of `tick` there is no code yet. -/
def tick (s : PatrolController Waypoint DoneCallback) : PatrolController Waypoint DoneCallback :=
  if !s.running || s.path.length ≤ s.currentWp then s else s

def isRunning (s : PatrolController Waypoint DoneCallback) : Bool :=
  s.running

def currentWaypoint (s : PatrolController Waypoint DoneCallback) : Nat :=
  s.currentWp

/-- A start is refused exactly for a path without waypoints. -/
theorem start_accepts {s : PatrolController Waypoint DoneCallback} {path : List Waypoint}
    {cb : Option DoneCallback} : (s.start path cb).2 = true ↔ path ≠ [] := by
  cases path <;> simp [start]

@[simp] theorem tick_eq (s : PatrolController Waypoint DoneCallback) : s.tick = s :=
  ite_self s

end PatrolController

namespace Patrolling

variable {Waypoint DoneCallback : Type}

inductive Op (Waypoint DoneCallback : Type)
  | start (path : List Waypoint) (cb : Option DoneCallback)
  | pause
  | resume
  | abort
  | tick

def machine : Machine (PatrolController Waypoint DoneCallback) (Op Waypoint DoneCallback) where
  init := {}
  step s
    | .start path cb => (s.start path cb).1
    | .pause => s.pause
    | .resume => s.resume
    | .abort => s.abort.1
    | .tick => s.tick

/-- A start was successful, and nothing was aborted since. -/
def Started (ops : List (Op Waypoint DoneCallback)) : Prop :=
  ∃ before path cb after, ops = before ++ .start path cb :: after ∧
    ((machine.run before).start path cb).2 = true ∧ .abort ∉ after

/-- A start was given waypoints, and nothing was aborted since. -/
def Underway (ops : List (Op Waypoint DoneCallback)) : Prop :=
  ∃ before path cb after, ops = before ++ .start path cb :: after ∧ path ≠ [] ∧ .abort ∉ after

theorem started_iff {ops : List (Op Waypoint DoneCallback)} : Started ops ↔ Underway ops := by
  simp only [Started, Underway, PatrolController.start_accepts]

theorem not_underway_nil : ¬ Underway ([] : List (Op Waypoint DoneCallback)) := by
  rintro ⟨before, path, cb, after, heq, -, -⟩
  simp at heq

/-- A patrol is under way after an operation if this is a start on a path, or if it was before and
the operation is no abort. -/
theorem underway_concat {ops : List (Op Waypoint DoneCallback)} {op : Op Waypoint DoneCallback} :
    Underway (ops ++ [op]) ↔
      (∃ path cb, op = .start path cb ∧ path ≠ []) ∨ op ≠ .abort ∧ Underway ops := by
  constructor
  · rintro ⟨before, path, cb, after, heq, hpath, habort⟩
    rcases List.eq_nil_or_concat after with rfl | ⟨after', last, rfl⟩
    · obtain ⟨-, hop⟩ := List.append_inj' heq rfl
      cases hop
      exact Or.inl ⟨path, cb, rfl, hpath⟩
    · have hconcat : ops ++ [op] = (before ++ .start path cb :: after') ++ [last] := by
        simpa using heq
      obtain ⟨hops, hop⟩ := List.append_inj' hconcat rfl
      cases hop
      have hlast : op ≠ .abort := fun h => habort (by simp [h])
      have hafter : .abort ∉ after' := fun h => habort (by simp [h])
      exact Or.inr ⟨hlast, before, path, cb, after', hops, hpath, hafter⟩
  · rintro (⟨path, cb, rfl, hpath⟩ | ⟨hop, before, path, cb, after, rfl, hpath, habort⟩)
    · exact ⟨ops, path, cb, [], rfl, hpath, by simp⟩
    · refine ⟨before, path, cb, after ++ [op], by simp, hpath, ?_⟩
      simp only [List.mem_append, List.mem_singleton, not_or]
      exact ⟨habort, hop.symm⟩

/-- While a patrol is under way there is a path. -/
theorem path_of_underway {ops : List (Op Waypoint DoneCallback)} (h : Underway ops) :
    (machine.run ops).path ≠ [] := by
  induction ops using List.reverseRecOn with
  | nil => exact absurd h not_underway_nil
  | append_singleton ops op ih =>
    rw [Machine.run_concat]
    rcases underway_concat.mp h with ⟨path, cb, rfl, hpath⟩ | ⟨hop, hops⟩
    · cases path with
      | nil => exact absurd rfl hpath
      | cons w path => exact List.cons_ne_nil w path
    · have hbefore := ih hops
      cases op with
      | start path cb =>
        cases path with
        | nil => exact hbefore
        | cons w path => exact List.cons_ne_nil w path
      | abort => exact absurd rfl hop
      | tick =>
        show (PatrolController.tick _).path ≠ []
        rwa [PatrolController.tick_eq]
      | _ => exact hbefore

/-- The robot runs only if a start was successful since the last abort, and only on a path. -/
def RunsStarted (ops : List (Op Waypoint DoneCallback)) : Prop :=
  (machine.run ops).isRunning = true → Started ops ∧ (machine.run ops).path ≠ []

/-- A call of `resume` while a patrol is under way. -/
def ResumesUnderway (before : List (Op Waypoint DoneCallback)) (op : Op Waypoint DoneCallback) :
    Prop :=
  op = .resume → Underway before

theorem runsStarted_iff {ops : List (Op Waypoint DoneCallback)} :
    RunsStarted ops ↔ ((machine.run ops).running = true → Underway ops) := by
  rw [RunsStarted, started_iff]
  constructor
  · intro h hrun
    exact (h hrun).1
  · intro h hrun
    exact ⟨h hrun, path_of_underway (h hrun)⟩

theorem runsStarted_concat {ops : List (Op Waypoint DoneCallback)} (h : RunsStarted ops)
    (op : Op Waypoint DoneCallback) : RunsStarted (ops ++ [op]) ↔ ResumesUnderway ops op := by
  rw [runsStarted_iff] at h ⊢
  rw [Machine.run_concat, underway_concat]
  cases op with
  | resume => simp [ResumesUnderway, machine, PatrolController.resume]
  | start path cb =>
    apply iff_of_true _ nofun
    cases path with
    | nil => exact fun hrun => Or.inr ⟨nofun, h hrun⟩
    | cons w path => exact fun _ => Or.inl ⟨_, _, rfl, List.cons_ne_nil w path⟩
  | tick =>
    apply iff_of_true _ nofun
    intro hrun
    refine Or.inr ⟨nofun, h ?_⟩
    rwa [← PatrolController.tick_eq (machine.run ops)]
  | _ => exact iff_of_true nofun nofun

/-- The robot runs only between a successful start and its end if and only if each `resume` comes
while a patrol is under way. -/
theorem runs_started_iff (ops : List (Op Waypoint DoneCallback)) :
    Always RunsStarted ops ↔ EachOp ResumesUnderway ops := by
  apply always_iff
  · exact nofun
  · intro before op hbefore
    exact runsStarted_concat hbefore.last op

/-- A `resume` sets a robot running that was never started, or whose patrol was aborted. -/
theorem resume_unstarted :
    ¬ (∀ ops : List (Op Unit Unit), Always RunsStarted ops) ∧
      ((machine.run [.resume] : PatrolController Unit Unit).isRunning = true) ∧
      ((machine.run [.start [()] none, .abort, .resume] :
        PatrolController Unit Unit).isRunning = true) := by
  refine ⟨?_, rfl, rfl⟩
  intro h
  obtain ⟨⟨before, path, cb, after, heq, -, -⟩, -⟩ := (h [.resume]).last rfl
  rcases before with - | ⟨op, before⟩ <;> simp at heq

end Patrolling

end Patrol.Business
