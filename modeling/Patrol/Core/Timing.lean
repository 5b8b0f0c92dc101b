import Mathlib.Data.List.Nodup
import Patrol.Core.Timer
import Patrol.ProofKit.LastValue

/-! When tasks and timers fire.  A history records when a task was registered or ran, and when a timer
was started or reset or fired; the code casts the time since then to 32 bits, so an interval that is
over is missed where the cast does not show it. -/

namespace Patrol.Core

open ProofKit

/-! ### The clock -/

section Clock

variable {Call : Type} {time? : Call → Option Int}

/-- Over a history of calls the clock does not go back. -/
def ClockRuns (time? : Call → Option Int) (ops : List Call) : Prop :=
  (ops.filterMap time?).Pairwise (· ≤ ·)

instance (ops : List Call) : Decidable (ClockRuns time? ops) :=
  inferInstanceAs (Decidable ((ops.filterMap time?).Pairwise (· ≤ ·)))

theorem ClockRuns.before {before : List Call} {op : Call} (h : ClockRuns time? (before ++ [op])) :
    ClockRuns time? before := by
  rw [ClockRuns, List.filterMap_append] at h
  exact (List.pairwise_append.mp h).1

/-- The readings of earlier calls are no later. -/
theorem ClockRuns.le {before : List Call} {op : Call} (h : ClockRuns time? (before ++ [op]))
    {time now : Int} (htime : time ∈ before.filterMap time?) (hnow : time? op = some now) :
    time ≤ now := by
  rw [ClockRuns, List.filterMap_append] at h
  exact (List.pairwise_append.mp h).2.2 time htime now (by simp [hnow])

/-- Where each step records readings of its call only, a log holds readings of the calls only. -/
theorem readings_of_steps {W : Type} {machine : Machine W Call} (log : W → List Int)
    (hinit : log machine.init = [])
    (hstep : ∀ w op, ∀ time ∈ log (machine.step w op), time ∈ log w ∨ time? op = some time)
    (ops : List Call) : ∀ time ∈ log (machine.run ops), time ∈ ops.filterMap time? := by
  induction ops using List.reverseRecOn with
  | nil =>
    intro time htime
    rw [Machine.run_nil, hinit] at htime
    cases htime
  | append_singleton ops op ih =>
    intro time htime
    rw [Machine.run_concat] at htime
    rw [List.filterMap_append, List.mem_append]
    rcases hstep _ op time htime with htime | hnow
    · exact Or.inl (ih time htime)
    · exact Or.inr (List.mem_filterMap.mpr ⟨op, List.mem_singleton_self op, hnow⟩)

end Clock

/-! ### Tasks -/

namespace TaskScheduler

/-- The scheduler while no task calls it, and the times at which tasks were registered or ran, by
their ids. -/
structure Timed (Fn : Type) where
  sched : TaskScheduler Fn := {}
  log : List (Int × Int) := []

variable {Fn : Type}

def timed (Fn : Type) : Machine (Timed Fn) (Call Fn) where
  init := {}
  step w
    | .addTask now intervalMs fn =>
      let (sched, id) := w.sched.addTask now intervalMs fn
      { sched, log := w.log ++ [(id, now)] }
    | .removeTask id => { w with sched := w.sched.removeTask id }
    | .tick now =>
      { sched := w.sched.ticked now
        log := w.log ++ (w.sched.dueTasks now).map fun t => (t.id, now) }

/-- The reading of the clock in a call. -/
def Call.time? : Call Fn → Option Int
  | .addTask now _ _ => some now
  | .removeTask _ => none
  | .tick now => some now

/-- A `tick` at the end of a history runs a task exactly if the time since its registration or its
last run is at least its interval. -/
def TicksWhenDue (ops : List (Call Fn)) : Prop :=
  ∀ before now, ops = before ++ [.tick now] → ∀ t ∈ ((timed Fn).run before).sched.tasks,
    ∃ since, lastVal ((timed Fn).run before).log t.id = some since ∧
      (t ∈ ((timed Fn).run before).sched.dueTasks now ↔ (t.intervalMs.toNat : Int) ≤ now - since)

/-- At a `tick`, the cast shows every interval that is over. -/
def TickShown (before : List (Call Fn)) (op : Call Fn) : Prop :=
  ∀ now, op = .tick now → ∀ t ∈ ((timed Fn).run before).sched.tasks,
    Shown t.intervalMs now t.last

/-- No two tasks have one id, and each task has the time of its last entry in the history. -/
structure Tracked (w : Timed Fn) : Prop where
  nodup : (w.sched.tasks.map ScheduledTask.id).Nodup
  fresh : ∀ t ∈ w.sched.tasks, t.id < w.sched.nextId
  known : ∀ e ∈ w.log, e.1 < w.sched.nextId
  since : ∀ t ∈ w.sched.tasks, lastVal w.log t.id = some t.last

theorem ScheduledTask.ticked_id (t : ScheduledTask Fn) (now : Int) : (t.ticked now).id = t.id := by
  rw [ScheduledTask.ticked]
  split <;> rfl

/-- What a `tick` records of the tasks that ran. -/
theorem lastVal_ran (ts : List (ScheduledTask Fn)) (now id : Int) :
    lastVal (ts.map fun t => (t.id, now)) id =
      if id ∈ ts.map ScheduledTask.id then some now else none := by
  cases h : lastVal (ts.map fun t => (t.id, now)) id with
  | none =>
    rw [if_neg]
    intro hid
    obtain ⟨t, ht, rfl⟩ := List.mem_map.mp hid
    exact lastVal_eq_none.mp h _ (List.mem_map_of_mem ht) rfl
  | some time =>
    obtain ⟨t, ht, heq⟩ := List.mem_map.mp (mem_of_lastVal h)
    cases heq
    rw [if_pos (List.mem_map_of_mem ht)]

theorem Tracked.addTask {w : Timed Fn} (h : Tracked w) (now : Int) (intervalMs : UInt32)
    (fn : Option Fn) : Tracked ((timed Fn).step w (.addTask now intervalMs fn)) := by
  have hnext : w.sched.nextId < w.sched.nextId + 1 := by omega
  constructor
  · show ((w.sched.tasks ++ [_]).map ScheduledTask.id).Nodup
    rw [List.map_append, List.map_singleton]
    refine List.nodup_append.mpr ⟨h.nodup, List.nodup_singleton _, ?_⟩
    intro id hid id' hid'
    obtain ⟨t, ht, rfl⟩ := List.mem_map.mp hid
    rw [List.mem_singleton.mp hid']
    exact Int.ne_of_lt (h.fresh t ht)
  · intro t ht
    rcases List.mem_append.mp ht with ht | ht
    · exact Int.lt_trans (h.fresh t ht) hnext
    · rw [List.mem_singleton.mp ht]
      exact hnext
  · intro e he
    rcases List.mem_append.mp he with he | he
    · exact Int.lt_trans (h.known e he) hnext
    · rw [List.mem_singleton.mp he]
      exact hnext
  · intro t ht
    show lastVal (w.log ++ [(w.sched.nextId, now)]) t.id = some t.last
    rw [lastVal_concat]
    rcases List.mem_append.mp ht with ht | ht
    · rw [if_neg (Int.ne_of_gt (h.fresh t ht)), h.since t ht]
    · rw [List.mem_singleton.mp ht]
      exact if_pos rfl

theorem Tracked.removeTask {w : Timed Fn} (h : Tracked w) (id : Int) :
    Tracked ((timed Fn).step w (.removeTask id)) := by
  have hsub : (w.sched.tasks.eraseP fun t => t.id = id).Sublist w.sched.tasks := List.eraseP_sublist
  exact ⟨h.nodup.sublist (hsub.map _), fun t ht => h.fresh t (hsub.subset ht), h.known,
    fun t ht => h.since t (hsub.subset ht)⟩

theorem Tracked.tick {w : Timed Fn} (h : Tracked w) (now : Int) :
    Tracked ((timed Fn).step w (.tick now)) := by
  constructor
  · show ((w.sched.tasks.map (ScheduledTask.ticked now)).map ScheduledTask.id).Nodup
    have hids : ScheduledTask.id ∘ ScheduledTask.ticked now = ScheduledTask.id :=
      funext fun t : ScheduledTask Fn => ScheduledTask.ticked_id t now
    rw [List.map_map, hids]
    exact h.nodup
  · intro t' ht'
    obtain ⟨t, ht, rfl⟩ := List.mem_map.mp ht'
    rw [ScheduledTask.ticked_id]
    exact h.fresh t ht
  · intro e he
    rcases List.mem_append.mp he with he | he
    · exact h.known e he
    · obtain ⟨t, ht, rfl⟩ := List.mem_map.mp he
      exact h.fresh t (List.mem_filter.mp ht).1
  · intro t' ht'
    obtain ⟨t, ht, rfl⟩ := List.mem_map.mp ht'
    rw [ScheduledTask.ticked_id]
    show lastVal (w.log ++ (w.sched.dueTasks now).map _) t.id = _
    rw [lastVal_append, lastVal_ran, ScheduledTask.ticked]
    by_cases hdue : t.due now = true
    · have hran : t ∈ w.sched.dueTasks now := List.mem_filter.mpr ⟨ht, hdue⟩
      rw [if_pos (List.mem_map_of_mem hran), if_pos hdue, Option.some_or]
    · rw [if_neg, if_neg hdue, Option.none_or, h.since t ht]
      intro hid
      obtain ⟨t', ht', heq⟩ := List.mem_map.mp hid
      obtain ⟨hmem, hdue'⟩ := List.mem_filter.mp ht'
      rw [List.inj_on_of_nodup_map h.nodup hmem ht heq] at hdue'
      exact hdue hdue'

theorem tracked_run (ops : List (Call Fn)) : Tracked ((timed Fn).run ops) := by
  apply (timed Fn).run_invariant
  · exact ⟨List.nodup_nil, nofun, nofun, nofun⟩
  · intro w op h
    cases op with
    | addTask now intervalMs fn => exact h.addTask now intervalMs fn
    | removeTask id => exact h.removeTask id
    | tick now => exact h.tick now

/-- The times in a history are readings of its calls. -/
theorem log_times (ops : List (Call Fn)) :
    ∀ time ∈ ((timed Fn).run ops).log.map Prod.snd, time ∈ ops.filterMap Call.time? := by
  refine readings_of_steps (fun w : Timed Fn => w.log.map Prod.snd) rfl ?_ ops
  intro w op time htime
  obtain ⟨e, he, rfl⟩ := List.mem_map.mp htime
  cases op with
  | addTask now intervalMs fn =>
    rcases List.mem_append.mp he with he | he
    · exact Or.inl (List.mem_map_of_mem he)
    · rw [List.mem_singleton.mp he]
      exact Or.inr rfl
  | removeTask id => exact Or.inl (List.mem_map_of_mem he)
  | tick now =>
    rcases List.mem_append.mp he with he | he
    · exact Or.inl (List.mem_map_of_mem he)
    · obtain ⟨t, -, rfl⟩ := List.mem_map.mp he
      exact Or.inr rfl

/-- At a `tick` no task has a time that is still to come. -/
theorem last_le {before : List (Call Fn)} {now : Int}
    (h : ClockRuns Call.time? (before ++ [.tick now])) {t : ScheduledTask Fn}
    (ht : t ∈ ((timed Fn).run before).sched.tasks) : t.last ≤ now :=
  h.le (log_times before _ (List.mem_map_of_mem (mem_of_lastVal ((tracked_run before).since t ht))))
    rfl

theorem ticksWhenDue_concat {ops : List (Call Fn)} {op : Call Fn}
    (h : ClockRuns Call.time? (ops ++ [op])) : TicksWhenDue (ops ++ [op]) ↔ TickShown ops op := by
  constructor
  · rintro hdue now rfl t ht
    obtain ⟨since, hsince, hiff⟩ := hdue ops now rfl t ht
    rw [(tracked_run ops).since t ht] at hsince
    cases hsince
    apply (elapsedMs_exact t.intervalMs (last_le h ht)).mp
    rw [← hiff, dueTasks, List.mem_filter, and_iff_right ht, ScheduledTask.due, decide_eq_true_iff]
  · intro hshown before now heq t ht
    obtain ⟨rfl, hop⟩ := List.append_inj' heq rfl
    cases hop
    refine ⟨t.last, (tracked_run ops).since t ht, ?_⟩
    rw [dueTasks, List.mem_filter, and_iff_right ht, ScheduledTask.due, decide_eq_true_iff]
    exact (elapsedMs_exact t.intervalMs (last_le h ht)).mpr (hshown now rfl t ht)

/-- Over a whole history, every `tick` runs a task exactly when it is due if and only if at every
`tick` the cast shows every interval that is over. -/
theorem ticksWhenDue_iff {ops : List (Call Fn)} (h : ClockRuns Call.time? ops) :
    Always TicksWhenDue ops ↔ EachOp TickShown ops := by
  apply always_iff_of_closed (fun _ _ => ClockRuns.before) _ _ h
  · intro before now heq
    simp at heq
  · intro before op hclock _
    exact ticksWhenDue_concat hclock

end TaskScheduler

/-! ### Timers -/

namespace Timer

/-- A timer, and the times at which it was started or reset or fired. -/
structure Timed (Callback : Type) where
  timer : Timer Callback
  log : List Int := []

/-- A call of an operation, with the reading of the clock that it takes.  What a callback calls comes
after the `check` that calls it. -/
inductive Call (Callback : Type)
  | setInterval (ms : UInt32)
  | setCallback (cb : Option Callback)
  | setRepeat (r : Bool)
  | start (now : Int)
  | stop
  | reset (now : Int)
  | check (now : Int)

variable {Callback : Type}

/-- The timer that the constructor makes. -/
def construct (intervalMs : UInt32) (cb : Option Callback) (repeats : Bool) : Timer Callback :=
  { interval := intervalMs, cb, repeats }

def timed (intervalMs : UInt32) (cb : Option Callback) (repeats : Bool) :
    Machine (Timed Callback) (Call Callback) where
  init := { timer := construct intervalMs cb repeats }
  step w
    | .setInterval ms => { w with timer := w.timer.setInterval ms }
    | .setCallback cb => { w with timer := w.timer.setCallback cb }
    | .setRepeat r => { w with timer := w.timer.setRepeat r }
    | .start now => { timer := w.timer.start now, log := w.log ++ [now] }
    | .stop => { w with timer := w.timer.stop }
    | .reset now => { timer := w.timer.reset now, log := w.log ++ [now] }
    | .check now =>
      let (timer, fired, _) := w.timer.check now
      { timer, log := if fired then w.log ++ [now] else w.log }

def Call.time? : Call Callback → Option Int
  | .start now => some now
  | .reset now => some now
  | .check now => some now
  | _ => none

variable (intervalMs : UInt32) (cb : Option Callback) (repeats : Bool)

/-- A `check` of a running timer at the end of a history fires exactly if the time since the last
start, reset or firing is at least the interval. -/
def ChecksWhenDue (ops : List (Call Callback)) : Prop :=
  ∀ before now, ops = before ++ [.check now] →
    let w := (timed intervalMs cb repeats).run before
    w.timer.running = true → ∃ since, w.log.getLast? = some since ∧
      ((w.timer.check now).2.1 = true ↔ (w.timer.interval.toNat : Int) ≤ now - since)

/-- At a `check` of a running timer, the cast shows an interval that is over. -/
def CheckShown (before : List (Call Callback)) (op : Call Callback) : Prop :=
  ∀ now, op = .check now →
    let timer := ((timed intervalMs cb repeats).run before).timer
    timer.running = true → Shown timer.interval now timer.last

/-- A timer that runs has the time of the last entry in the history. -/
def Tracked (w : Timed Callback) : Prop :=
  w.log.getLast? = some w.timer.last ∨ w.timer.running = false ∧ w.log = []

theorem tracked_run (ops : List (Call Callback)) :
    Tracked ((timed intervalMs cb repeats).run ops) := by
  apply (timed intervalMs cb repeats).run_invariant
  · exact Or.inr ⟨rfl, rfl⟩
  · intro w op h
    cases op with
    | start now => exact Or.inl List.getLast?_concat
    | reset now => exact Or.inl List.getLast?_concat
    | stop =>
      rcases h with h | ⟨-, h⟩
      · exact Or.inl h
      · exact Or.inr ⟨rfl, h⟩
    | check now =>
      have hlast := check_last w.timer now
      show Tracked { timer := (w.timer.check now).1, log := if (w.timer.check now).2.1 then _ else _ }
      cases hfired : (w.timer.check now).2.1 with
      | true =>
        rw [hfired, if_pos rfl] at hlast
        rw [if_pos rfl, Tracked, hlast]
        exact Or.inl List.getLast?_concat
      | false =>
        rw [hfired, if_neg Bool.false_ne_true] at hlast
        rw [if_neg Bool.false_ne_true, Tracked, hlast]
        rcases h with h | ⟨hstopped, h⟩
        · exact Or.inl h
        · rw [check_running hstopped]
          exact Or.inr ⟨hstopped, h⟩
    | _ => exact h

/-- The times in a history are readings of its calls. -/
theorem log_times (ops : List (Call Callback)) :
    ∀ time ∈ ((timed intervalMs cb repeats).run ops).log, time ∈ ops.filterMap Call.time? := by
  refine readings_of_steps Timed.log rfl ?_ ops
  intro w op time htime
  have hconcat {now : Int} (h : time ∈ w.log ++ [now]) : time ∈ w.log ∨ some now = some time := by
    rcases List.mem_append.mp h with h | h
    · exact Or.inl h
    · rw [List.mem_singleton.mp h]
      exact Or.inr rfl
  cases op with
  | start now => exact hconcat htime
  | reset now => exact hconcat htime
  | check now =>
    simp only [timed] at htime
    split at htime
    · exact hconcat htime
    · exact Or.inl htime
  | _ => exact Or.inl htime

theorem checksWhenDue_concat {ops : List (Call Callback)} {op : Call Callback}
    (h : ClockRuns Call.time? (ops ++ [op])) :
    ChecksWhenDue intervalMs cb repeats (ops ++ [op]) ↔ CheckShown intervalMs cb repeats ops op := by
  have hsince : ((timed intervalMs cb repeats).run ops).timer.running = true →
      ((timed intervalMs cb repeats).run ops).log.getLast? =
        some ((timed intervalMs cb repeats).run ops).timer.last := by
    intro hrun
    rcases tracked_run intervalMs cb repeats ops with hlast | ⟨hstopped, -⟩
    · exact hlast
    · rw [hrun] at hstopped
      cases hstopped
  have hle : ∀ now, op = .check now →
      ((timed intervalMs cb repeats).run ops).timer.running = true →
        ((timed intervalMs cb repeats).run ops).timer.last ≤ now := by
    rintro now rfl hrun
    exact h.le (log_times intervalMs cb repeats ops _ (List.mem_of_getLast? (hsince hrun))) rfl
  constructor
  · rintro hdue now rfl timer hrun
    obtain ⟨since, hlast, hiff⟩ := hdue ops now rfl hrun
    rw [hsince hrun] at hlast
    cases hlast
    rw [check_fires hrun] at hiff
    exact (elapsedMs_exact _ (hle now rfl hrun)).mp hiff
  · intro hshown before now heq w hrun
    obtain ⟨rfl, hop⟩ := List.append_inj' heq rfl
    cases hop
    refine ⟨w.timer.last, hsince hrun, ?_⟩
    rw [check_fires hrun]
    exact (elapsedMs_exact _ (hle now rfl hrun)).mpr (hshown now rfl hrun)

/-- Over a whole history, every `check` of a running timer fires exactly when it is due if and only
if at every such `check` the cast shows an interval that is over. -/
theorem checksWhenDue_iff {ops : List (Call Callback)} (h : ClockRuns Call.time? ops) :
    Always (ChecksWhenDue intervalMs cb repeats) ops ↔
      EachOp (CheckShown intervalMs cb repeats) ops := by
  apply always_iff_of_closed (fun _ _ => ClockRuns.before) _ _ h
  · intro before now heq
    simp at heq
  · intro before op hclock _
    exact checksWhenDue_concat intervalMs cb repeats hclock

end Timer

/-- Tasks and timers fire exactly when they are due if and only if the cast shows every interval that
is over when they are looked at. -/
theorem fires_when_due_iff {Fn Callback : Type} {ops : List (TaskScheduler.Call Fn)}
    (hops : ClockRuns TaskScheduler.Call.time? ops) {calls : List (Timer.Call Callback)}
    (hcalls : ClockRuns Timer.Call.time? calls) (intervalMs : UInt32) (cb : Option Callback)
    (repeats : Bool) :
    (Always TaskScheduler.TicksWhenDue ops ↔ EachOp TaskScheduler.TickShown ops) ∧
      (Always (Timer.ChecksWhenDue intervalMs cb repeats) calls ↔
        EachOp (Timer.CheckShown intervalMs cb repeats) calls) :=
  ⟨TaskScheduler.ticksWhenDue_iff hops, Timer.checksWhenDue_iff intervalMs cb repeats hcalls⟩

/-- Registered or started, and looked at after 2^32 milliseconds. -/
def longPause : List (TaskScheduler.Call Unit) := [.addTask 0 1000 (some ()), .tick (2 ^ 32)]

def longWait : List (Timer.Call Unit) := [.start 0, .check (2 ^ 32)]

theorem fires_when_due_pause :
    (Always TaskScheduler.TicksWhenDue longPause ↔ EachOp TaskScheduler.TickShown longPause) ∧
      (Always (Timer.ChecksWhenDue 1000 (some ()) false) longWait ↔
        EachOp (Timer.CheckShown 1000 (some ()) false) longWait) :=
  fires_when_due_iff (by decide) (by decide) 1000 (some ()) false

/-- A task and a timer of one second do not fire after a pause of 2^32 milliseconds. -/
theorem fires_late :
    ¬ (∀ ops : List (TaskScheduler.Call Unit), ClockRuns TaskScheduler.Call.time? ops →
        Always TaskScheduler.TicksWhenDue ops) ∧
      ¬ (∀ calls : List (Timer.Call Unit), ClockRuns Timer.Call.time? calls →
        Always (Timer.ChecksWhenDue 1000 (some ()) false) calls) := by
  constructor
  · intro h
    obtain ⟨since, hsince, hiff⟩ := (h longPause (by decide)).last [.addTask 0 1000 (some ())]
      (2 ^ 32) rfl ⟨0, 1000, some (), 0⟩ (by decide)
    cases hsince
    revert hiff
    decide
  · intro h
    obtain ⟨since, hsince, hiff⟩ := (h longWait (by decide)).last [.start 0] (2 ^ 32) rfl rfl
    cases hsince
    revert hiff
    decide

end Patrol.Core
