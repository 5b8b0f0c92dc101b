import Patrol.Core.Reentrance
import Patrol.Core.Timing
import Patrol.ProofKit.Spacing

/-! How often tasks and timers fire.  The cast of the elapsed time can hide an interval that is over,
but it never shows one that is not: what fires has waited for its interval. -/

namespace Patrol.Core

open ProofKit

theorem ClockRuns.of_append {Call : Type} {time? : Call → Option Int} {ops more : List Call}
    (h : ClockRuns time? (ops ++ more)) : ClockRuns time? ops := by
  rw [ClockRuns, List.filterMap_append] at h
  exact (List.pairwise_append.mp h).1

/-- The cast does not show more time than has passed. -/
theorem elapsedMs_le {now last : Int} (h : last ≤ now) :
    ((elapsedMs now last).toNat : Int) ≤ now - last := by
  rw [elapsedMs_toNat]
  omega

/-- What is due has waited. -/
theorem waited_of_due {intervalMs : UInt32} {now last : Int} (h : last ≤ now)
    (hdue : intervalMs ≤ elapsedMs now last) : last + intervalMs.toNat ≤ now := by
  have hle := elapsedMs_le h
  have hcast := UInt32.le_iff_toNat_le.mp hdue
  omega

namespace TaskScheduler

variable {Fn Mem : Type}

/-- When a task was registered and when it ran, in a history. -/
def timesOf (id : Int) (log : List (Int × Int)) : List Int :=
  (log.filter fun e => e.1 = id).map Prod.snd

/-- The code that a call runs. -/
def calledBy (w : Timed Fn) : Call Fn → List Fn
  | .tick now => (w.sched.dueTasks now).filterMap ScheduledTask.fn
  | _ => []

/-- The code that a history runs, in order. -/
def called : Timed Fn → List (Call Fn) → List Fn
  | _, [] => []
  | w, c :: cs => calledBy w c ++ called ((timed Fn).step w c) cs

theorem timesOf_append (id : Int) (log log' : List (Int × Int)) :
    timesOf id (log ++ log') = timesOf id log ++ timesOf id log' := by
  rw [timesOf, List.filter_append, List.map_append]
  rfl

theorem timesOf_cons (id : Int) (e : Int × Int) (log : List (Int × Int)) :
    timesOf id (e :: log) = if e.1 = id then e.2 :: timesOf id log else timesOf id log := by
  unfold timesOf
  by_cases h : e.1 = id <;> simp [h]

/-- What a `tick` records of one task. -/
theorem timesOf_ran {ts : List (ScheduledTask Fn)} (h : (ts.map ScheduledTask.id).Nodup)
    (now id : Int) :
    timesOf id (ts.map fun t => (t.id, now)) =
      if id ∈ ts.map ScheduledTask.id then [now] else [] := by
  induction ts with
  | nil => rfl
  | cons t ts ih =>
    rw [List.map_cons, List.nodup_cons] at h
    rw [List.map_cons, timesOf_cons, ih h.2, List.map_cons]
    by_cases hid : t.id = id
    · subst hid
      simp [h.1]
    · simp [hid, Ne.symm hid]

/-- The state of a task with an id, in a history. -/
structure Paced (id : Int) (intervalMs : UInt32) (w : Timed Fn) : Prop where
  known : id < w.sched.nextId
  interval : ∀ t ∈ w.sched.tasks, t.id = id → t.intervalMs = intervalMs
  spaced : Spaced intervalMs.toNat (timesOf id w.log)

/-- The last time of a task is in its times. -/
theorem Tracked.getLast {w : Timed Fn} (h : Tracked w) {t : ScheduledTask Fn}
    (ht : t ∈ w.sched.tasks) : (timesOf t.id w.log).getLast? = some t.last :=
  h.since t ht

/-- A `tick` adds one time of a task if it runs the task, and none otherwise. -/
theorem timesOf_tick {w : Timed Fn} (h : Tracked w) (now id : Int) :
    timesOf id ((timed Fn).step w (.tick now)).log =
      timesOf id w.log ++ if id ∈ (w.sched.dueTasks now).map ScheduledTask.id then [now] else [] := by
  have hnodup : ((w.sched.dueTasks now).map ScheduledTask.id).Nodup :=
    h.nodup.sublist (List.filter_sublist.map _)
  rw [← timesOf_ran hnodup, ← timesOf_append]
  rfl

theorem Paced.addTask {w : Timed Fn} {id : Int} {intervalMs : UInt32} (h : Paced id intervalMs w)
    (now : Int) (ms : UInt32) (fn : Option Fn) :
    timesOf id ((timed Fn).step w (.addTask now ms fn)).log = timesOf id w.log ∧
      Paced id intervalMs ((timed Fn).step w (.addTask now ms fn)) := by
  have hne : w.sched.nextId ≠ id := Int.ne_of_gt h.known
  have htimes : timesOf id ((timed Fn).step w (.addTask now ms fn)).log = timesOf id w.log := by
    show timesOf id (w.log ++ [(w.sched.nextId, now)]) = _
    rw [timesOf_append, timesOf_cons, if_neg hne]
    exact List.append_nil _
  refine ⟨htimes, Int.lt_trans h.known (Int.lt_succ _), ?_, ?_⟩
  · intro t ht hid
    rcases List.mem_append.mp ht with ht | ht
    · exact h.interval t ht hid
    · rw [List.mem_singleton.mp ht] at hid
      exact absurd hid hne
  · rw [htimes]
    exact h.spaced

theorem Paced.tick {w : Timed Fn} {id : Int} {intervalMs : UInt32} (h : Paced id intervalMs w)
    (htracked : Tracked w) {now : Int} (hnow : ∀ t ∈ w.sched.tasks, t.last ≤ now) :
    Paced id intervalMs ((timed Fn).step w (.tick now)) := by
  refine ⟨h.known, ?_, ?_⟩
  · intro t' ht' hid
    obtain ⟨t, ht, rfl⟩ := List.mem_map.mp ht'
    rw [ScheduledTask.ticked_id] at hid
    rw [← h.interval t ht hid, ScheduledTask.ticked]
    split <;> rfl
  · rw [timesOf_tick htracked]
    split
    · next hran =>
      obtain ⟨t, hmem, rfl⟩ := List.mem_map.mp hran
      obtain ⟨ht, hdue⟩ := List.mem_filter.mp hmem
      apply h.spaced.concat (Int.natCast_nonneg _)
      intro last hlast
      rw [htracked.getLast ht] at hlast
      cases hlast
      rw [← h.interval t ht rfl]
      exact waited_of_due (hnow t ht) (of_decide_eq_true hdue)
    · rw [List.append_nil]
      exact h.spaced

/-- A task that is registered now has this one time. -/
theorem timesOf_registered {w : Timed Fn} (h : Tracked w) (now : Int) (ms : UInt32)
    (fn : Option Fn) :
    timesOf w.sched.nextId ((timed Fn).step w (.addTask now ms fn)).log = [now] := by
  have hnone : timesOf w.sched.nextId w.log = [] := by
    rw [timesOf, List.map_eq_nil_iff, List.filter_eq_nil_iff]
    intro e he
    simpa using Int.ne_of_lt (h.known e he)
  show timesOf w.sched.nextId (w.log ++ [(w.sched.nextId, now)]) = _
  rw [timesOf_append, hnone, timesOf_cons, if_pos rfl]
  rfl

theorem paced_registered {w : Timed Fn} (h : Tracked w) (now : Int) (ms : UInt32)
    (fn : Option Fn) : Paced w.sched.nextId ms ((timed Fn).step w (.addTask now ms fn)) := by
  refine ⟨Int.lt_succ _, ?_, ?_⟩
  · intro t ht hid
    rcases List.mem_append.mp ht with ht | ht
    · exact absurd hid (Int.ne_of_lt (h.fresh t ht))
    · rw [List.mem_singleton.mp ht]
  · rw [timesOf_registered h]
    exact spaced_singleton now

/-- What holds of a task once it is registered. -/
theorem paced_run {before after : List (Call Fn)} {now : Int} {ms : UInt32} {fn : Option Fn}
    (h : ClockRuns Call.time? (before ++ .addTask now ms fn :: after)) :
    let id := ((timed Fn).run before).sched.nextId
    let w := (timed Fn).run (before ++ .addTask now ms fn :: after)
    Paced id ms w ∧ ∃ ran, timesOf id w.log = now :: ran := by
  induction after using List.reverseRecOn with
  | nil =>
    have htracked := tracked_run before
    rw [Machine.run_concat]
    exact ⟨paced_registered htracked now ms fn, [], timesOf_registered htracked now ms fn⟩
  | append_singleton after op ih =>
    rw [← List.cons_append, ← List.append_assoc] at h ⊢
    obtain ⟨hpaced, ran, htimes⟩ := ih h.before
    have htracked := tracked_run (before ++ .addTask now ms fn :: after)
    intro id w
    show Paced id ms ((timed Fn).run _) ∧ ∃ ran, timesOf id ((timed Fn).run _).log = now :: ran
    rw [Machine.run_concat]
    cases op with
    | addTask now' ms' fn' =>
      obtain ⟨hsame, hpaced'⟩ := hpaced.addTask now' ms' fn'
      exact ⟨hpaced', ran, hsame.trans htimes⟩
    | removeTask id' =>
      refine ⟨⟨hpaced.known, ?_, hpaced.spaced⟩, ran, htimes⟩
      intro t ht
      exact hpaced.interval t (List.mem_of_mem_eraseP ht)
    | tick now' =>
      refine ⟨hpaced.tick htracked fun t ht => last_le h ht, ?_⟩
      rw [timesOf_tick htracked, htimes]
      exact ⟨_, List.cons_append⟩

/-- A task is no longer registered. -/
structure Gone (id : Int) (w : Timed Fn) : Prop where
  known : id < w.sched.nextId
  none : id ∉ w.sched.tasks.map ScheduledTask.id

theorem gone_removed {w : Timed Fn} (h : Tracked w) {id : Int} (hid : id < w.sched.nextId) :
    Gone id ((timed Fn).step w (.removeTask id)) := by
  refine ⟨hid, ?_⟩
  show id ∉ (w.sched.tasks.eraseP fun t => t.id = id).map ScheduledTask.id
  have herase : (w.sched.tasks.eraseP fun t => t.id = id).map ScheduledTask.id =
      (w.sched.tasks.map ScheduledTask.id).erase id := by
    rw [List.erase_eq_eraseP', List.eraseP_map]
    rfl
  rw [herase]
  exact h.nodup.not_mem_erase

/-- A task that is gone stays gone, and runs no more. -/
theorem Gone.step {w : Timed Fn} {id : Int} (h : Gone id w) (htracked : Tracked w) (op : Call Fn) :
    Gone id ((timed Fn).step w op) ∧ timesOf id ((timed Fn).step w op).log = timesOf id w.log := by
  have hne : w.sched.nextId ≠ id := Int.ne_of_gt h.known
  cases op with
  | addTask now ms fn =>
    refine ⟨⟨Int.lt_trans h.known (Int.lt_succ _), ?_⟩, ?_⟩
    · show id ∉ (w.sched.tasks ++ [_]).map ScheduledTask.id
      rw [List.map_append, List.mem_append, not_or]
      exact ⟨h.none, by simpa using hne.symm⟩
    · show timesOf id (w.log ++ [(w.sched.nextId, now)]) = _
      rw [timesOf_append, timesOf_cons, if_neg hne]
      exact List.append_nil _
  | removeTask id' =>
    refine ⟨⟨h.known, ?_⟩, rfl⟩
    intro hmem
    exact h.none ((List.eraseP_sublist.map _).subset hmem)
  | tick now =>
    have hids : ScheduledTask.id ∘ ScheduledTask.ticked now = ScheduledTask.id :=
      funext fun t : ScheduledTask Fn => ScheduledTask.ticked_id t now
    refine ⟨⟨h.known, ?_⟩, ?_⟩
    · show id ∉ (w.sched.tasks.map (ScheduledTask.ticked now)).map ScheduledTask.id
      rw [List.map_map, hids]
      exact h.none
    · rw [timesOf_tick htracked, if_neg, List.append_nil]
      intro hmem
      exact h.none ((List.filter_sublist.map _).subset hmem)

theorem timesOf_gone {before : List (Call Fn)} {id : Int} (h : Gone id ((timed Fn).run before))
    (after : List (Call Fn)) :
    timesOf id ((timed Fn).run (before ++ after)).log = timesOf id ((timed Fn).run before).log := by
  have hgone : Gone id ((timed Fn).run (before ++ after)) ∧ timesOf id
      ((timed Fn).run (before ++ after)).log = timesOf id ((timed Fn).run before).log := by
    induction after using List.reverseRecOn with
    | nil =>
      rw [List.append_nil]
      exact ⟨h, rfl⟩
    | append_singleton after op ih =>
      rw [← List.append_assoc, Machine.run_concat]
      obtain ⟨hstill, hsame⟩ := ih.1.step (tracked_run (before ++ after)) op
      exact ⟨hstill, hsame.trans ih.2⟩
  exact hgone.2

/-! ### Ids -/

/-- How many tasks a history registers. -/
def added (ops : List (Call Fn)) : Nat :=
  ops.countP fun
    | .addTask .. => true
    | _ => false

/-- Tasks are numbered in the order in which they are registered: the ids fit into an `int` in every
history of fewer than 2^31 tasks. -/
theorem nextId_run (ops : List (Call Fn)) : ((timed Fn).run ops).sched.nextId = added ops := by
  induction ops using List.reverseRecOn with
  | nil => rfl
  | append_singleton ops op ih =>
    rw [Machine.run_concat, added, List.countP_append, ← added]
    cases op with
    | addTask now ms fn => exact congrArg (· + 1) ih
    | removeTask id => exact ih
    | tick now => exact ih

/-! ### Runs with the mutex and the code of the tasks -/

/-- A call that returns has done what the history says, and has run the code of the tasks. -/
theorem step_timed {body : Fn → Body Fn Mem} (fuel : Nat) (c : Call Fn) {w : Timed Fn} {m : Mem}
    {w' : World Fn Mem} (h : step body (fuel + 2) c (⟨false, w.sched⟩, m) = .returned () w') :
    w'.1 = ⟨false, ((timed Fn).step w c).sched⟩ ∧
      (Prog.sequence ((calledBy w c).map body)).silent m = some ((), w'.2) := by
  by_cases hquiet : QuietCall body c (⟨false, w.sched⟩, m)
  · cases c with
    | addTask now ms fn =>
      cases h
      exact ⟨rfl, rfl⟩
    | removeTask id =>
      cases h
      exact ⟨rfl, rfl⟩
    | tick now =>
      obtain ⟨⟨u, m'⟩, hsilent⟩ := Option.isSome_iff_exists.mp hquiet
      rw [step, exec_tick_quiet (fuel + 1) hsilent] at h
      cases h
      exact ⟨rfl, hsilent⟩
  · obtain ⟨w'', hdead⟩ := step_call body fuel c _ rfl hquiet
    rw [hdead] at h
    cases h

/-- So has a run. -/
theorem runSteps_timed {body : Fn → Body Fn Mem} (fuel : Nat) {cs : List (Call Fn)} {w : Timed Fn}
    {m : Mem} {w' : World Fn Mem}
    (h : runSteps (step body (fuel + 2)) cs (⟨false, w.sched⟩, m) = .returned () w') :
    w'.1 = ⟨false, (cs.foldl (timed Fn).step w).sched⟩ ∧
      (Prog.sequence ((called w cs).map body)).silent m = some ((), w'.2) := by
  induction cs generalizing w m with
  | nil =>
    cases h
    exact ⟨rfl, rfl⟩
  | cons c cs ih =>
    obtain ⟨u, ⟨g, m'⟩, hfirst, hrest⟩ := Outcome.of_bind_returned h
    obtain ⟨hg, hcalled⟩ := step_timed fuel c hfirst
    cases hg
    obtain ⟨hsched, hmore⟩ := ih hrest
    refine ⟨hsched, ?_⟩
    rw [called, List.map_append, Prog.silent_sequence_append, hcalled]
    exact hmore

/-- Tasks are numbered from 0.  A task runs only once its interval is over since it was registered or
ran before, whatever else is registered, removed or run: so in every window of time it runs no more
often than the interval allows.  Once it is removed it does not run again.  A run of the scheduler with
its mutex, if it returns, has run the code of just these tasks. -/
theorem runs_paced {before after : List (Call Fn)} {now : Int} {ms : UInt32} {fn : Option Fn}
    (h : ClockRuns Call.time? (before ++ .addTask now ms fn :: after)) :
    let ops := before ++ .addTask now ms fn :: after
    let id := ((timed Fn).run before).sched.nextId
    let times := timesOf id ((timed Fn).run ops).log
    id = added before ∧ (∃ ran, times = now :: ran) ∧ Spaced ms.toNat times ∧
      (∀ a b, a ≤ b → ((within a b times).length : Int) * ms.toNat ≤ b - a + ms.toNat) ∧
      (∀ ran rest, after = ran ++ .removeTask id :: rest →
        times = timesOf id ((timed Fn).run (before ++ .addTask now ms fn :: ran)).log) ∧
      ∀ (body : Fn → Body Fn Mem) fuel m w,
        runSteps (step body (fuel + 2)) ops (⟨false, {}⟩, m) = .returned () w →
          w.1.obj = ((timed Fn).run ops).sched ∧
            (Prog.sequence ((called {} ops).map body)).silent m = some ((), w.2) := by
  intro ops id times
  obtain ⟨hpaced, hfirst⟩ := paced_run h
  refine ⟨nextId_run before, hfirst, hpaced.spaced, ?_, ?_, ?_⟩
  · intro a b hab
    exact hpaced.spaced.within_length (Int.natCast_nonneg _) hab
  · intro ran rest heq
    have hran : ops = (before ++ .addTask now ms fn :: ran ++ [.removeTask id]) ++ rest := by
      show before ++ .addTask now ms fn :: after = _
      simp [heq]
    have hclock : ClockRuns Call.time? (before ++ .addTask now ms fn :: ran) := by
      rw [heq, ← List.cons_append, ← List.append_assoc] at h
      exact h.of_append
    have hgone : Gone id
        ((timed Fn).run (before ++ .addTask now ms fn :: ran ++ [.removeTask id])) := by
      rw [Machine.run_concat]
      exact gone_removed (tracked_run _) (paced_run hclock).1.known
    show timesOf id ((timed Fn).run ops).log = _
    rw [hran, timesOf_gone hgone, Machine.run_concat]
    rfl
  · intro body fuel m w hrun
    obtain ⟨hsched, hcalled⟩ := runSteps_timed (w := {}) fuel hrun
    exact ⟨congrArg Guarded.obj hsched, hcalled⟩

/-- A task of one second that is looked at four times, and removed before the last. -/
def lookedAt : List (Call Unit) :=
  [.tick 1200, .tick 1900, .tick 2200, .removeTask 0, .tick 9000]

theorem runs_paced_lookedAt :
    timesOf 0 ((timed Unit).run (.addTask 100 1000 (some ()) :: lookedAt)).log =
        [100, 1200, 2200] ∧
      Spaced 1000 (timesOf 0 ((timed Unit).run (.addTask 100 1000 (some ()) :: lookedAt)).log) :=
  ⟨by decide, (@runs_paced Unit Unit [] lookedAt 100 1000 (some ()) (by decide)).2.2.1⟩

end TaskScheduler

namespace Timer

variable {Callback : Type} (intervalMs : UInt32) (cb : Option Callback) (repeats : Bool)

/-- When a call makes a timer fire. -/
def firedBy (w : Timed Callback) : Call Callback → List Int
  | .check now => if (w.timer.check now).2.1 then [now] else []
  | _ => []

/-- When a timer fires in a history. -/
def firings (w : Timed Callback) : List (Call Callback) → List Int
  | [] => []
  | c :: cs => firedBy w c ++ firings ((timed intervalMs cb repeats).step w c) cs

def Call.isStart : Call Callback → Bool
  | .start _ => true
  | _ => false

theorem firings_append (w : Timed Callback) (cs cs' : List (Call Callback)) :
    firings intervalMs cb repeats w (cs ++ cs') = firings intervalMs cb repeats w cs ++
      firings intervalMs cb repeats (cs.foldl (timed intervalMs cb repeats).step w) cs' := by
  induction cs generalizing w with
  | nil => rfl
  | cons c cs ih => rw [List.cons_append, firings, ih, firings, List.append_assoc, List.foldl_cons]

theorem firings_concat (cs : List (Call Callback)) (c : Call Callback) :
    firings intervalMs cb repeats (timed intervalMs cb repeats).init (cs ++ [c]) =
      firings intervalMs cb repeats (timed intervalMs cb repeats).init cs ++
        firedBy ((timed intervalMs cb repeats).run cs) c := by
  rw [firings_append, firings, firings, List.append_nil]
  rfl

/-- A timer in a history in which it fired at some times, with intervals of at least `gap`. -/
structure Paced (gap : UInt32) (fired : List Int) (w : Timed Callback) : Prop where
  interval : gap ≤ w.timer.interval
  logged : ∀ time ∈ fired, time ∈ w.log
  before : ∀ time ∈ fired, time ≤ w.timer.last
  spaced : Spaced gap.toNat fired

variable {intervalMs cb repeats}

/-- The calls of a history do not set a shorter interval than `gap`. -/
def KeepsInterval (gap : UInt32) (op : Call Callback) : Prop :=
  ∀ ms, op = .setInterval ms → gap ≤ ms

/-- A timer that fires has waited since it fired before. -/
theorem Paced.check {gap : UInt32} {fired : List Int} {w : Timed Callback}
    (h : Paced gap fired w) {now : Int} (hle : w.timer.running = true → w.timer.last ≤ now) :
    Paced gap (fired ++ firedBy w (.check now))
      ((timed intervalMs cb repeats).step w (.check now)) := by
  have hinterval : (w.timer.check now).1.interval = w.timer.interval := by
    rw [Timer.check]
    split
    · rfl
    · split <;> rfl
  have hlast := check_last w.timer now
  cases hfired : (w.timer.check now).2.1 with
  | false =>
    rw [hfired, if_neg Bool.false_ne_true] at hlast
    have hnone : firedBy w (.check now) = [] := by
      rw [firedBy, hfired]
      rfl
    have hlog : ((timed intervalMs cb repeats).step w (.check now)).log = w.log := by
      simp only [timed, hfired, Bool.false_eq_true, if_false]
    rw [hnone, List.append_nil]
    refine ⟨?_, ?_, ?_, h.spaced⟩
    · exact hinterval ▸ h.interval
    · rw [hlog]
      exact h.logged
    · intro time htime
      show time ≤ (w.timer.check now).1.last
      rw [hlast]
      exact h.before time htime
  | true =>
    have hrun : w.timer.running = true := by
      by_contra hstopped
      rw [check_running (Bool.not_eq_true _ ▸ hstopped)] at hfired
      cases hfired
    have hdue := (check_fires hrun now).mp hfired
    rw [hfired, if_pos rfl] at hlast
    have hone : firedBy w (.check now) = [now] := by
      rw [firedBy, hfired]
      rfl
    have hlog : ((timed intervalMs cb repeats).step w (.check now)).log = w.log ++ [now] := by
      simp only [timed, hfired, if_true]
    have hwaited := waited_of_due (hle hrun) hdue
    have hgap := UInt32.le_iff_toNat_le.mp h.interval
    rw [hone]
    refine ⟨?_, ?_, ?_, ?_⟩
    · exact hinterval ▸ h.interval
    · intro time htime
      rw [hlog]
      rcases List.mem_append.mp htime with htime | htime
      · exact List.mem_append_left _ (h.logged time htime)
      · exact List.mem_append_right _ htime
    · intro time htime
      show time ≤ (w.timer.check now).1.last
      rw [hlast]
      rcases List.mem_append.mp htime with htime | htime
      · exact Int.le_trans (h.before time htime) (hle hrun)
      · exact Int.le_of_eq (List.mem_singleton.mp htime)
    · apply h.spaced.concat (Int.natCast_nonneg _)
      intro last hlast
      have hbefore := h.before last (List.mem_of_getLast? hlast)
      omega

/-- So does one that is started or set back. -/
theorem Paced.touched {gap : UInt32} {fired : List Int} {w : Timed Callback}
    (h : Paced gap fired w) {now : Int} (hle : ∀ time ∈ w.log, time ≤ now) (running : Bool) :
    Paced gap fired { timer := { w.timer with last := now, running }, log := w.log ++ [now] } :=
  ⟨h.interval, fun time htime => List.mem_append_left _ (h.logged time htime),
    fun time htime => hle time (h.logged time htime), h.spaced⟩

theorem paced_run {gap : UInt32} (hgap : gap ≤ intervalMs) {ops : List (Call Callback)}
    (hclock : ClockRuns Call.time? ops) (hkeeps : ∀ op ∈ ops, KeepsInterval gap op) :
    Paced gap (firings intervalMs cb repeats (timed intervalMs cb repeats).init ops)
      ((timed intervalMs cb repeats).run ops) := by
  induction ops using List.reverseRecOn with
  | nil => exact ⟨hgap, nofun, nofun, spaced_nil⟩
  | append_singleton ops op ih =>
    simp only [List.forall_mem_append, List.forall_mem_singleton] at hkeeps
    have h := ih hclock.before hkeeps.1
    have hlog : ∀ now, Call.time? op = some now →
        ∀ time ∈ ((timed intervalMs cb repeats).run ops).log, time ≤ now :=
      fun now hnow time htime => hclock.le (log_times intervalMs cb repeats ops time htime) hnow
    rw [firings_concat, Machine.run_concat]
    cases op with
    | check now =>
      apply h.check
      intro hrun
      rcases tracked_run intervalMs cb repeats ops with hlast | ⟨hstopped, -⟩
      · exact hlog now rfl _ (List.mem_of_getLast? hlast)
      · rw [hrun] at hstopped
        cases hstopped
    | start now =>
      show Paced gap (_ ++ []) _
      rw [List.append_nil]
      exact h.touched (hlog now rfl) true
    | reset now =>
      show Paced gap (_ ++ []) _
      rw [List.append_nil]
      exact h.touched (hlog now rfl) _
    | setInterval ms =>
      show Paced gap (_ ++ []) _
      rw [List.append_nil]
      exact ⟨hkeeps.2 ms rfl, h.logged, h.before, h.spaced⟩
    | _ =>
      show Paced gap (_ ++ []) _
      rw [List.append_nil]
      exact ⟨h.interval, h.logged, h.before, h.spaced⟩

/-- A timer that is stopped does not fire until it is started. -/
theorem firings_stopped {w : Timed Callback} (h : w.timer.running = false)
    {cs : List (Call Callback)} (hcs : ∀ c ∈ cs, c.isStart = false) :
    firings intervalMs cb repeats w cs = [] := by
  induction cs generalizing w with
  | nil => rfl
  | cons c cs ih =>
    have hrest := fun c' hc' => hcs c' (List.mem_cons_of_mem c hc')
    cases c with
    | start now => cases hcs (.start now) List.mem_cons_self
    | check now =>
      have hcheck := check_running h now
      rw [firings, firedBy, hcheck, if_neg Bool.false_ne_true, List.nil_append]
      apply ih _ hrest
      show (w.timer.check now).1.running = false
      rw [hcheck]
      exact h
    | stop => exact ih rfl hrest
    | _ => exact ih h hrest

/-- The calls of a history leave a timer one that fires once. -/
def KeepsOnce (op : Call Callback) : Prop :=
  ∀ r, op = .setRepeat r → r = false

/-- When a timer that fires once fires, it has been running and stops. -/
theorem check_once {w : Timed Callback} (h : w.timer.repeats = false) (now : Int) :
    let w' := (timed intervalMs cb repeats).step w (.check now)
    w'.timer.repeats = false ∧
      (firedBy w (.check now)).length + w'.timer.running.toNat = w.timer.running.toNat := by
  simp only [timed, firedBy, Timer.check]
  by_cases hrun : w.timer.running = true
  · by_cases hlt : elapsedMs now w.timer.last < w.timer.interval <;> simp [h, hrun, hlt]
  · simp [h, hrun]

/-- One that fires once has been started for every time that it fired, and for the time that is to
come. -/
theorem firings_once {ops : List (Call Callback)} (hkeeps : ∀ op ∈ ops, KeepsOnce op) :
    let w := (timed intervalMs cb false).run ops
    w.timer.repeats = false ∧
      (firings intervalMs cb false (timed intervalMs cb false).init ops).length +
        w.timer.running.toNat ≤ ops.countP Call.isStart := by
  induction ops using List.reverseRecOn with
  | nil => exact ⟨rfl, Nat.le_refl 0⟩
  | append_singleton ops op ih =>
    simp only [List.forall_mem_append, List.forall_mem_singleton] at hkeeps
    obtain ⟨honce, hcount⟩ := ih hkeeps.1
    simp only [Machine.run_concat, firings_concat, List.length_append, List.countP_append]
    generalize (timed intervalMs cb false).run ops = w at honce hcount ⊢
    cases op with
    | start now =>
      refine ⟨honce, ?_⟩
      show _ + 0 + 1 ≤ _ + 1
      omega
    | stop =>
      refine ⟨honce, ?_⟩
      show _ + 0 + 0 ≤ _ + 0
      omega
    | setRepeat r => exact ⟨hkeeps.2 r rfl, hcount⟩
    | check now =>
      obtain ⟨hkept, hfired⟩ := @check_once _ intervalMs cb false w honce now
      refine ⟨hkept, ?_⟩
      rw [Nat.add_assoc, hfired]
      exact hcount
    | _ => exact ⟨honce, hcount⟩

/-- A timer fires only once its interval is over since it was started, set back or fired before, so
no more often than its shortest interval allows.  One that is stopped does not fire until it is
started, and one that fires once fires at most once for each time that it is started. -/
theorem timer_paced {gap : UInt32} (hgap : gap ≤ intervalMs) {ops : List (Call Callback)}
    (hclock : ClockRuns Call.time? ops) (hkeeps : ∀ op ∈ ops, KeepsInterval gap op) :
    let M := timed intervalMs cb repeats
    let fired := firings intervalMs cb repeats M.init ops
    Spaced gap.toNat fired ∧
      (∀ a b, a ≤ b → ((within a b fired).length : Int) * gap.toNat ≤ b - a + gap.toNat) ∧
      (∀ before rest, ops = before ++ .stop :: rest → (∀ c ∈ rest, c.isStart = false) →
        fired = firings intervalMs cb repeats M.init before) ∧
      (repeats = false → (∀ op ∈ ops, KeepsOnce op) → fired.length ≤ ops.countP Call.isStart) := by
  intro M fired
  have hspaced : Spaced gap.toNat fired := (paced_run hgap hclock hkeeps).spaced
  refine ⟨hspaced, ?_, ?_, ?_⟩
  · intro a b hab
    exact hspaced.within_length (Int.natCast_nonneg _) hab
  · intro before rest heq hrest
    have hstopped : firings intervalMs cb repeats
        (M.step (before.foldl M.step M.init) .stop) rest = [] := firings_stopped rfl hrest
    show firings intervalMs cb repeats M.init ops = _
    rw [heq, firings_append, firings, hstopped]
    exact List.append_nil _
  · rintro rfl honce
    exact Nat.le_trans (Nat.le_add_right _ _) (@firings_once _ intervalMs cb ops honce).2

/-- A timer of one second that fires once, started twice. -/
def startedTwice : List (Call Unit) :=
  [.start 0, .check 500, .check 1100, .check 3000, .start 3000, .check 4500, .check 9000]

theorem timer_paced_startedTwice :
    firings 1000 (some ()) false (timed 1000 (some ()) false).init startedTwice = [1100, 4500] ∧
      Spaced 1000
        (firings 1000 (some ()) false (timed 1000 (some ()) false).init startedTwice) := by
  have hkeeps : ∀ op ∈ startedTwice, KeepsInterval 1000 op := by
    rintro op hop ms rfl
    simp [startedTwice] at hop
  exact ⟨by decide, (timer_paced (by decide) (by decide) hkeeps).1⟩

end Timer

end Patrol.Core
