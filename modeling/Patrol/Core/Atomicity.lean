import Patrol.Core.Locking
import Patrol.Core.Publishing

/-! Threads on a bus with its lock.  They see each call of a method take effect at once, at the moment
when it gives the lock back, and no call waits for a handler. -/

namespace Patrol.Core

open ProofKit

section Threads

variable (Handler Data : Type)

/-- The bus under its lock, and the rest of `World`. -/
structure LockedWorld where
  monitor : Mutex.State Nat (EventBus Handler) (BusJob Handler Data) := Mutex.start {}
  frames : List (Frame Handler Data) := []
  pubs : Nat := 0
  log : List (Entry Handler Data) := []

/-- A step of a thread: it calls a method, takes the lock, does a step under the lock, or goes on in the
loop of `publish` outside of it. -/
inductive LockedStep
  | call (thread : Nat) (c : BusCall Handler Data)
  | lock (thread : Nat)
  | work (thread : Nat)
  | callNext (thread : Nat)
  | handlerReturns (thread : Nat)
  | handlerThrows (thread : Nat)
  | publishReturns (thread : Nat)

end Threads

variable {Handler Data : Type}

/-- What a thread does when it has given the lock back: `subscribe` and `unsubscribe` return, and
`publish` starts its loop. -/
def World.finish (w : World Handler Data) (t : Nat) : BusResult Handler Data → World Handler Data
  | .subscribed event sub => { w with log := w.log ++ [.subscribed event sub] }
  | .unsubscribed id => { w with log := w.log ++ [.unsubscribed id] }
  | .copied event data hs =>
    { w with
      frames := { thread := t, pub := w.pubs, event, data, hs } :: w.frames
      pubs := w.pubs + 1
      log := w.log ++ [.published w.pubs event data hs] }

namespace LockedWorld

/-- What there is at the moment, the lock aside. -/
def world (w : LockedWorld Handler Data) : World Handler Data :=
  ⟨w.monitor.shared, w.frames, w.pubs, w.log⟩

def call (w : LockedWorld Handler Data) (t : Nat) (c : BusCall Handler Data) :
    LockedWorld Handler Data :=
  if w.world.runsCode t then
    match Mutex.step EventBus.jobs w.monitor (.ask t c.job) with
    | some monitor => { w with monitor }
    | none => w
  else w

def lock (w : LockedWorld Handler Data) (t : Nat) : LockedWorld Handler Data :=
  match Mutex.step EventBus.jobs w.monitor (.lock t) with
  | some monitor => { w with monitor }
  | none => w

def work (w : LockedWorld Handler Data) (t : Nat) : LockedWorld Handler Data :=
  match Mutex.step EventBus.jobs w.monitor (.work t) with
  | some monitor =>
    match w.monitor.place t with
    | .inside (.done r) =>
      let v := w.world.finish t r
      ⟨monitor, v.frames, v.pubs, v.log⟩
    | _ => { w with monitor }
  | none => w

/-- A step of the loop of `publish`, of a thread that is in no other call. -/
def outside (w : LockedWorld Handler Data) (t : Nat)
    (f : World Handler Data → World Handler Data) : LockedWorld Handler Data :=
  match w.monitor.place t with
  | .outside =>
    let v := f w.world
    ⟨w.monitor, v.frames, v.pubs, v.log⟩
  | _ => w

end LockedWorld

/-- The threads on one bus, with its lock.  A step that a thread cannot take in a state changes
nothing. -/
def lockedThreads (Handler Data : Type) :
    Machine (LockedWorld Handler Data) (LockedStep Handler Data) where
  init := {}
  step w
    | .call t c => w.call t c
    | .lock t => w.lock t
    | .work t => w.work t
    | .callNext t => w.outside t (·.callNext t)
    | .handlerReturns t => w.outside t (·.handlerReturns t)
    | .handlerThrows t => w.outside t (·.handlerThrows t)
    | .publishReturns t => w.outside t (·.publishReturns t)

/-! ### The steps outside of the lock -/

namespace World

theorem find?_replaceTop {t t' : Nat} (hne : t' ≠ t) {fs : List (Frame Handler Data)}
    (hfs : ∀ f ∈ fs, f.thread = t) (frames : List (Frame Handler Data)) :
    (replaceTop t fs frames).find? (fun f => f.thread = t') = frames.find? fun f => f.thread = t' := by
  induction frames with
  | nil => rfl
  | cons g frames ih =>
    rw [replaceTop]
    split
    · next hg =>
      have hnone : fs.find? (fun f => decide (f.thread = t')) = none := by
        rw [List.find?_eq_none]
        intro f hf
        rw [decide_eq_true_eq, hfs f hf]
        exact hne.symm
      rw [List.find?_append, hnone, Option.none_or, List.find?_cons_of_neg]
      rw [decide_eq_true_eq, hg]
      exact hne.symm
    · rw [List.find?_cons, List.find?_cons, ih]

/-- Where calls of a thread take the place of its innermost one, other threads have theirs. -/
theorem top_replaced {w : World Handler Data} {t t' : Nat} (hne : t' ≠ t) {f : Frame Handler Data}
    (htop : w.top t = some f) {fs : List (Frame Handler Data)} (hfs : ∀ g ∈ fs, g.thread = f.thread)
    (log : List (Entry Handler Data)) :
    World.top { w with frames := replaceTop f.thread fs w.frames, log } t' = w.top t' := by
  obtain rfl := (top_split htop).1
  exact find?_replaceTop hne hfs w.frames

/-- A step of the loop of `publish`: it does not read or change the bus, and it leaves the stacks of
other threads alone. -/
structure OnStack (t : Nat) (f : World Handler Data → World Handler Data) : Prop where
  bus : ∀ w bus, f { w with bus } = { f w with bus }
  top : ∀ w t', t' ≠ t → (f w).top t' = w.top t'

theorem onStack_callNext (t : Nat) : OnStack t fun w : World Handler Data => w.callNext t where
  bus w bus := by
    have htop : World.top { w with bus } t = w.top t := rfl
    simp only [callNext, htop]
    split
    · split <;> rfl
    · rfl
  top w t' hne := by
    rw [callNext]
    split
    · next htop =>
      split
      · exact top_replaced hne htop (by simp) _
      · exact top_replaced hne htop (by simp) _
    · rfl

theorem onStack_handlerReturns (t : Nat) :
    OnStack t fun w : World Handler Data => w.handlerReturns t where
  bus w bus := by
    have htop : World.top { w with bus } t = w.top t := rfl
    simp only [handlerReturns, htop]
    split <;> rfl
  top w t' hne := by
    rw [handlerReturns]
    split
    · next htop => exact top_replaced hne htop (by simp) _
    · rfl

theorem onStack_handlerThrows (t : Nat) :
    OnStack t fun w : World Handler Data => w.handlerThrows t where
  bus w bus := by
    have htop : World.top { w with bus } t = w.top t := rfl
    simp only [handlerThrows, htop]
    split <;> rfl
  top w t' hne := by
    rw [handlerThrows]
    split
    · next htop => exact top_replaced hne htop (by simp) _
    · rfl

theorem onStack_publishReturns (t : Nat) :
    OnStack t fun w : World Handler Data => w.publishReturns t where
  bus w bus := by
    have htop : World.top { w with bus } t = w.top t := rfl
    simp only [publishReturns, htop]
    split <;> rfl
  top w t' hne := by
    rw [publishReturns]
    split
    · next htop => exact top_replaced hne htop (by simp) _
    · rfl

/-- What a thread does after it has given the lock back leaves the stacks of other threads alone. -/
theorem top_finish (w : World Handler Data) {t t' : Nat} (hne : t' ≠ t)
    (r : BusResult Handler Data) : (w.finish t r).top t' = w.top t' := by
  cases r with
  | subscribed event sub => rfl
  | unsubscribed id => rfl
  | copied event data hs =>
    rw [finish, top, top, List.find?_cons_of_neg]
    rw [decide_eq_true_eq]
    exact hne.symm

end World

/-! ### Every call takes effect at once -/

namespace BusCall

def step (t : Nat) : BusCall Handler Data → Step Handler Data
  | .subscribe event h => .subscribe t event h
  | .unsubscribe id => .unsubscribe t id
  | .publish event data => .publish t event data

/-- A call that a thread makes at once. -/
theorem step_step {v : World Handler Data} {t : Nat} (h : v.runsCode t) (c : BusCall Handler Data) :
    (threads Handler Data).step v (c.step t) =
      World.finish { v with bus := c.after v.bus } t (c.result v.bus) := by
  cases c with
  | subscribe event sub => exact if_pos h
  | unsubscribe id => exact if_pos h
  | publish event data => exact if_pos h

end BusCall

/-- The jobs that have been given the lock and are done. -/
def finished (locked : Bool) (order : List (Nat × BusJob Handler Data)) :
    List (Nat × BusJob Handler Data) :=
  if locked then order.dropLast else order

/-- The threads in `w` see what they would see in `v`, where calls take effect at once: `v` has what is
on the stacks and in the history, and its bus is the one without the call that has the lock. -/
structure Refines (w : LockedWorld Handler Data) (v : World Handler Data)
    (jobs order : List (Nat × BusJob Handler Data)) : Prop where
  ordered : Mutex.Ordered EventBus.jobs {} jobs order w.monitor
  calls : ∀ a ∈ jobs, ∃ c : BusCall Handler Data, a.2 = c.job
  bus : v.bus = Mutex.serial EventBus.jobs {} (finished w.monitor.locked order)
  others : v = { w.world with bus := v.bus }
  runs : ∀ t, w.monitor.place t ≠ .outside → v.runsCode t

variable {w : LockedWorld Handler Data} {v : World Handler Data}
  {jobs order : List (Nat × BusJob Handler Data)}

theorem refines_init : Refines ({} : LockedWorld Handler Data) {} [] [] where
  ordered := Mutex.ordered_start _ _
  calls := nofun
  bus := rfl
  others := rfl
  runs _ h := absurd rfl h

theorem Refines.top (h : Refines w v jobs order) (t : Nat) : v.top t = w.world.top t := by
  rw [h.others]
  rfl

theorem Refines.call (h : Refines w v jobs order) (t : Nat) (c : BusCall Handler Data) :
    ∃ jobs, Refines (w.call t c) v jobs order := by
  rw [LockedWorld.call]
  split
  · next hruns =>
    split
    · next monitor hstep =>
      rw [Mutex.step] at hstep
      split at hstep
      · next hplace =>
        cases hstep
        refine ⟨jobs ++ [(t, c.job)], h.ordered.ask c.job hplace, ?_, h.bus, h.others, ?_⟩
        · simp only [List.forall_mem_append, List.forall_mem_singleton]
          exact ⟨h.calls, c, rfl⟩
        · intro t' ht'
          by_cases heq : t' = t
          · rw [heq, World.runsCode, h.top]
            exact hruns
          · dsimp only at ht'
            rw [Function.update_of_ne heq] at ht'
            exact h.runs t' ht'
      · cases hstep
    · exact ⟨jobs, h⟩
  · exact ⟨jobs, h⟩

theorem Refines.lock (h : Refines w v jobs order) (t : Nat) :
    ∃ order, Refines (w.lock t) v jobs order := by
  rw [LockedWorld.lock]
  split
  · next monitor hstep =>
    rw [Mutex.step] at hstep
    split at hstep
    · next job hplace hfree =>
      cases hstep
      refine ⟨order ++ [(t, job)], h.ordered.lock hplace hfree, h.calls, ?_, h.others, ?_⟩
      · rw [h.bus, hfree]
        exact congrArg _ List.dropLast_concat.symm
      · intro t' ht'
        apply h.runs t'
        by_cases heq : t' = t
        · rw [heq, hplace]
          intro hout
          cases hout
        · dsimp only at ht'
          rwa [Function.update_of_ne heq] at ht'
    · cases hstep
  · exact ⟨order, h⟩

/-- A thread that has more to do under the lock. -/
theorem Refines.act (h : Refines w v jobs order) {t : Nat} {job rest : BusJob Handler Data}
    {bus : EventBus Handler} (hplace : w.monitor.place t = .inside job)
    (hact : EventBus.act job w.monitor.shared = (some rest, bus)) :
    Refines { w with
      monitor := { w.monitor with
        shared := bus
        place := Function.update w.monitor.place t (.inside rest) } } v jobs order where
  ordered := h.ordered.work hplace hact
  calls := h.calls
  bus := h.bus
  others := h.others
  runs t' ht' := by
    apply h.runs t'
    by_cases heq : t' = t
    · rw [heq, hplace]
      intro hout
      cases hout
    · dsimp only at ht'
      rwa [Function.update_of_ne heq] at ht'

/-- A thread that has done its call: the call takes effect, all of it. -/
theorem Refines.leave (h : Refines w v jobs order) {t : Nat} {r : BusResult Handler Data}
    (hplace : w.monitor.place t = .inside (.done r)) :
    let v' := w.world.finish t r
    ∃ c : BusCall Handler Data,
      Refines ⟨⟨w.monitor.shared, false, Function.update w.monitor.place t .outside⟩,
        v'.frames, v'.pubs, v'.log⟩ ((threads Handler Data).step v (c.step t)) jobs order := by
  intro v'
  obtain ⟨job, before, horder, hpart, hone⟩ := h.ordered.part hplace
  have hmem : (t, job) ∈ jobs := h.ordered.mem_jobs (by simp [horder])
  obtain ⟨c, hc⟩ := h.calls _ hmem
  dsimp only at hc
  have hbus : v.bus = Mutex.serial EventBus.jobs {} before := by
    rw [h.bus, h.ordered.locked hplace, horder]
    exact congrArg _ List.dropLast_concat
  rw [hc, ← hbus] at hpart
  obtain ⟨hshared, hresult⟩ := BusCall.eq_of_done hpart
  have hruns : v.runsCode t := h.runs t (by simp [hplace])
  have hworld : { v with bus := c.after v.bus } = w.world := by
    rw [← hshared, h.others]
    rfl
  refine ⟨c, ?_⟩
  rw [BusCall.step_step hruns, ← hresult, hworld]
  have hordered := h.ordered.leave hplace (y := w.monitor.shared) rfl
  refine ⟨hordered, h.calls, ?_, ?_, ?_⟩
  · rw [show (w.world.finish t r).bus = w.monitor.shared by cases r <;> rfl]
    exact (hordered.free rfl).2
  · cases r <;> rfl
  · intro t' ht'
    by_cases heq : t' = t
    · rw [heq] at ht'
      exact absurd (Function.update_self t _ _) ht'
    · dsimp only at ht'
      rw [Function.update_of_ne heq] at ht'
      rw [World.runsCode, World.top_finish _ heq, ← h.top]
      exact h.runs t' ht'

theorem Refines.work (h : Refines w v jobs order) (t : Nat) :
    ∃ more : List (Step Handler Data),
      Refines (w.work t) (more.foldl (threads Handler Data).step v) jobs order := by
  rw [LockedWorld.work]
  split
  · next monitor hstep =>
    rw [Mutex.step] at hstep
    split at hstep
    · next job hplace =>
      split at hstep
      · next rest bus hact =>
        cases hstep
        refine ⟨[], ?_⟩
        rw [hplace]
        split
        · next hdone =>
          cases hdone
          cases hact
        · exact h.act hplace hact
      · next bus hact =>
        cases hstep
        obtain ⟨⟨r, rfl⟩, rfl⟩ := EventBus.act_none hact
        obtain ⟨c, hrefines⟩ := h.leave hplace
        refine ⟨[c.step t], ?_⟩
        rw [hplace]
        exact hrefines
    · cases hstep
  · exact ⟨[], h⟩

/-- A step of the loop of `publish`. -/
theorem Refines.outside (h : Refines w v jobs order) {t : Nat}
    {f : World Handler Data → World Handler Data} (hf : World.OnStack t f)
    (step : Step Handler Data) (hstep : (threads Handler Data).step v step = f v) :
    ∃ more : List (Step Handler Data),
      Refines (w.outside t f) (more.foldl (threads Handler Data).step v) jobs order := by
  rw [LockedWorld.outside]
  split
  · next hplace =>
    refine ⟨[step], ?_⟩
    have hworld : f v = { f w.world with bus := v.bus } := by
      rw [← hf.bus, ← h.others]
    show Refines _ ((threads Handler Data).step v step) _ _
    rw [hstep, hworld]
    refine ⟨h.ordered, h.calls, h.bus, rfl, ?_⟩
    intro t' ht'
    have hne : t' ≠ t := by
      rintro rfl
      exact ht' hplace
    rw [← hworld, World.runsCode, hf.top v t' hne]
    exact h.runs t' ht'
  · exact ⟨[], h⟩

theorem Refines.step (h : Refines w v jobs order) (step : LockedStep Handler Data) :
    ∃ (more : List (Step Handler Data)) (jobs order : _),
      Refines ((lockedThreads Handler Data).step w step)
        (more.foldl (threads Handler Data).step v) jobs order := by
  cases step with
  | call t c =>
    obtain ⟨jobs, hcall⟩ := h.call t c
    exact ⟨[], jobs, order, hcall⟩
  | lock t =>
    obtain ⟨order, hlock⟩ := h.lock t
    exact ⟨[], jobs, order, hlock⟩
  | work t =>
    obtain ⟨more, hwork⟩ := h.work t
    exact ⟨more, jobs, order, hwork⟩
  | callNext t =>
    obtain ⟨more, hnext⟩ := h.outside (World.onStack_callNext t) (.callNext t) rfl
    exact ⟨more, jobs, order, hnext⟩
  | handlerReturns t =>
    obtain ⟨more, hreturns⟩ := h.outside (World.onStack_handlerReturns t) (.handlerReturns t) rfl
    exact ⟨more, jobs, order, hreturns⟩
  | handlerThrows t =>
    obtain ⟨more, hthrows⟩ := h.outside (World.onStack_handlerThrows t) (.handlerThrows t) rfl
    exact ⟨more, jobs, order, hthrows⟩
  | publishReturns t =>
    obtain ⟨more, hreturns⟩ := h.outside (World.onStack_publishReturns t) (.publishReturns t) rfl
    exact ⟨more, jobs, order, hreturns⟩

/-! ### Every order of steps -/

/-- What the threads have seen is what they have seen in `v`, and so is the bus when nobody has the
lock. -/
structure Sees (w : LockedWorld Handler Data) (v : World Handler Data) : Prop where
  log : w.log = v.log
  frames : w.frames = v.frames
  bus : w.monitor.locked = false → w.monitor.shared = v.bus

theorem Refines.sees (h : Refines w v jobs order) : Sees w v where
  log := by rw [h.others]; rfl
  frames := by rw [h.others]; rfl
  bus hfree := by
    rw [(h.ordered.free hfree).2, h.bus, hfree]
    rfl

/-- However the steps of the threads under the lock and outside of it mix, the threads see a run in
which each call of a method takes effect at once, at its own time. -/
theorem bus_atomic (steps : List (LockedStep Handler Data)) :
    ∃ parts : List (List (Step Handler Data)), parts.length = steps.length ∧
      ∀ n, Sees ((lockedThreads Handler Data).run (steps.take n))
        ((threads Handler Data).run (parts.take n).flatten) := by
  obtain ⟨parts, hlength, hmatched⟩ := (lockedThreads Handler Data).run_matched
    (threads Handler Data) (R := fun w v => ∃ jobs order, Refines w v jobs order) ⟨[], [], refines_init⟩
    (fun w v step ⟨_, _, h⟩ => h.step step) steps
  refine ⟨parts, hlength, fun n => ?_⟩
  obtain ⟨jobs, order, hrefines⟩ := hmatched n
  exact hrefines.sees

/-! ### No call waits for a handler -/

/-- A step to or under the lock: no handler starts or ends in it. -/
def LockedStep.UnderLock : LockedStep Handler Data → Prop
  | .lock _ => True
  | .work _ => True
  | _ => False

/-- What the lock allows, the threads can do. -/
theorem run_monitor {es : List (Mutex.Event Nat (BusJob Handler Data))} (hasked : Mutex.asked es = [])
    (w : LockedWorld Handler Data) {monitor : Mutex.State Nat (EventBus Handler) (BusJob Handler Data)}
    (hrun : Mutex.run EventBus.jobs w.monitor es = some monitor) :
    ∃ more : List (LockedStep Handler Data), (∀ step ∈ more, step.UnderLock) ∧
      (more.foldl (lockedThreads Handler Data).step w).monitor = monitor := by
  induction es generalizing w with
  | nil => exact ⟨[], nofun, Option.some.inj hrun⟩
  | cons e es ih =>
    obtain ⟨m, hstep, hrest⟩ := Option.bind_eq_some_iff.mp hrun
    cases e with
    | ask i job => cases hasked
    | lock i =>
      have hlock : (w.lock i).monitor = m := by rw [LockedWorld.lock, hstep]
      obtain ⟨more, hunder, hmore⟩ := ih hasked (w.lock i) (by rw [hlock, hrest])
      exact ⟨.lock i :: more, List.forall_mem_cons.mpr ⟨trivial, hunder⟩, hmore⟩
    | work i =>
      have hwork : (w.work i).monitor = m := by
        rw [LockedWorld.work, hstep]
        dsimp only
        split <;> rfl
      obtain ⟨more, hunder, hmore⟩ := ih hasked (w.work i) (by rw [hwork, hrest])
      exact ⟨.work i :: more, List.forall_mem_cons.mpr ⟨trivial, hunder⟩, hmore⟩

/-- There is no deadlock on a bus: wherever a thread is in a call of a method, also of one that a
handler makes, it can come to the end of what it does under the lock, and no handler has to return for
that. -/
theorem bus_call_ends (steps : List (LockedStep Handler Data)) (t : Nat) :
    ∃ more : List (LockedStep Handler Data), (∀ step ∈ more, step.UnderLock) ∧
      ((lockedThreads Handler Data).run (steps ++ more)).monitor.place t = .outside := by
  obtain ⟨v, jobs, order, h⟩ : ∃ v jobs order,
      Refines ((lockedThreads Handler Data).run steps) v jobs order := by
    apply Machine.run_invariant (I := fun w => ∃ v jobs order, Refines w v jobs order)
    · exact ⟨_, _, _, refines_init⟩
    · rintro w step ⟨v, jobs, order, h⟩
      obtain ⟨more, jobs, order, hstep⟩ := h.step step
      exact ⟨_, _, _, hstep⟩
  generalize hw : (lockedThreads Handler Data).run steps = w at h
  simp only [Machine.run_append, hw]
  cases hplace : w.monitor.place t with
  | outside => exact ⟨[], nofun, hplace⟩
  | waiting job =>
    obtain ⟨es, monitor, hrun, hserves, -, hout, -⟩ := h.ordered.served hplace
    obtain ⟨more, hunder, hmore⟩ := run_monitor (Mutex.asked_of_serves hserves) w hrun
    exact ⟨more, hunder, by rw [hmore, hout]⟩
  | inside job =>
    obtain ⟨n, hrun⟩ := Mutex.run_leave (J := EventBus.jobs) hplace
    obtain ⟨more, hunder, hmore⟩ := run_monitor (Mutex.asked_work n t) w hrun
    refine ⟨more, hunder, ?_⟩
    rw [hmore]
    exact Function.update_self t _ _

end Patrol.Core
