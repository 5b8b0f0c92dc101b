import Mathlib.Data.List.Induction
import Mathlib.Data.Nat.Init
import Mathlib.Logic.Function.Basic

/-! Threads that share a state under one lock.  What a thread does while it has the lock is a job, which
goes on step by step until nothing is left of it.  The steps of the threads come in any order, and still
the shared state is what whole jobs make of it, one after another. -/

namespace ProofKit

/-- Jobs: what one step of a job makes of the shared state, and what is then left of the job.  Each step
leaves less to do. -/
structure Jobs (Shared Job : Type*) where
  act : Job → Shared → Option Job × Shared
  size : Job → Shared → Nat
  size_act : ∀ job x rest y, act job x = (some rest, y) → size rest y < size job x

/-- Where a thread is. -/
inductive Place (Job : Type*)
  | outside
  | waiting (job : Job)
  | inside (rest : Job)
deriving DecidableEq, Repr

namespace Place

variable {Job : Type*}

/-- What a thread waits to do. -/
def pending : Place Job → List Job
  | .waiting job => [job]
  | _ => []

end Place

namespace Jobs

variable {Shared Job : Type*} (J : Jobs Shared Job)

/-- A job that nothing interrupts. -/
def whole (job : Job) (x : Shared) : Shared :=
  match _h : J.act job x with
  | (none, y) => y
  | (some rest, y) => whole rest y
termination_by J.size job x
decreasing_by exact J.size_act job x rest y _h

theorem whole_of_done {job : Job} {x y : Shared} (h : J.act job x = (none, y)) :
    J.whole job x = y := by
  rw [whole]
  split <;> simp_all

theorem whole_of_rest {job rest : Job} {x y : Shared} (h : J.act job x = (some rest, y)) :
    J.whole job x = J.whole rest y := by
  rw [whole]
  split <;> simp_all

/-- A part of a job: what has become of the shared state, and what is left of the job. -/
inductive Part (job : Job) (x : Shared) : Job → Shared → Prop
  | start : Part job x job x
  | act {rest rest' : Job} {y z : Shared} (h : Part job x rest y)
      (hact : J.act rest y = (some rest', z)) : Part job x rest' z

/-- What is left of a job does the rest of it. -/
theorem Part.whole {job rest : Job} {x y : Shared} (h : J.Part job x rest y) :
    J.whole rest y = J.whole job x := by
  induction h with
  | start => rfl
  | act h hact ih => rw [← J.whole_of_rest hact, ih]

end Jobs

namespace Mutex

/-- What is shared, whether the lock is taken, and where the threads are. -/
structure State (Thread Shared Job : Type*) where
  shared : Shared
  locked : Bool
  place : Thread → Place Job

inductive Event (Thread Job : Type*)
  | ask (i : Thread) (job : Job)
  | lock (i : Thread)
  | work (i : Thread)

variable {Thread Shared Job : Type*} (J : Jobs Shared Job)

def start (x : Shared) : State Thread Shared Job := ⟨x, false, fun _ => .outside⟩

/-- What the events ask for. -/
def asked (es : List (Event Thread Job)) : List (Thread × Job) :=
  es.filterMap fun
    | .ask i job => some (i, job)
    | _ => none

/-- Whole jobs, one after another. -/
def serial (x : Shared) (order : List (Thread × Job)) : Shared :=
  order.foldl (fun x a => J.whole a.2 x) x

theorem serial_concat (x : Shared) (order : List (Thread × Job)) (i : Thread) (job : Job) :
    serial J x (order ++ [(i, job)]) = J.whole job (serial J x order) := by
  rw [serial, List.foldl_append]
  rfl

theorem asked_append (es es' : List (Event Thread Job)) : asked (es ++ es') = asked es ++ asked es' :=
  List.filterMap_append

theorem asked_work (n : Nat) (i : Thread) :
    asked (List.replicate n (Event.work i : Event Thread Job)) = [] :=
  List.filterMap_replicate_of_none rfl

variable [DecidableEq Thread]

/-- A thread asks when it is outside, gets the lock when it waits and nobody has it, and works when it
has the lock, which it gives back after its last step. -/
def step (s : State Thread Shared Job) : Event Thread Job → Option (State Thread Shared Job)
  | .ask i job =>
    match s.place i with
    | .outside => some { s with place := Function.update s.place i (.waiting job) }
    | _ => none
  | .lock i =>
    match s.place i, s.locked with
    | .waiting job, false =>
      some { s with locked := true, place := Function.update s.place i (.inside job) }
    | _, _ => none
  | .work i =>
    match s.place i with
    | .inside job =>
      match J.act job s.shared with
      | (some rest, y) => some { s with shared := y, place := Function.update s.place i (.inside rest) }
      | (none, y) => some ⟨y, false, Function.update s.place i .outside⟩
    | _ => none

def run (s : State Thread Shared Job) : List (Event Thread Job) → Option (State Thread Shared Job)
  | [] => some s
  | e :: es => (step J s e).bind fun s => run s es

theorem run_append (s : State Thread Shared Job) (es es' : List (Event Thread Job)) :
    run J s (es ++ es') = (run J s es).bind fun s => run J s es' := by
  induction es generalizing s with
  | nil => rfl
  | cons e es ih =>
    rw [List.cons_append, run, run, Option.bind_assoc]
    exact Option.bind_congr fun s _ => ih s

theorem run_concat (s : State Thread Shared Job) (es : List (Event Thread Job))
    (e : Event Thread Job) : run J s (es ++ [e]) = (run J s es).bind fun s => step J s e := by
  rw [run_append]
  apply Option.bind_congr
  intro s _
  exact Option.bind_fun_some (step J s e)

/-- What one event can do. -/
theorem step_cases {s s' : State Thread Shared Job} {e : Event Thread Job}
    (h : step J s e = some s') :
    (∃ i job, e = .ask i job ∧ s.place i = .outside ∧
      s' = { s with place := Function.update s.place i (.waiting job) }) ∨
    (∃ i job, e = .lock i ∧ s.place i = .waiting job ∧ s.locked = false ∧
      s' = { s with locked := true, place := Function.update s.place i (.inside job) }) ∨
    (∃ i job rest y, e = .work i ∧ s.place i = .inside job ∧ J.act job s.shared = (some rest, y) ∧
      s' = { s with shared := y, place := Function.update s.place i (.inside rest) }) ∨
    (∃ i job y, e = .work i ∧ s.place i = .inside job ∧ J.act job s.shared = (none, y) ∧
      s' = ⟨y, false, Function.update s.place i .outside⟩) := by
  cases e with
  | ask i job =>
    rw [step] at h
    split at h
    · next hplace => exact Or.inl ⟨i, job, rfl, hplace, (Option.some.inj h).symm⟩
    · cases h
  | lock i =>
    rw [step] at h
    split at h
    · next job hplace hfree =>
      exact Or.inr (Or.inl ⟨i, job, rfl, hplace, hfree, (Option.some.inj h).symm⟩)
    · cases h
  | work i =>
    rw [step] at h
    split at h
    · next job hplace =>
      split at h
      · next rest y hact =>
        exact Or.inr (Or.inr (Or.inl ⟨i, job, rest, y, rfl, hplace, hact, (Option.some.inj h).symm⟩))
      · next y hact =>
        exact Or.inr (Or.inr (Or.inr ⟨i, job, y, rfl, hplace, hact, (Option.some.inj h).symm⟩))
    · cases h

/-! ### The order in which the threads get the lock -/

/-- The jobs of one thread. -/
def jobsOf (i : Thread) (jobs : List (Thread × Job)) : List Job :=
  (jobs.filter fun a => a.1 = i).map (·.2)

theorem jobsOf_append (i : Thread) (jobs jobs' : List (Thread × Job)) :
    jobsOf i (jobs ++ jobs') = jobsOf i jobs ++ jobsOf i jobs' := by
  rw [jobsOf, List.filter_append, List.map_append]
  rfl

theorem jobsOf_self (i : Thread) (jobs : List Job) : jobsOf i (jobs.map fun job => (i, job)) = jobs := by
  induction jobs with
  | nil => rfl
  | cons job jobs ih =>
    rw [List.map_cons, jobsOf, List.filter_cons_of_pos (by simp), List.map_cons, ← jobsOf, ih]

theorem jobsOf_other {i j : Thread} (h : j ≠ i) (jobs : List Job) :
    jobsOf j (jobs.map fun job => (i, job)) = [] := by
  rw [jobsOf, List.map_eq_nil_iff, List.filter_eq_nil_iff]
  intro a ha
  obtain ⟨job, -, rfl⟩ := List.mem_map.mp ha
  simpa using Ne.symm h

/-- One thread asks for jobs and gets the lock for jobs: the balance of the others stays. -/
theorem threads_update {jobs order : List (Thread × Job)} {place : Thread → Place Job}
    (h : ∀ j, jobsOf j jobs = jobsOf j order ++ (place j).pending) {i : Thread} {p : Place Job}
    (new got : List Job) (hi : (place i).pending ++ new = got ++ p.pending) (j : Thread) :
    jobsOf j (jobs ++ new.map fun job => (i, job)) =
      jobsOf j (order ++ got.map fun job => (i, job)) ++ (Function.update place i p j).pending := by
  rw [jobsOf_append, jobsOf_append, h j]
  by_cases hj : j = i
  · subst hj
    rw [jobsOf_self, jobsOf_self, Function.update_self, List.append_assoc, hi, List.append_assoc]
  · rw [jobsOf_other hj, jobsOf_other hj, Function.update_of_ne hj, List.append_nil, List.append_nil]

/-- The jobs in the order in which they got the lock.  Those of a thread are what it asked for, in this
order, but for the one that waits.  When nobody has the lock, they have all been done, one after another;
when somebody has it, nobody else does, and a part of the last job is still to be done. -/
structure Ordered (x : Shared) (jobs order : List (Thread × Job)) (s : State Thread Shared Job) :
    Prop where
  threads : ∀ i, jobsOf i jobs = jobsOf i order ++ (s.place i).pending
  free : s.locked = false →
    (∀ i rest, s.place i ≠ .inside rest) ∧ s.shared = serial J x order
  held : s.locked = true → ∃ i job rest before, order = before ++ [(i, job)] ∧
    J.Part job (serial J x before) rest s.shared ∧ s.place i = .inside rest ∧
      ∀ j rest, s.place j = .inside rest → j = i

theorem ordered_start (x : Shared) :
    Ordered J x [] [] (start x : State Thread Shared Job) where
  threads _ := rfl
  free _ := ⟨fun _ _ => nofun, rfl⟩
  held := nofun

variable {J} {x : Shared} {jobs order : List (Thread × Job)} {s s' : State Thread Shared Job}

/-- A thread that is inside has the lock. -/
theorem Ordered.locked (h : Ordered J x jobs order s) {i : Thread} {rest : Job}
    (hplace : s.place i = .inside rest) : s.locked = true := by
  cases hlocked : s.locked with
  | true => rfl
  | false => exact absurd hplace ((h.free hlocked).1 i rest)

/-- It has done a part of the last job. -/
theorem Ordered.part (h : Ordered J x jobs order s) {i : Thread} {rest : Job}
    (hplace : s.place i = .inside rest) :
    ∃ job before, order = before ++ [(i, job)] ∧ J.Part job (serial J x before) rest s.shared ∧
      ∀ j rest, s.place j = .inside rest → j = i := by
  obtain ⟨j, job, rest', before, horder, hpart, hplace', hone⟩ := h.held (h.locked hplace)
  obtain rfl := hone i rest hplace
  obtain rfl : rest' = rest := Place.inside.inj (hplace'.symm.trans hplace)
  exact ⟨job, before, horder, hpart, hone⟩

theorem inside_of_ne {place : Thread → Place Job} {i j : Thread} {p : Place Job} {rest : Job}
    (h : Function.update place i p j = .inside rest) (hne : j ≠ i) : place j = .inside rest := by
  rwa [Function.update_of_ne hne] at h

theorem ne_of_inside {place : Thread → Place Job} {i j : Thread} {p : Place Job} {rest : Job}
    (h : Function.update place i p j = .inside rest) (hp : ∀ rest, p ≠ .inside rest) : j ≠ i := by
  rintro rfl
  rw [Function.update_self] at h
  exact hp rest h

theorem Ordered.ask (h : Ordered J x jobs order s) {i : Thread} (job : Job)
    (hplace : s.place i = .outside) :
    Ordered J x (jobs ++ [(i, job)]) order
      { s with place := Function.update s.place i (.waiting job) } where
  threads j := by
    have hthreads := threads_update h.threads (p := .waiting job) [job] [] (by rw [hplace]; rfl) j
    rwa [List.map_nil, List.append_nil] at hthreads
  free hfree := by
    refine ⟨fun j rest hinside => ?_, (h.free hfree).2⟩
    exact (h.free hfree).1 j rest (inside_of_ne hinside (ne_of_inside hinside nofun))
  held hheld := by
    obtain ⟨k, last, rest, before, horder, hpart, hinside, hone⟩ := h.held hheld
    have hk : k ≠ i := by
      rintro rfl
      rw [hplace] at hinside
      cases hinside
    refine ⟨k, last, rest, before, horder, hpart, (Function.update_of_ne hk _ _).trans hinside, ?_⟩
    intro j rest hj
    exact hone j rest (inside_of_ne hj (ne_of_inside hj nofun))

theorem Ordered.lock (h : Ordered J x jobs order s) {i : Thread} {job : Job}
    (hplace : s.place i = .waiting job) (hfree : s.locked = false) :
    Ordered J x jobs (order ++ [(i, job)])
      { s with locked := true, place := Function.update s.place i (.inside job) } where
  threads j := by
    have hthreads := threads_update h.threads (p := .inside job) [] [job] (by rw [hplace]; rfl) j
    rwa [List.map_nil, List.append_nil] at hthreads
  free := nofun
  held _ := by
    obtain ⟨hnone, hshared⟩ := h.free hfree
    refine ⟨i, job, job, order, rfl, ?_, Function.update_self i _ _, ?_⟩
    · rw [← hshared]
      exact .start
    · intro j rest hj
      by_contra hne
      exact hnone j rest (inside_of_ne hj hne)

theorem Ordered.work (h : Ordered J x jobs order s) {i : Thread} {rest rest' : Job} {y : Shared}
    (hplace : s.place i = .inside rest) (hact : J.act rest s.shared = (some rest', y)) :
    Ordered J x jobs order
      { s with shared := y, place := Function.update s.place i (.inside rest') } := by
  obtain ⟨job, before, horder, hpart, hone⟩ := h.part hplace
  refine ⟨?_, ?_, ?_⟩
  · intro j
    have hthreads := threads_update h.threads (p := .inside rest') [] [] (by rw [hplace]; rfl) j
    rwa [List.map_nil, List.append_nil, List.append_nil] at hthreads
  · intro hfree
    exact absurd hplace ((h.free hfree).1 i rest)
  · intro _
    refine ⟨i, job, rest', before, horder, hpart.act hact, Function.update_self i _ _, ?_⟩
    intro j rest hj
    by_contra hne
    exact hne (hone j rest (inside_of_ne hj hne))

theorem Ordered.leave (h : Ordered J x jobs order s) {i : Thread} {rest : Job} {y : Shared}
    (hplace : s.place i = .inside rest) (hact : J.act rest s.shared = (none, y)) :
    Ordered J x jobs order ⟨y, false, Function.update s.place i .outside⟩ := by
  obtain ⟨job, before, horder, hpart, hone⟩ := h.part hplace
  refine ⟨?_, ?_, nofun⟩
  · intro j
    have hthreads := threads_update h.threads (p := .outside) [] [] (by rw [hplace]; rfl) j
    rwa [List.map_nil, List.append_nil, List.append_nil] at hthreads
  · intro _
    refine ⟨fun j rest hj => ?_, ?_⟩
    · have hne := ne_of_inside hj nofun
      exact hne (hone j rest (inside_of_ne hj hne))
    · rw [horder, serial_concat, ← hpart.whole, J.whole_of_done hact]

/-- An event gives the lock to at most one more job. -/
theorem Ordered.step {e : Event Thread Job} (h : Ordered J x jobs order s)
    (hstep : Mutex.step J s e = some s') : ∃ order', Ordered J x (jobs ++ asked [e]) order' s' := by
  obtain ⟨i, job, rfl, hplace, rfl⟩ | ⟨i, job, rfl, hplace, hfree, rfl⟩ |
    ⟨i, job, rest, y, rfl, hplace, hact, rfl⟩ | ⟨i, job, y, rfl, hplace, hact, rfl⟩ :=
    step_cases J hstep
  · exact ⟨order, h.ask job hplace⟩
  · rw [asked, List.filterMap_cons_none rfl, List.filterMap_nil, List.append_nil]
    exact ⟨order ++ [(i, job)], h.lock hplace hfree⟩
  · rw [asked, List.filterMap_cons_none rfl, List.filterMap_nil, List.append_nil]
    exact ⟨order, h.work hplace hact⟩
  · rw [asked, List.filterMap_cons_none rfl, List.filterMap_nil, List.append_nil]
    exact ⟨order, h.leave hplace hact⟩

/-- After any run the jobs have an order. -/
theorem run_ordered {es : List (Event Thread Job)} (h : run J (start x) es = some s) :
    ∃ order, Ordered J x (asked es) order s := by
  induction es using List.reverseRecOn generalizing s with
  | nil =>
    cases h
    exact ⟨[], ordered_start J x⟩
  | append_singleton es e ih =>
    rw [run_concat] at h
    obtain ⟨s₁, hrun, hstep⟩ := Option.bind_eq_some_iff.mp h
    obtain ⟨order, hordered⟩ := ih hrun
    rw [asked_append]
    exact hordered.step hstep

/-- A job that got the lock has been asked for. -/
theorem Ordered.mem_jobs (h : Ordered J x jobs order s) {a : Thread × Job} (ha : a ∈ order) :
    a ∈ jobs := by
  have hof : a.2 ∈ jobsOf a.1 order := by
    rw [jobsOf, List.mem_map]
    exact ⟨a, List.mem_filter.mpr ⟨ha, by simp⟩, rfl⟩
  have hmem : a.2 ∈ jobsOf a.1 jobs := by
    rw [h.threads a.1]
    exact List.mem_append_left _ hof
  obtain ⟨b, hb, hjob⟩ := List.mem_map.mp hmem
  obtain ⟨hjobs, hthread⟩ := List.mem_filter.mp hb
  obtain rfl : b = a := Prod.ext (by simpa using hthread) hjob
  exact hjobs

/-! ### A thread that waits gets the lock -/

/-- Whoever has the lock comes to the end of its job. -/
theorem run_leave {i : Thread} {rest : Job} (hplace : s.place i = .inside rest) :
    ∃ n, run J s (List.replicate n (.work i)) =
      some ⟨J.whole rest s.shared, false, Function.update s.place i .outside⟩ := by
  induction hn : J.size rest s.shared using Nat.strong_induction_on generalizing s rest with
  | _ n ih =>
    cases hact : J.act rest s.shared with
    | mk r y =>
      cases r with
      | none =>
        refine ⟨1, ?_⟩
        rw [List.replicate_one, run, Mutex.step, hplace, J.whole_of_done hact]
        simp only [hact, Option.bind_some, run]
      | some rest' =>
        have hlt : J.size rest' y < n := by
          rw [← hn]
          exact J.size_act rest s.shared rest' y hact
        obtain ⟨m, hrun⟩ := @ih _ hlt
          { s with shared := y, place := Function.update s.place i (.inside rest') } rest'
          (Function.update_self i _ _) rfl
        refine ⟨m + 1, ?_⟩
        rw [List.replicate_succ, run, Mutex.step, hplace, J.whole_of_rest hact]
        simp only [hact, Option.bind_some]
        rw [hrun, Function.update_idem]

/-- Where nobody has the lock, a thread that waits can get it and do its job. -/
theorem run_free {i : Thread} {job : Job} (hplace : s.place i = .waiting job)
    (hfree : s.locked = false) :
    ∃ n, run J s (.lock i :: List.replicate n (.work i)) =
      some ⟨J.whole job s.shared, false, Function.update s.place i .outside⟩ := by
  obtain ⟨n, hrun⟩ := run_leave (J := J)
    (s := { s with locked := true, place := Function.update s.place i (.inside job) })
    (Function.update_self i (.inside job) s.place)
  refine ⟨n, ?_⟩
  rw [run, Mutex.step, hplace, hfree]
  simp only [Option.bind_some]
  rw [hrun, Function.update_idem]

/-- What serves a thread that waits: a step of the thread that has the lock, or a step of its own. -/
def Serves (s : State Thread Shared Job) (i : Thread) (e : Event Thread Job) : Prop :=
  e = .lock i ∨ e = .work i ∨ ∃ j rest, e = .work j ∧ s.place j = .inside rest

omit [DecidableEq Thread] in
theorem asked_of_serves {i : Thread} {es : List (Event Thread Job)} (h : ∀ e ∈ es, Serves s i e) :
    asked es = [] := by
  rw [asked, List.filterMap_eq_nil_iff]
  intro e he
  obtain rfl | rfl | ⟨j, rest, rfl, -⟩ := h e he <;> rfl

/-- There is no deadlock: a thread that waits can do its job, where first the thread that has the lock
comes to the end of its own. -/
theorem Ordered.served (h : Ordered J x jobs order s) {i : Thread} {job : Job}
    (hplace : s.place i = .waiting job) :
    ∃ more s', run J s more = some s' ∧ (∀ e ∈ more, Serves s i e) ∧ s'.locked = false ∧
      s'.place i = .outside ∧ s'.shared = J.whole job (serial J x order) := by
  cases hlocked : s.locked with
  | false =>
    obtain ⟨n, hrun⟩ := run_free (J := J) hplace hlocked
    rw [← (h.free hlocked).2]
    refine ⟨_, _, hrun, ?_, rfl, Function.update_self i .outside s.place, rfl⟩
    rw [List.forall_mem_cons]
    exact ⟨Or.inl rfl, fun e he => Or.inr (Or.inl (List.eq_of_mem_replicate he))⟩
  | true =>
    obtain ⟨j, job', rest, before, horder, hpart, hinside, -⟩ := h.held hlocked
    have hne : i ≠ j := by
      rintro rfl
      rw [hplace] at hinside
      cases hinside
    obtain ⟨m, hleave⟩ := run_leave (J := J) hinside
    rw [hpart.whole, ← serial_concat, ← horder] at hleave
    generalize hplace' : Function.update s.place j .outside = place at hleave
    have hwaiting : place i = .waiting job := by
      rw [← hplace', Function.update_of_ne hne, hplace]
    obtain ⟨n, hrun⟩ := run_free (J := J) (s := ⟨serial J x order, false, place⟩) hwaiting rfl
    refine ⟨List.replicate m (.work j) ++ .lock i :: List.replicate n (.work i),
      ⟨J.whole job (serial J x order), false, Function.update place i .outside⟩, ?_, ?_, rfl,
      Function.update_self i .outside place, rfl⟩
    · rw [run_append, hleave, Option.bind_some, hrun]
    · rw [List.forall_mem_append, List.forall_mem_cons]
      refine ⟨?_, Or.inl rfl, fun e he => Or.inr (Or.inl (List.eq_of_mem_replicate he))⟩
      intro e he
      exact Or.inr (Or.inr ⟨j, rest, List.eq_of_mem_replicate he, hinside⟩)

end Mutex

end ProofKit
