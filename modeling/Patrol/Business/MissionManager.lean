import Mathlib.Algebra.Ring.Nat
import Mathlib.Data.List.Nodup
import Mathlib.Data.List.Range
import Patrol.ProofKit.Reentry

/-! `MissionManager`: the queue of tasks, and the callback that is told of changes.  The callback may
call the manager; it is the last thing that an operation does before it returns. -/

namespace Patrol.Business

open ProofKit

inductive TaskStatus
  | pending
  | running
  | paused
  | completed
  | failed
  | cancelled
deriving DecidableEq, Repr

namespace TaskStatus

/-- The states that a task does not leave. -/
def isFinal : TaskStatus → Bool
  | completed => true
  | failed => true
  | cancelled => true
  | _ => false

end TaskStatus

/-- A task.  The manager only passes on what it is to do. -/
structure Task (Mission : Type) where
  id : UInt32 := 0
  status : TaskStatus := .pending
  mission : Mission
deriving DecidableEq, Repr

structure MissionManager (Mission : Type) where
  queue : List (Task Mission) := []
  nextId : UInt32 := 1
deriving DecidableEq, Repr

namespace MissionManager

variable {Mission : Type}

/-- The manager after an `enqueue`, the task that it passes to the callback, and the id that it
returns. -/
def enqueue (s : MissionManager Mission) (task : Task Mission) :
    MissionManager Mission × Task Mission × UInt32 :=
  let task := { task with id := s.nextId, status := .pending }
  ({ queue := s.queue ++ [task], nextId := s.nextId + 1 }, task, task.id)

/-- The loop of `cancel`: the queue with the task that it cancels, and this task. -/
def cancelLoop (taskId : UInt32) :
    List (Task Mission) → Option (List (Task Mission) × Task Mission)
  | [] => none
  | t :: queue =>
    if t.id = taskId ∧ t.status ≠ .completed then
      let t := { t with status := .cancelled }
      some (t :: queue, t)
    else (cancelLoop taskId queue).map fun r => (t :: r.1, r.2)

/-- The manager after a `cancel`, the task that it passes to the callback, and what it returns. -/
def cancel (s : MissionManager Mission) (taskId : UInt32) :
    MissionManager Mission × Option (Task Mission) × Bool :=
  match cancelLoop taskId s.queue with
  | some (queue, t) => ({ s with queue }, some t, true)
  | none => (s, none, false)

/-! ### Calls, also from the callback -/

inductive Call (Mission : Type)
  | enqueue (task : Task Mission)
  | cancel (taskId : UInt32)

@[reducible] def Ret : Call Mission → Type
  | .enqueue _ => UInt32
  | .cancel _ => Bool

/-- What a call does before the callback, the task that it passes to it, and what it returns. -/
def perform (s : MissionManager Mission) :
    (c : Call Mission) → MissionManager Mission × Option (Task Mission) × Ret c
  | .enqueue task =>
    let (s, task, id) := s.enqueue task
    (s, some task, id)
  | .cancel taskId => s.cancel taskId

/-- The manager, the calls that were made, each with the manager that it found, and the ids and
states that the callback was told. -/
structure Session (Mission : Type) where
  manager : MissionManager Mission := {}
  calls : List (Call Mission × MissionManager Mission) := []
  log : List (UInt32 × TaskStatus) := []

variable {Mem : Type}

/-- Code outside of the manager. -/
abbrev Code (Mission Mem : Type) := Prog Mem (@Ret Mission)

abbrev World (Mission Mem : Type) := Session Mission × Mem

/-- Calls the callback, if there is one and a task changed. -/
def notify (call : (c : Call Mission) → World Mission Mem → Outcome (World Mission Mem) (Ret c))
    (onChanged : Option (Task Mission → Code Mission Mem Unit)) (changed : Option (Task Mission))
    (w : World Mission Mem) : Outcome (World Mission Mem) Unit :=
  match onChanged, changed with
  | some cb, some t => (cb t).run call ({ w.1 with log := w.1.log ++ [(t.id, t.status)] }, w.2)
  | _, _ => .returned () w

/-- A call, and the calls that the callback makes in it.  Calls are followed as deep as `fuel`
says. -/
def exec (onChanged : Option (Task Mission → Code Mission Mem Unit)) :
    Nat → (c : Call Mission) → World Mission Mem → Outcome (World Mission Mem) (Ret c)
  | 0, _, w => .unfinished w
  | fuel + 1, c, w =>
    let (manager, changed, result) := w.1.manager.perform c
    let w := ({ w.1 with manager, calls := w.1.calls ++ [(c, w.1.manager)] }, w.2)
    (notify (exec onChanged fuel) onChanged changed w).bind fun _ w => .returned result w

/-! ### What is reported -/

/-- What the callback was told of a task. -/
def notifications (log : List (UInt32 × TaskStatus)) (taskId : UInt32) : List TaskStatus :=
  (log.filter fun e => e.1 = taskId).map Prod.snd

def Call.isEnqueue : Call Mission → Bool
  | .enqueue _ => true
  | .cancel _ => false

/-- The number of `enqueue` calls. -/
def Session.enqueues (s : Session Mission) : Nat :=
  s.calls.countP fun e => e.1.isEnqueue

/-- If there is a callback, it was told of each task that this is pending, and then at most once that
it is cancelled, and it was told nothing else. -/
def Session.Reported (notifies : Bool) (s : Session Mission) : Prop :=
  (∀ t ∈ s.manager.queue, notifies = true → notifications s.log t.id = [.pending] ∨
    notifications s.log t.id = [.pending, .cancelled]) ∧
  ∀ taskId, (notifies = true → ∀ t ∈ s.manager.queue, t.id ≠ taskId) →
    notifications s.log taskId = []

/-- A `cancel` changes the state of a task with the id. -/
def ChangesStatus (s : MissionManager Mission) (taskId : UInt32) : Prop :=
  ∃ (i : Nat) (t t' : Task Mission), s.queue[i]? = some t ∧
    (s.cancel taskId).1.queue[i]? = some t' ∧ t.id = taskId ∧ t'.status ≠ t.status

/-- A `cancel` returns true exactly if it changes the state of a task with the id; for a task in a
final state it returns false, tells the callback nothing and changes nothing. -/
def CancelOk (s : MissionManager Mission) (taskId : UInt32) : Prop :=
  ((s.cancel taskId).2.2 = true ↔ s.ChangesStatus taskId) ∧
    ∀ t ∈ s.queue, t.id = taskId → t.status.isFinal = true → s.cancel taskId = (s, none, false)

/-- No task with the id is cancelled already. -/
def NotCancelled (s : MissionManager Mission) (taskId : UInt32) : Prop :=
  ∀ t ∈ s.queue, t.id = taskId → t.status ≠ .cancelled

/-- The ids are counted from one on, and every task is pending or cancelled. -/
structure Numbered (s : MissionManager Mission) : Prop where
  short : s.queue.length < 2 ^ 32
  ids : s.queue.map (fun t => t.id.toNat) = List.range' 1 s.queue.length
  next : s.nextId.toNat = (s.queue.length + 1) % 2 ^ 32
  status : ∀ t ∈ s.queue, t.status = .pending ∨ t.status = .cancelled

theorem mem_middle {t t' : Task Mission} {before after : List (Task Mission)} :
    t' ∈ before ++ t :: after ↔ t' = t ∨ t' ∈ before ++ after := by
  rw [List.mem_append, List.mem_cons, or_left_comm, ← List.mem_append]

theorem Numbered.nodup {s : MissionManager Mission} (h : s.Numbered) :
    (s.queue.map Task.id).Nodup := by
  apply List.Nodup.of_map UInt32.toNat
  rw [List.map_map]
  have hids : s.queue.map (UInt32.toNat ∘ Task.id) = List.range' 1 s.queue.length := h.ids
  rw [hids]
  exact List.nodup_range'

theorem cancelLoop_none {taskId : UInt32} {queue : List (Task Mission)}
    (h : ∀ t ∈ queue, t.id ≠ taskId) : cancelLoop taskId queue = none := by
  induction queue with
  | nil => rfl
  | cons t queue ih =>
    rw [List.forall_mem_cons] at h
    rw [cancelLoop, if_neg (fun heq => h.1 heq.1), ih h.2]
    rfl

theorem cancelLoop_split {before after : List (Task Mission)} {t : Task Mission}
    (h : ∀ t' ∈ before, t'.id ≠ t.id) (hstatus : t.status ≠ .completed) :
    cancelLoop t.id (before ++ t :: after) =
      some (before ++ { t with status := .cancelled } :: after,
        { t with status := .cancelled }) := by
  induction before with
  | nil =>
    rw [List.nil_append, cancelLoop, if_pos ⟨rfl, hstatus⟩]
    rfl
  | cons t' before ih =>
    rw [List.forall_mem_cons] at h
    rw [List.cons_append, cancelLoop, if_neg (fun heq => h.1 heq.1), ih h.2]
    rfl

/-- A `cancel` finds no task with the id, or the one that there is. -/
theorem Numbered.cancel_cases {s : MissionManager Mission} (h : s.Numbered) (taskId : UInt32) :
    ((∀ t ∈ s.queue, t.id ≠ taskId) ∧ s.cancel taskId = (s, none, false)) ∨
      ∃ before t after, s.queue = before ++ t :: after ∧ t.id = taskId ∧
        (∀ t' ∈ before ++ after, t'.id ≠ taskId) ∧
        s.cancel taskId =
          ({ s with queue := before ++ { t with status := .cancelled } :: after },
            some { t with status := .cancelled }, true) := by
  by_cases hmem : ∃ t ∈ s.queue, t.id = taskId
  · obtain ⟨t, ht, rfl⟩ := hmem
    obtain ⟨before, after, hqueue⟩ := List.append_of_mem ht
    have hother : ∀ t' ∈ before ++ after, t'.id ≠ t.id := by
      have hnodup := h.nodup
      rw [hqueue, List.map_append, List.map_cons, List.nodup_middle, ← List.map_append] at hnodup
      intro t' ht' heq
      apply (List.nodup_cons.mp hnodup).1
      rw [← heq]
      exact List.mem_map_of_mem ht'
    have hstatus : t.status ≠ .completed := by
      rcases h.status t ht with heq | heq <;> simp [heq]
    refine Or.inr ⟨before, t, after, hqueue, rfl, hother, ?_⟩
    rw [cancel, hqueue,
      cancelLoop_split (fun t' ht' => hother t' (List.mem_append_left _ ht')) hstatus]
  · have hnone : ∀ t ∈ s.queue, t.id ≠ taskId := fun t ht heq => hmem ⟨t, ht, heq⟩
    refine Or.inl ⟨hnone, ?_⟩
    rw [cancel, cancelLoop_none hnone]

theorem cancelOk_of_absent {s : MissionManager Mission} {taskId : UInt32}
    (hnone : ∀ t ∈ s.queue, t.id ≠ taskId) (hcancel : s.cancel taskId = (s, none, false)) :
    s.CancelOk taskId := by
  refine ⟨?_, fun t ht hid => absurd hid (hnone t ht)⟩
  rw [ChangesStatus, hcancel]
  apply iff_of_false Bool.false_ne_true
  rintro ⟨i, t, t', ht, ht', -, hne⟩
  rw [ht] at ht'
  cases ht'
  exact hne rfl

/-- A `cancel` of a pending task changes its status. -/
theorem cancelOk_of_pending {s : MissionManager Mission} {before after : List (Task Mission)}
    {t : Task Mission} (hqueue : s.queue = before ++ t :: after)
    (huniq : ∀ t' ∈ s.queue, t'.id = t.id → t' = t) (hstatus : t.status = .pending)
    (hcancel : s.cancel t.id =
      ({ s with queue := before ++ { t with status := .cancelled } :: after },
        some { t with status := .cancelled }, true)) : s.CancelOk t.id := by
  constructor
  · rw [ChangesStatus, hcancel]
    refine iff_of_true rfl ⟨before.length, t, { t with status := .cancelled }, ?_, ?_, rfl, ?_⟩
    · simp [hqueue]
    · simp
    · simp [hstatus]
  · intro t' ht' hid hfinal
    rw [huniq t' ht' hid, hstatus] at hfinal
    cases hfinal

/-- A `cancel` of a cancelled task returns true, and should not. -/
theorem not_cancelOk_of_cancelled {s s' : MissionManager Mission} {t : Task Mission}
    {told : Option (Task Mission)} (ht : t ∈ s.queue) (hstatus : t.status = .cancelled)
    (hcancel : s.cancel t.id = (s', told, true)) : ¬ s.CancelOk t.id := by
  rintro ⟨-, hfinal⟩
  rw [hcancel] at hfinal
  have heq := congrArg (fun r => r.2.2) (hfinal t ht rfl (by rw [hstatus]; rfl))
  cases heq

/-- A `cancel` does as it should exactly if no task with the id is cancelled already. -/
theorem Numbered.cancelOk_iff {s : MissionManager Mission} (h : s.Numbered) (taskId : UInt32) :
    s.CancelOk taskId ↔ s.NotCancelled taskId := by
  rcases h.cancel_cases taskId with ⟨hnone, hcancel⟩ | ⟨before, t, after, hqueue, rfl, hother, hcancel⟩
  · apply iff_of_true (cancelOk_of_absent hnone hcancel)
    exact fun t ht hid => absurd hid (hnone t ht)
  · have ht : t ∈ s.queue := by simp [hqueue]
    have huniq : ∀ t' ∈ s.queue, t'.id = t.id → t' = t := by
      intro t' ht' hid
      rw [hqueue, mem_middle] at ht'
      exact ht'.resolve_right fun hmem => hother t' hmem hid
    rcases h.status t ht with hstatus | hstatus
    · apply iff_of_true (cancelOk_of_pending hqueue huniq hstatus hcancel)
      intro t' ht' hid
      rw [huniq t' ht' hid, hstatus]
      decide
    · apply iff_of_false (not_cancelOk_of_cancelled ht hstatus hcancel)
      exact fun hnot => hnot t ht rfl hstatus

theorem notifications_concat (log : List (UInt32 × TaskStatus)) (id taskId : UInt32)
    (status : TaskStatus) :
    notifications (log ++ [(id, status)]) taskId =
      if id = taskId then notifications log taskId ++ [status] else notifications log taskId := by
  by_cases h : id = taskId <;> simp [notifications, h]

/-- A session after the part of a call before the callback is called, and after this is told. -/
def Session.begin (notifies : Bool) (s : Session Mission) (c : Call Mission) : Session Mission :=
  { manager := (s.manager.perform c).1
    calls := s.calls ++ [(c, s.manager)]
    log := s.log ++ if notifies then (s.manager.perform c).2.1.toList.map fun t => (t.id, t.status)
      else [] }

/-- Every `cancel` so far found the task not cancelled. -/
def Session.NoneTwice (s : Session Mission) : Prop :=
  ∀ before taskId, (.cancel taskId, before) ∈ s.calls → NotCancelled before taskId

/-- The callback was told of each task what became of it, and nothing else. -/
def Session.Told (notifies : Bool) (s : Session Mission) : Prop :=
  (∀ t ∈ s.manager.queue, notifies = true → notifications s.log t.id =
    if t.status = .pending then [.pending] else [.pending, .cancelled]) ∧
  ∀ taskId, (notifies = true → ∀ t ∈ s.manager.queue, t.id ≠ taskId) →
    notifications s.log taskId = []

structure Session.Sound (notifies : Bool) (s : Session Mission) : Prop where
  numbered : s.manager.Numbered
  found : ∀ e ∈ s.calls, e.2.Numbered
  told : s.NoneTwice → s.Told notifies

theorem Numbered.enqueue {s : MissionManager Mission} (h : s.Numbered) (task : Task Mission)
    (hshort : s.queue.length + 1 < 2 ^ 32) : (s.enqueue task).1.Numbered := by
  have hnext : s.nextId.toNat = s.queue.length + 1 := by
    rw [h.next, Nat.mod_eq_of_lt hshort]
  constructor
  · simpa [MissionManager.enqueue] using hshort
  · simp only [MissionManager.enqueue, List.map_append, List.map_singleton, List.length_append,
      List.length_singleton, h.ids, hnext, List.range'_concat]
    rw [Nat.one_mul, Nat.add_comm 1]
  · simp only [MissionManager.enqueue, UInt32.toNat_add, List.length_append, List.length_singleton,
      hnext]
    rfl
  · intro t ht
    rcases List.mem_append.mp ht with ht | ht
    · exact h.status t ht
    · rw [List.mem_singleton.mp ht]
      exact Or.inl rfl

/-- The ids that were given are below the next one. -/
theorem Numbered.fresh {s : MissionManager Mission} (h : s.Numbered)
    (hshort : s.queue.length + 1 < 2 ^ 32) : ∀ t ∈ s.queue, t.id ≠ s.nextId := by
  intro t ht heq
  have hmem : s.nextId.toNat ∈ s.queue.map fun t => t.id.toNat := by
    rw [← heq]
    exact List.mem_map_of_mem ht
  rw [h.ids, h.next, Nat.mod_eq_of_lt hshort, List.mem_range'_1] at hmem
  omega

theorem Numbered.cancel {s : MissionManager Mission} (h : s.Numbered) (taskId : UInt32) :
    (s.cancel taskId).1.Numbered := by
  rcases h.cancel_cases taskId with ⟨-, hcancel⟩ | ⟨before, t, after, hqueue, -, -, hcancel⟩
  · rw [hcancel]
    exact h
  · rw [hcancel]
    have hlength : (before ++ { t with status := .cancelled } :: after).length =
        s.queue.length := by simp [hqueue]
    constructor
    · rw [hlength]
      exact h.short
    · rw [hlength, ← h.ids, hqueue]
      simp
    · rw [hlength]
      exact h.next
    · intro t' ht'
      rcases List.mem_append.mp ht' with hmem | hmem
      · exact h.status t' (by simp [hqueue, hmem])
      · rcases List.mem_cons.mp hmem with rfl | hmem
        · exact Or.inr rfl
        · exact h.status t' (by simp [hqueue, hmem])

theorem Session.NoneTwice.concat {notifies : Bool} {s : Session Mission} {c : Call Mission}
    (h : (s.begin notifies c).NoneTwice) :
    s.NoneTwice ∧ ∀ taskId, c = .cancel taskId → s.manager.NotCancelled taskId := by
  constructor
  · exact fun before taskId hmem => h before taskId (List.mem_append_left _ hmem)
  · rintro taskId rfl
    exact h s.manager taskId (by simp [Session.begin])

theorem Session.Told.enqueue {notifies : Bool} {s : Session Mission} (hnum : s.manager.Numbered)
    (h : s.Told notifies) (task : Task Mission) (hshort : s.manager.queue.length + 1 < 2 ^ 32) :
    (s.begin notifies (.enqueue task)).Told notifies := by
  cases notifies with
  | false => exact ⟨nofun, fun taskId _ => by simpa [Session.begin] using h.2 taskId nofun⟩
  | true =>
    have hfresh := hnum.fresh hshort
    have hlog : (s.begin true (.enqueue task)).log = s.log ++ [(s.manager.nextId, .pending)] := rfl
    constructor
    · intro t ht _
      rw [hlog, notifications_concat]
      rcases List.mem_append.mp ht with ht | ht
      · rw [if_neg (hfresh t ht).symm]
        exact h.1 t ht rfl
      · rw [List.mem_singleton.mp ht, if_pos rfl, if_pos rfl, h.2 _ fun _ => hfresh]
        rfl
    · intro taskId hnone
      rw [hlog, notifications_concat]
      have hne := hnone rfl
      rw [if_neg]
      · exact h.2 taskId fun _ t ht => hne t (List.mem_append_left _ ht)
      · exact hne { task with id := s.manager.nextId, status := .pending }
          (List.mem_append_right _ List.mem_cons_self)

theorem Session.Told.cancel {notifies : Bool} {s : Session Mission} (hnum : s.manager.Numbered)
    (h : s.Told notifies) {taskId : UInt32} (hnot : s.manager.NotCancelled taskId) :
    (s.begin notifies (.cancel taskId)).Told notifies := by
  have hperform : s.manager.perform (.cancel taskId) = s.manager.cancel taskId := rfl
  cases notifies with
  | false => exact ⟨nofun, fun taskId _ => by simpa [Session.begin] using h.2 taskId nofun⟩
  | true =>
    rcases hnum.cancel_cases taskId with ⟨-, hcancel⟩ | ⟨before, t, after, hqueue, rfl, hother, hcancel⟩
    · simpa [Session.Told, Session.begin, hperform, hcancel] using h
    · have ht : t ∈ s.manager.queue := by simp [hqueue]
      have hpending : t.status = .pending :=
        (hnum.status t ht).resolve_right (hnot t ht rfl)
      have hlog : (s.begin true (.cancel t.id)).log = s.log ++ [(t.id, .cancelled)] := by
        simp [Session.begin, hperform, hcancel]
      have hafter : (s.begin true (.cancel t.id)).manager.queue =
          before ++ { t with status := .cancelled } :: after := by
        simp [Session.begin, hperform, hcancel]
      constructor
      · intro t' ht' _
        rw [hafter, mem_middle] at ht'
        rw [hlog, notifications_concat]
        rcases ht' with rfl | ht'
        · rw [if_pos rfl, h.1 t ht rfl, if_pos hpending,
            if_neg (show TaskStatus.cancelled ≠ .pending by decide)]
          rfl
        · rw [if_neg (hother t' ht').symm]
          apply h.1 t' _ rfl
          rw [hqueue, mem_middle]
          exact Or.inr ht'
      · intro taskId hnone
        have hne := hnone rfl
        rw [hafter] at hne
        rw [hlog, notifications_concat, if_neg]
        · apply h.2 taskId
          intro _ t' ht'
          rw [hqueue, mem_middle] at ht'
          rcases ht' with rfl | ht'
          · exact hne { t' with status := .cancelled } (by simp)
          · apply hne t'
            rw [mem_middle]
            exact Or.inr ht'
        · exact hne { t with status := .cancelled } (by simp)

theorem cancelLoop_length {taskId : UInt32} {queue queue' : List (Task Mission)} {t : Task Mission}
    (h : cancelLoop taskId queue = some (queue', t)) : queue'.length = queue.length := by
  induction queue generalizing queue' with
  | nil => cases h
  | cons t' queue ih =>
    rw [cancelLoop] at h
    split at h
    · cases h
      rfl
    · obtain ⟨⟨rest, t''⟩, hrest, heq⟩ := Option.map_eq_some_iff.mp h
      cases heq
      rw [List.length_cons, List.length_cons, ih hrest]

/-- Only `enqueue` adds to the queue, and nothing is removed. -/
theorem queue_length_perform (s : MissionManager Mission) (c : Call Mission) :
    (s.perform c).1.queue.length = s.queue.length + if c.isEnqueue then 1 else 0 := by
  cases c with
  | enqueue task =>
    show (s.queue ++ [_]).length = _
    rw [List.length_append]
    rfl
  | cancel taskId =>
    show (s.cancel taskId).1.queue.length = s.queue.length
    rw [MissionManager.cancel]
    split
    · next h => exact cancelLoop_length h
    · rfl

/-- What holds of a session as long as fewer than 2^32 tasks are enqueued. -/
def Session.Kept (notifies : Bool) (s : Session Mission) : Prop :=
  s.enqueues = s.manager.queue.length ∧ (s.manager.queue.length < 2 ^ 32 → s.Sound notifies)

theorem Session.Sound.begin {notifies : Bool} {s : Session Mission} (h : s.Sound notifies)
    (c : Call Mission) (hshort : (s.begin notifies c).manager.queue.length < 2 ^ 32) :
    (s.begin notifies c).Sound notifies := by
  have hlength := queue_length_perform s.manager c
  have hfound : ∀ e ∈ (s.begin notifies c).calls, e.2.Numbered := by
    intro e he
    rcases List.mem_append.mp he with he | he
    · exact h.found e he
    · rw [List.mem_singleton.mp he]
      exact h.numbered
  cases c with
  | enqueue task =>
    have hone : s.manager.queue.length + 1 < 2 ^ 32 :=
      Nat.lt_of_le_of_lt (Nat.le_of_eq hlength.symm) hshort
    exact ⟨h.numbered.enqueue task hone, hfound,
      fun htwice => (h.told htwice.concat.1).enqueue h.numbered task hone⟩
  | cancel taskId =>
    exact ⟨h.numbered.cancel taskId, hfound,
      fun htwice => (h.told htwice.concat.1).cancel h.numbered (htwice.concat.2 taskId rfl)⟩

theorem Session.Kept.begin {notifies : Bool} {s : Session Mission} (h : s.Kept notifies)
    (c : Call Mission) : (s.begin notifies c).Kept notifies := by
  have hlength := queue_length_perform s.manager c
  constructor
  · rw [Session.enqueues, Session.begin, List.countP_append, hlength, List.countP_singleton,
      ← Session.enqueues, h.1]
  · intro hshort
    refine (h.2 ?_).begin c hshort
    have hle : s.manager.queue.length ≤ (s.manager.perform c).1.queue.length := by
      rw [hlength]
      exact Nat.le_add_right _ _
    exact Nat.lt_of_le_of_lt hle hshort

/-- A call, with all calls that the callback makes in it, keeps this. -/
theorem exec_kept (onChanged : Option (Task Mission → Code Mission Mem Unit)) (fuel : Nat)
    (c : Call Mission) (w : World Mission Mem) (h : w.1.Kept onChanged.isSome) :
    (exec onChanged fuel c w).world.1.Kept onChanged.isSome := by
  induction fuel generalizing c w with
  | zero => exact h
  | succ fuel ih =>
    have hbegin := h.begin c
    rw [exec, Outcome.world_bind_returned]
    cases onChanged with
    | none => simpa [notify, Session.begin] using hbegin
    | some cb =>
      cases hchanged : (w.1.manager.perform c).2.1 with
      | none => simpa [notify, Session.begin, hchanged] using hbegin
      | some t =>
        apply Prog.run_keeps ih
        simpa [Session.begin, hchanged] using hbegin

theorem run_kept {α : Type} (onChanged : Option (Task Mission → Code Mission Mem Unit))
    (p : Code Mission Mem α) (m : Mem) (fuel : Nat) :
    (p.run (exec onChanged fuel) ({}, m)).world.1.Kept onChanged.isSome := by
  apply Prog.run_keeps (exec_kept onChanged fuel)
  exact ⟨rfl, fun _ => ⟨⟨Nat.two_pow_pos 32, rfl, rfl, nofun⟩, nofun, fun _ => ⟨nofun, fun _ _ => rfl⟩⟩⟩

/-- Over a run of a program that calls the manager, with all calls of the callback: each change is
reported once and every `cancel` does as it should if and only if no `cancel` is called for a task
that is cancelled already. -/
theorem changes_reported_once_iff {α : Type}
    (onChanged : Option (Task Mission → Code Mission Mem Unit)) (p : Code Mission Mem α) (m : Mem)
    (fuel : Nat) (hfew : (p.run (exec onChanged fuel) ({}, m)).world.1.enqueues < 2 ^ 32) :
    let s := (p.run (exec onChanged fuel) ({}, m)).world.1
    (s.Reported onChanged.isSome ∧
        ∀ before taskId, (.cancel taskId, before) ∈ s.calls → CancelOk before taskId) ↔
      ∀ before taskId, (.cancel taskId, before) ∈ s.calls → NotCancelled before taskId := by
  intro s
  obtain ⟨hcount, hsound⟩ := run_kept onChanged p m fuel
  have hs : s.Sound onChanged.isSome := hsound (by rwa [← hcount])
  constructor
  · rintro ⟨-, hok⟩ before taskId hmem
    exact ((hs.found _ hmem).cancelOk_iff taskId).mp (hok before taskId hmem)
  · intro hnot
    refine ⟨⟨?_, (hs.told hnot).2⟩, ?_⟩
    · intro t ht hnotifies
      rw [(hs.told hnot).1 t ht hnotifies]
      split
      · exact Or.inl rfl
      · exact Or.inr rfl
    · intro before taskId hmem
      exact ((hs.found _ hmem).cancelOk_iff taskId).mpr (hnot before taskId hmem)

/-- A program that cancels its task twice, and returns what the second `cancel` does. -/
def cancelTwice : Code Unit Unit Bool :=
  .call (.enqueue { mission := () }) fun id =>
    .call (.cancel id) fun _ => .call (.cancel id) .ret

/-- A callback that cancels each task that it is told of while this is pending. -/
def refuse : Task Unit → Code Unit Unit Unit :=
  fun t => if t.status = .pending then .call (.cancel t.id) fun _ => .ret () else .ret ()

theorem changes_reported_once_refused :
    let s := ((Prog.call (.enqueue { mission := () }) .ret : Code Unit Unit UInt32).run
      (exec (some refuse) 2) ({}, ())).world.1
    (s.Reported true ∧
        ∀ before taskId, (.cancel taskId, before) ∈ s.calls → CancelOk before taskId) ↔
      ∀ before taskId, (.cancel taskId, before) ∈ s.calls → NotCancelled before taskId :=
  changes_reported_once_iff (some refuse) _ () 2 (by decide)

/-- The second `cancel` of a task returns true, and the callback is told again. -/
theorem cancelled_twice_reported :
    (¬ ∀ (onChanged : Option (Task Unit → Code Unit Unit Unit)) (p : Code Unit Unit Bool)
        (fuel : Nat), (p.run (exec onChanged fuel) ({}, ())).world.1.enqueues < 2 ^ 32 →
      let s := (p.run (exec onChanged fuel) ({}, ())).world.1
      s.Reported onChanged.isSome ∧
        ∀ before taskId, (.cancel taskId, before) ∈ s.calls → CancelOk before taskId) ∧
    cancelTwice.run (exec (some fun _ => .ret ()) 1) ({}, ()) =
      .returned true (cancelTwice.run (exec (some fun _ => .ret ()) 1) ({}, ())).world ∧
    notifications (cancelTwice.run (exec (some fun _ => .ret ()) 1) ({}, ())).world.1.log 1 =
      [.pending, .cancelled, .cancelled] := by
  refine ⟨?_, rfl, rfl⟩
  intro h
  have hreported := (h (some fun _ => .ret ()) cancelTwice 1 (by decide)).1.1
    { id := 1, status := .cancelled, mission := () } (by decide) rfl
  revert hreported
  decide

end MissionManager

end Patrol.Business
