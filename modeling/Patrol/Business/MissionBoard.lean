import Patrol.Business.MissionManager

/-! What a `MissionManager` holds after any calls, also from its callback: all tasks in the order in which
they were enqueued, each cancelled exactly if its id was cancelled since. -/

namespace Patrol.Business

open ProofKit

namespace MissionManager

variable {Mission Mem : Type}

/-- `currentTask`, a copy of the task that it points to. -/
def currentTask (s : MissionManager Mission) : Option (Task Mission) :=
  s.queue.find? fun t => t.status = .running

def Call.cancels (taskId : UInt32) : Call Mission → Bool
  | .enqueue _ => false
  | .cancel id => id = taskId

/-- The id of a task that is enqueued after `n` others. -/
def idOf (n : Nat) : UInt32 := UInt32.ofNat (n + 1)

/-- The tasks that calls enqueue after `n` others, and what becomes of them.  The ids come again after
2^32 tasks; a `cancel` is for the first task that has the id. -/
def tasksOf (n : Nat) : List (Call Mission) → List (Task Mission)
  | [] => []
  | .enqueue task :: calls =>
    { task with
      id := idOf n
      status := if n < 2 ^ 32 ∧ calls.any (Call.cancels (idOf n)) then .cancelled else .pending } ::
      tasksOf (n + 1) calls
  | .cancel _ :: calls => tasksOf n calls

theorem idOf_inj {n k : Nat} (hn : n < 2 ^ 32) (hk : k < 2 ^ 32) (h : idOf n = idOf k) : n = k := by
  have hnat := congrArg UInt32.toNat h
  rw [idOf, idOf, UInt32.toNat_ofNat', UInt32.toNat_ofNat'] at hnat
  omega

theorem exists_idOf (taskId : UInt32) : ∃ k < 2 ^ 32, idOf k = taskId := by
  refine ⟨(taskId - 1).toNat, (taskId - 1).toNat_lt, ?_⟩
  rw [idOf, UInt32.ofNat_add, UInt32.ofNat_toNat]
  exact UInt32.sub_add_cancel taskId 1

theorem tasksOf_status {n : Nat} {calls : List (Call Mission)} :
    ∀ t ∈ tasksOf n calls, t.status = .pending ∨ t.status = .cancelled := by
  induction calls generalizing n with
  | nil =>
    intro t ht
    cases ht
  | cons c calls ih =>
    cases c with
    | enqueue task =>
      rw [tasksOf, List.forall_mem_cons]
      refine ⟨?_, ih⟩
      dsimp only
      split
      · exact Or.inr rfl
      · exact Or.inl rfl
    | cancel taskId => exact ih

theorem tasksOf_enqueue (n : Nat) (calls : List (Call Mission)) (task : Task Mission) :
    tasksOf n (calls ++ [.enqueue task]) = tasksOf n calls ++
      [{ task with id := idOf (n + calls.countP Call.isEnqueue), status := .pending }] := by
  induction calls generalizing n with
  | nil => simp [tasksOf]
  | cons c calls ih =>
    cases c with
    | enqueue task' =>
      have hcount : n + 1 + calls.countP Call.isEnqueue =
          n + (Call.enqueue task' :: calls).countP Call.isEnqueue := by
        rw [List.countP_cons_of_pos rfl]
        omega
      rw [List.cons_append, tasksOf, tasksOf, ih, hcount, List.any_append]
      simp [Call.cancels]
    | cancel taskId =>
      rw [List.cons_append, tasksOf, tasksOf, ih, List.countP_cons_of_neg Bool.false_ne_true]

theorem any_cancels (calls : List (Call Mission)) (id taskId : UInt32) :
    (calls ++ [Call.cancel id]).any (Call.cancels taskId) =
      (calls.any (Call.cancels taskId) || decide (id = taskId)) := by
  rw [List.any_append, List.any_cons, List.any_nil, Bool.or_false]
  rfl

/-- A `cancel` changes nothing of tasks that come after the one with its id. -/
theorem tasksOf_cancel_after {n k : Nat} (hk : k < 2 ^ 32) (h : k < n) (calls : List (Call Mission)) :
    tasksOf n (calls ++ [.cancel (idOf k)]) = tasksOf n calls := by
  induction calls generalizing n with
  | nil => rfl
  | cons c calls ih =>
    cases c with
    | enqueue task =>
      have hany : (n < 2 ^ 32 ∧ (calls.any (Call.cancels (idOf n)) || decide (idOf k = idOf n))) ↔
          (n < 2 ^ 32 ∧ calls.any (Call.cancels (idOf n))) := by
        apply and_congr_right
        intro hn
        have hne : idOf k ≠ idOf n := by
          intro heq
          have := idOf_inj hk hn heq
          omega
        rw [decide_eq_false hne, Bool.or_false]
      rw [List.cons_append, tasksOf, tasksOf, ih (Nat.lt_succ_of_lt h), any_cancels]
      simp only [hany]
    | cancel taskId => exact ih h

/-- The loop of `cancel` finds the task with the id, if this has been enqueued. -/
theorem cancelLoop_tasksOf {n k : Nat} (hk : k < 2 ^ 32) (h : n ≤ k) (calls : List (Call Mission)) :
    ((cancelLoop (idOf k) (tasksOf n calls)).map Prod.fst).getD (tasksOf n calls) =
      tasksOf n (calls ++ [.cancel (idOf k)]) := by
  induction calls generalizing n with
  | nil => rfl
  | cons c calls ih =>
    cases c with
    | enqueue task =>
      rw [List.cons_append, tasksOf, tasksOf, cancelLoop]
      by_cases heq : n = k
      · subst heq
        rw [tasksOf_cancel_after hk (Nat.lt_succ_self n), if_pos]
        · have hcancelled : n < 2 ^ 32 ∧
              (calls ++ [Call.cancel (idOf n)]).any (Call.cancels (idOf n)) = true := by
            rw [any_cancels, decide_eq_true rfl, Bool.or_true]
            exact ⟨hk, rfl⟩
          rw [Option.map_some, Option.getD_some]
          simp only [if_pos hcancelled]
        · refine ⟨rfl, ?_⟩
          intro hcompleted
          split at hcompleted <;> cases hcompleted
      · have hne : idOf n ≠ idOf k := fun hid => heq (idOf_inj (by omega) hk hid)
        rw [if_neg fun hfound => hne hfound.1, ← ih (by omega)]
        rw [any_cancels, decide_eq_false (Ne.symm hne), Bool.or_false]
        cases cancelLoop (idOf k) (tasksOf (n + 1) calls) <;> rfl
    | cancel taskId => exact ih h

/-- What the manager holds is what the calls so far make of it. -/
structure Session.Board (s : Session Mission) : Prop where
  queue : s.manager.queue = tasksOf 0 (s.calls.map Prod.fst)
  nextId : s.manager.nextId = idOf s.enqueues

theorem Session.enqueues_begin (notifies : Bool) (s : Session Mission) (c : Call Mission) :
    (s.begin notifies c).enqueues = s.enqueues + if c.isEnqueue then 1 else 0 := by
  rw [enqueues, Session.begin, List.countP_append, List.countP_singleton, ← enqueues]

theorem Session.Board.begin {s : Session Mission} (h : s.Board) (notifies : Bool)
    (c : Call Mission) : (s.begin notifies c).Board := by
  have hcalls : (s.begin notifies c).calls.map Prod.fst = s.calls.map Prod.fst ++ [c] := by
    rw [Session.begin, List.map_append]
    rfl
  have hcount : (s.calls.map Prod.fst).countP Call.isEnqueue = s.enqueues := List.countP_map
  constructor
  · rw [hcalls]
    cases c with
    | enqueue task =>
      rw [tasksOf_enqueue, ← h.queue, hcount, Nat.zero_add, ← h.nextId]
      rfl
    | cancel taskId =>
      obtain ⟨k, hk, rfl⟩ := exists_idOf taskId
      rw [← cancelLoop_tasksOf hk (Nat.zero_le k), ← h.queue]
      show (s.manager.cancel (idOf k)).1.queue = _
      rw [MissionManager.cancel]
      cases cancelLoop (idOf k) s.manager.queue <;> rfl
  · rw [s.enqueues_begin]
    cases c with
    | enqueue task =>
      show s.manager.nextId + 1 = _
      rw [h.nextId]
      exact (UInt32.ofNat_add (s.enqueues + 1) 1).symm
    | cancel taskId =>
      show (s.manager.cancel taskId).1.nextId = idOf s.enqueues
      rw [← h.nextId, MissionManager.cancel]
      split <;> rfl

/-- What the part of a call before the callback keeps, a call keeps, with all calls in it. -/
theorem exec_keeps {I : Session Mission → Prop}
    (onChanged : Option (Task Mission → Code Mission Mem Unit))
    (hbegin : ∀ s c, I s → I (s.begin onChanged.isSome c)) (fuel : Nat) (c : Call Mission)
    (w : World Mission Mem) (h : I w.1) : I (exec onChanged fuel c w).world.1 := by
  induction fuel generalizing c w with
  | zero => exact h
  | succ fuel ih =>
    have hbegun := hbegin w.1 c h
    rw [exec, Outcome.world_bind_returned]
    cases onChanged with
    | none => simpa [notify, Session.begin] using hbegun
    | some cb =>
      cases hchanged : (w.1.manager.perform c).2.1 with
      | none => simpa [notify, Session.begin, hchanged] using hbegun
      | some t =>
        apply Prog.run_keeps ih
        simpa [Session.begin, hchanged] using hbegun

/-- After any run of a program that calls the manager, with all calls of the callback, and however many
tasks there are: the queue has all tasks in the order of their `enqueue` calls, with the ids that count
these; a task is cancelled exactly if a `cancel` of its id came after its `enqueue`, and it is one of the
first 2^32; no task is ever current. -/
theorem queue_of_calls {α : Type} (onChanged : Option (Task Mission → Code Mission Mem Unit))
    (p : Code Mission Mem α) (m : Mem) (fuel : Nat) :
    let s := (p.run (exec onChanged fuel) ({}, m)).world.1
    s.manager.queue = tasksOf 0 (s.calls.map Prod.fst) ∧ s.manager.nextId = idOf s.enqueues ∧
      s.manager.currentTask = none := by
  intro s
  have hboard : s.Board :=
    Prog.run_keeps (exec_keeps onChanged (fun _ c h => h.begin _ c) fuel) p ⟨rfl, rfl⟩
  refine ⟨hboard.queue, hboard.nextId, ?_⟩
  rw [currentTask, hboard.queue, List.find?_eq_none]
  intro t ht hrunning
  rw [decide_eq_true_eq] at hrunning
  rcases tasksOf_status t ht with h | h <;> rw [h] at hrunning <;> cases hrunning

/-- A `cancel` that comes before the `enqueue` is lost. -/
example : (tasksOf 0 [.cancel 2, .enqueue { mission := "a" }, .enqueue { mission := "b" },
      .cancel 1]).map (fun t => (t.id, t.status, t.mission)) =
    [(1, .cancelled, "a"), (2, .pending, "b")] := by
  decide

end MissionManager

end Patrol.Business
