import Patrol.Core.EventBus
import Patrol.ProofKit.Mutex

/-! The calls of `EventBus` with its lock: what a call does under the lock takes steps, and between them
other threads run.  A thread that has left the lock has done all of it at once. -/

namespace Patrol.Core

open ProofKit

variable (Handler Data : Type)

/-- A call of a method. -/
inductive BusCall
  | subscribe (event : EventName) (h : Option Handler)
  | unsubscribe (id : Int32)
  | publish (event : EventName) (data : Data)

/-- What a call has done when it gives the lock back. -/
inductive BusResult
  | subscribed (event : EventName) (sub : Sub Handler)
  | unsubscribed (id : Int32)
  | copied (event : EventName) (data : Data) (hs : List (Sub Handler))

/-- What a thread has still to do under the lock. -/
inductive BusJob
  | subscribe (event : EventName) (h : Option Handler)
  | slot (event : EventName) (sub : Sub Handler)
  | pushBack (event : EventName) (sub : Sub Handler)
  | scan (id : Int32) (k i : Nat)
  | find (event : EventName) (data : Data)
  | copy (event : EventName) (data : Data) (i : Nat) (hs : List (Sub Handler))
  | done (r : BusResult Handler Data)

variable {Handler Data}

namespace EventBus

/-- One step under the lock. -/
def act (job : BusJob Handler Data) (bus : EventBus Handler) :
    Option (BusJob Handler Data) × EventBus Handler :=
  match job with
  | .subscribe event h => (some (.slot event ⟨bus.nextId, h⟩), { bus with nextId := bus.nextId + 1 })
  | .slot event sub =>
    (some (.pushBack event sub),
      if (bus.subs.lookup event).isSome then bus
      else { bus with subs := OrderedMap.insert event [] bus.subs })
  | .pushBack event sub =>
    (some (.done (.subscribed event sub)),
      { bus with subs := OrderedMap.insert event (bus.subscribers event ++ [sub]) bus.subs })
  | .scan id k i =>
    match bus.subs[k]? with
    | none => (some (.done (.unsubscribed id)), bus)
    | some (event, v) =>
      match v[i]? with
      | none => (some (.scan id (k + 1) 0), bus)
      | some s =>
        if s.id = id then
          (some (.done (.unsubscribed id)),
            { bus with subs := bus.subs.set k (event, v.eraseIdx i) })
        else (some (.scan id k (i + 1)), bus)
  | .find event data =>
    if (bus.subs.lookup event).isSome then (some (.copy event data 0 []), bus)
    else (some (.done (.copied event data [])), bus)
  | .copy event data i hs =>
    match (bus.subscribers event)[i]? with
    | none => (some (.done (.copied event data hs)), bus)
    | some s => (some (.copy event data (i + 1) (hs ++ [s])), bus)
  | .done _ => (none, bus)

/-- The steps of the loops of `unsubscribe` that are left, from subscriber `i` of the first event on. -/
def stepsLeft : List (EventName × List (Sub Handler)) → Nat → Nat
  | [], _ => 1
  | kv :: kvs, i => kv.2.length - i + 1 + stepsLeft kvs 0

def size (job : BusJob Handler Data) (bus : EventBus Handler) : Nat :=
  match job with
  | .subscribe _ _ => 3
  | .slot _ _ => 2
  | .pushBack _ _ => 1
  | .scan _ k i => stepsLeft (bus.subs.drop k) i
  | .find event _ => (bus.subscribers event).length + 2
  | .copy event _ i _ => (bus.subscribers event).length - i + 1
  | .done _ => 0

theorem stepsLeft_pos (kvs : List (EventName × List (Sub Handler))) (i : Nat) :
    0 < stepsLeft kvs i := by
  cases kvs with
  | nil => exact Nat.one_pos
  | cons kv kvs =>
    rw [stepsLeft]
    omega

theorem drop_of_getElem? {kvs : List (EventName × List (Sub Handler))} {k : Nat}
    {kv : EventName × List (Sub Handler)} (h : kvs[k]? = some kv) :
    kvs.drop k = kv :: kvs.drop (k + 1) := by
  obtain ⟨hlt, rfl⟩ := List.getElem?_eq_some_iff.mp h
  exact List.drop_eq_getElem_cons hlt

theorem size_act (job : BusJob Handler Data) (bus : EventBus Handler) (rest : BusJob Handler Data)
    (bus' : EventBus Handler) (h : act job bus = (some rest, bus')) : size rest bus' < size job bus := by
  unfold act at h
  split at h
  · cases h
    exact Nat.lt_succ_self 2
  · cases h
    exact Nat.lt_succ_self 1
  · cases h
    exact Nat.one_pos
  · next id k i =>
    split at h
    · cases h
      exact stepsLeft_pos _ i
    · next event v hkv =>
      split at h
      · next hi =>
        cases h
        rw [size, size, drop_of_getElem? hkv, stepsLeft]
        omega
      · next s hi =>
        have hlt := (List.getElem?_eq_some_iff.mp hi).1
        split at h
        · cases h
          exact stepsLeft_pos _ i
        · cases h
          rw [size, size, drop_of_getElem? hkv, stepsLeft, stepsLeft]
          dsimp only
          omega
  · split at h
    · cases h
      rw [size, size]
      omega
    · cases h
      exact Nat.succ_pos _
  · next event data i hs =>
    split at h
    · cases h
      exact Nat.succ_pos _
    · next s hi =>
      have hlt := (List.getElem?_eq_some_iff.mp hi).1
      cases h
      rw [size, size]
      omega
  · cases h

theorem act_none {job : BusJob Handler Data} {x y : EventBus Handler}
    (h : act job x = (none, y)) : (∃ r, job = .done r) ∧ y = x := by
  unfold act at h
  split at h
  · cases h
  · cases h
  · cases h
  · split at h
    · cases h
    · split at h
      · cases h
      · split at h <;> cases h
  · split at h <;> cases h
  · split at h <;> cases h
  · next r =>
    cases h
    exact ⟨⟨r, rfl⟩, rfl⟩

def jobs : Jobs (EventBus Handler) (BusJob Handler Data) where
  act := act
  size := size
  size_act := size_act

/-! ### What a call has done when it gives the lock back -/

theorem eraseId_append {id : Int32} {a b : List (Sub Handler)} (h : eraseId id a = none) :
    eraseId id (a ++ b) = (eraseId id b).map (a ++ ·) := by
  induction a with
  | nil => simp
  | cons s a ih =>
    rw [eraseId] at h
    split at h
    · cases h
    · next hid =>
      rw [List.cons_append, eraseId, if_neg hid, ih (Option.map_eq_none_iff.mp h), Option.map_map]
      rfl

theorem eraseFrom_append {id : Int32} {a b : List (EventName × List (Sub Handler))}
    (h : ∀ kv ∈ a, eraseId id kv.2 = none) : eraseFrom id (a ++ b) = a ++ eraseFrom id b := by
  induction a with
  | nil => rfl
  | cons kv a ih =>
    rw [List.forall_mem_cons] at h
    rw [List.cons_append, eraseFrom, h.1, ih h.2]
    rfl

/-- The loops of `unsubscribe` have not found the id before subscriber `i` of event `k`. -/
structure Scanned (id : Int32) (m : List (EventName × List (Sub Handler))) (k i : Nat) : Prop where
  events : ∀ kv ∈ m.take k, eraseId id kv.2 = none
  subs : ∀ kv, m[k]? = some kv → eraseId id (kv.2.take i) = none

theorem Scanned.start (id : Int32) (m : List (EventName × List (Sub Handler))) : Scanned id m 0 0 where
  events _ hkv := by simp at hkv
  subs kv _ := by rw [List.take_zero, eraseId]

theorem Scanned.none {id : Int32} {m : List (EventName × List (Sub Handler))} {k i : Nat}
    (h : Scanned id m k i) (hk : m[k]? = none) : eraseFrom id m = m := by
  have hall : ∀ kv ∈ m, eraseId id kv.2 = Option.none := by
    have hevents := h.events
    rwa [List.take_of_length_le (List.getElem?_eq_none_iff.mp hk)] at hevents
  have herase := eraseFrom_append (b := []) hall
  rwa [List.append_nil, eraseFrom, List.append_nil] at herase

theorem Scanned.nextEvent {id : Int32} {m : List (EventName × List (Sub Handler))} {k i : Nat}
    {kv : EventName × List (Sub Handler)} (h : Scanned id m k i) (hk : m[k]? = some kv)
    (hi : kv.2[i]? = Option.none) : Scanned id m (k + 1) 0 where
  events := by
    have hlast := h.subs kv hk
    rw [List.take_of_length_le (List.getElem?_eq_none_iff.mp hi)] at hlast
    rw [List.take_add_one, hk]
    simp only [Option.toList_some, List.forall_mem_append, List.forall_mem_singleton]
    exact ⟨h.events, hlast⟩
  subs kv' _ := by rw [List.take_zero, eraseId]

theorem Scanned.next {id : Int32} {m : List (EventName × List (Sub Handler))} {k i : Nat}
    {kv : EventName × List (Sub Handler)} {s : Sub Handler} (h : Scanned id m k i)
    (hk : m[k]? = some kv) (hi : kv.2[i]? = some s) (hne : s.id ≠ id) : Scanned id m k (i + 1) where
  events := h.events
  subs kv' hkv' := by
    obtain rfl : kv = kv' := Option.some.inj (hk.symm.trans hkv')
    rw [List.take_add_one, hi, Option.toList_some, eraseId_append (h.subs kv hk), eraseId, if_neg hne]
    rfl

theorem Scanned.found {id : Int32} {m : List (EventName × List (Sub Handler))} {k i : Nat}
    {event : EventName} {v : List (Sub Handler)} {s : Sub Handler} (h : Scanned id m k i)
    (hk : m[k]? = some (event, v)) (hi : v[i]? = some s) (hid : s.id = id) :
    eraseFrom id m = m.set k (event, v.eraseIdx i) := by
  obtain ⟨hklt, hkv⟩ := List.getElem?_eq_some_iff.mp hk
  obtain ⟨hilt, hs⟩ := List.getElem?_eq_some_iff.mp hi
  have herase : eraseId id v = some (v.eraseIdx i) := by
    have hsplit := eraseId_append (b := v.drop i) (h.subs _ hk)
    rw [List.take_append_drop, List.drop_eq_getElem_cons hilt, hs, eraseId, if_pos hid,
      Option.map_some] at hsplit
    rw [hsplit, List.eraseIdx_eq_take_drop_succ]
  have hsplit := eraseFrom_append (b := m.drop k) h.events
  rw [List.take_append_drop, List.drop_eq_getElem_cons hklt, hkv, eraseFrom, herase] at hsplit
  rw [hsplit, List.set_eq_take_append_cons_drop, if_pos hklt]

end EventBus

namespace BusCall

open EventBus

/-- What a call does under the lock. -/
def job : BusCall Handler Data → BusJob Handler Data
  | .subscribe event h => .subscribe event h
  | .unsubscribe id => .scan id 0 0
  | .publish event data => .find event data

/-- What a call makes of the bus. -/
def after (bus : EventBus Handler) : BusCall Handler Data → EventBus Handler
  | .subscribe event h => (bus.subscribe event h).1
  | .unsubscribe id => bus.unsubscribe id
  | .publish _ _ => bus

/-- What a call has done in a state of the bus. -/
def result (bus : EventBus Handler) : BusCall Handler Data → BusResult Handler Data
  | .subscribe event h => .subscribed event ⟨(bus.subscribe event h).2, h⟩
  | .unsubscribe id => .unsubscribed id
  | .publish event data => .copied event data (bus.subscribers event)

/-- What a call has come to under the lock, when it found the bus in state `x`. -/
inductive During (x : EventBus Handler) :
    BusCall Handler Data → BusJob Handler Data → EventBus Handler → Prop
  | subscribe (event : EventName) (h : Option Handler) :
    During x (.subscribe event h) (.subscribe event h) x
  | slot (event : EventName) (h : Option Handler) :
    During x (.subscribe event h) (.slot event ⟨x.nextId, h⟩) { x with nextId := x.nextId + 1 }
  | pushBack (event : EventName) (h : Option Handler) {subs : List (EventName × List (Sub Handler))}
      (hsubs : ∀ v, OrderedMap.insert event v subs = OrderedMap.insert event v x.subs)
      (hlookup : (subs.lookup event).getD [] = x.subscribers event) :
    During x (.subscribe event h) (.pushBack event ⟨x.nextId, h⟩) ⟨subs, x.nextId + 1⟩
  | scan {id : Int32} {k i : Nat} (hscanned : Scanned id x.subs k i) :
    During x (.unsubscribe id) (.scan id k i) x
  | find (event : EventName) (data : Data) : During x (.publish event data) (.find event data) x
  | copy (event : EventName) (data : Data) (i : Nat) :
    During x (.publish event data) (.copy event data i ((x.subscribers event).take i)) x
  | done (c : BusCall Handler Data) : During x c (.done (c.result x)) (c.after x)

theorem During.act {x y z : EventBus Handler} {c : BusCall Handler Data} {job rest : BusJob Handler Data}
    (h : During x c job y) (hact : EventBus.act job y = (some rest, z)) : During x c rest z := by
  cases h with
  | subscribe event h =>
    cases hact
    exact .slot event h
  | slot event h =>
    rw [EventBus.act] at hact
    split at hact
    · cases hact
      exact .pushBack event h (fun _ => rfl) rfl
    · next hnone =>
      cases hact
      refine .pushBack event h (fun v => OrderedMap.insert_insert event v [] x.subs) ?_
      rw [Option.not_isSome_iff_eq_none] at hnone
      rw [OrderedMap.lookup_insert, if_pos BEq.rfl, EventBus.subscribers, hnone]
      rfl
  | pushBack event h hsubs hlookup =>
    cases hact
    rw [EventBus.subscribers, hlookup, hsubs]
    exact .done (.subscribe event h)
  | @scan id k i hscanned =>
    rw [EventBus.act] at hact
    split at hact
    · next hk =>
      cases hact
      have hdone := During.done (x := x) (.unsubscribe id : BusCall Handler Data)
      rwa [after, EventBus.unsubscribe, hscanned.none hk] at hdone
    · next event v hk =>
      split at hact
      · next hi =>
        cases hact
        exact .scan (hscanned.nextEvent hk hi)
      · next s hi =>
        split at hact
        · next hid =>
          cases hact
          have hdone := During.done (x := x) (.unsubscribe id : BusCall Handler Data)
          rwa [after, EventBus.unsubscribe, hscanned.found hk hi hid] at hdone
        · next hid =>
          cases hact
          exact .scan (hscanned.next hk hi hid)
  | find event data =>
    rw [EventBus.act] at hact
    split at hact
    · cases hact
      exact .copy event data 0
    · next hnone =>
      cases hact
      have hdone := During.done (x := x) (.publish event data : BusCall Handler Data)
      rw [Option.not_isSome_iff_eq_none] at hnone
      rwa [result, EventBus.subscribers, hnone] at hdone
  | copy event data i =>
    rw [EventBus.act] at hact
    split at hact
    · next hi =>
      cases hact
      rw [List.take_of_length_le (List.getElem?_eq_none_iff.mp hi)]
      exact .done (.publish event data)
    · next s hi =>
      cases hact
      have hcopy := During.copy (x := x) event data (i + 1)
      rwa [List.take_add_one, hi] at hcopy
  | done c => cases hact

/-- Where a thread has done a part of a call, it has come to that. -/
theorem during_of_part {x y : EventBus Handler} {c : BusCall Handler Data} {rest : BusJob Handler Data}
    (h : EventBus.jobs.Part c.job x rest y) : During x c rest y := by
  induction h with
  | start =>
    cases c with
    | subscribe event h => exact .subscribe event h
    | unsubscribe id => exact .scan (Scanned.start id x.subs)
    | publish event data => exact .find event data
  | act h hact ih => exact ih.act hact

/-- A thread that is done has done what the call does at once. -/
theorem eq_of_done {x y : EventBus Handler} {c : BusCall Handler Data} {r : BusResult Handler Data}
    (h : EventBus.jobs.Part c.job x (.done r) y) : y = c.after x ∧ r = c.result x := by
  cases during_of_part h with
  | done c => exact ⟨rfl, rfl⟩

end BusCall

end Patrol.Core
