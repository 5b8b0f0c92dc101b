import Mathlib.Data.List.Perm.Lattice
import Patrol.Core.EventBus

/-! What the history of a bus says: which subscriptions are live, and which handlers a publication
calls. -/

namespace Patrol.Core

open ProofKit

variable {Handler Data : Type}

/-! ### Live subscriptions -/

/-- The live subscriptions after an entry of the history, in the order of their subscription. -/
def Entry.live (subs : List (EventName × Sub Handler)) :
    Entry Handler Data → List (EventName × Sub Handler)
  | .subscribed event sub => subs ++ [(event, sub)]
  | .unsubscribed id => subs.filter fun s => s.2.id ≠ id
  | _ => subs

def live (log : List (Entry Handler Data)) : List (EventName × Sub Handler) :=
  log.foldl Entry.live []

/-- The live subscriptions to an event. -/
def liveAt (log : List (Entry Handler Data)) (event : EventName) : List (Sub Handler) :=
  ((live log).filter fun s => s.1 = event).map Prod.snd

def Entry.subscribedId : Entry Handler Data → Option Int32
  | .subscribed _ sub => some sub.id
  | _ => none

/-- The ids that `subscribe` has returned. -/
def subscribedIds (log : List (Entry Handler Data)) : List Int32 :=
  log.filterMap Entry.subscribedId

theorem live_concat (log : List (Entry Handler Data)) (x : Entry Handler Data) :
    live (log ++ [x]) = x.live (live log) := by
  rw [live, List.foldl_append]
  rfl

theorem subscribedIds_concat (log : List (Entry Handler Data)) (x : Entry Handler Data) :
    subscribedIds (log ++ [x]) = subscribedIds log ++ x.subscribedId.toList := by
  rw [subscribedIds, List.filterMap_append]
  cases h : x.subscribedId <;> simp [subscribedIds, h]

/-- A live subscription was subscribed, and what was subscribed earlier is live earlier. -/
theorem live_sublist (log : List (Entry Handler Data)) :
    ((live log).map fun s => s.2.id).Sublist (subscribedIds log) := by
  induction log using List.reverseRecOn with
  | nil => exact List.Sublist.slnil
  | append_singleton log x ih =>
    rw [live_concat, subscribedIds_concat]
    cases x with
    | subscribed event sub =>
      rw [Entry.live, List.map_append]
      exact ih.append (List.Sublist.refl _)
    | unsubscribed id =>
      apply List.Sublist.trans _ (List.sublist_append_left _ _)
      exact (List.filter_sublist.map _).trans ih
    | _ => exact ih.trans (List.sublist_append_left _ _)

namespace EventBus

/-! ### The bus as a map -/

/-- What filtering out an id that no subscriber has leaves. -/
theorem filter_absent {id : Int32} {v : List (Sub Handler)} (h : id ∉ v.map Sub.id) :
    (v.filter fun s => s.id ≠ id) = v := by
  apply List.filter_eq_self.mpr
  intro s hs
  simp only [ne_eq, decide_not, Bool.not_eq_true', decide_eq_false_iff_not]
  rintro rfl
  exact h (List.mem_map_of_mem hs)

theorem eraseId_none {id : Int32} {v : List (Sub Handler)} (h : eraseId id v = none) :
    id ∉ v.map Sub.id := by
  induction v with
  | nil => exact List.not_mem_nil
  | cons s v ih =>
    rw [eraseId] at h
    split at h
    · cases h
    · next hid =>
      simp only [List.map_cons, List.mem_cons, not_or]
      exact ⟨fun heq => hid heq.symm, ih (Option.map_eq_none_iff.mp h)⟩

theorem eraseId_some {id : Int32} {v v' : List (Sub Handler)} (h : eraseId id v = some v')
    (hnodup : (v.map Sub.id).Nodup) :
    id ∈ v.map Sub.id ∧ v' = v.filter fun s => s.id ≠ id := by
  induction v generalizing v' with
  | nil => cases h
  | cons s v ih =>
    obtain ⟨hs, hv⟩ := List.nodup_cons.mp hnodup
    rw [eraseId] at h
    split at h
    · next hid =>
      cases h
      subst hid
      refine ⟨List.mem_cons_self, ?_⟩
      rw [List.filter_cons_of_neg (by simp), filter_absent hs]
    · next hid =>
      obtain ⟨w, hw, rfl⟩ := Option.map_eq_some_iff.mp h
      obtain ⟨hmem, rfl⟩ := ih hw hv
      refine ⟨List.mem_cons_of_mem _ hmem, ?_⟩
      rw [List.filter_cons_of_pos (by simpa using hid)]

/-- Where no id is twice on the bus, the loop of `unsubscribe` takes the id out of every event. -/
theorem eraseFrom_eq {id : Int32} {m : List (EventName × List (Sub Handler))}
    (hnodup : ((m.flatMap Prod.snd).map Sub.id).Nodup) :
    eraseFrom id m = m.map fun kv => (kv.1, kv.2.filter fun s => s.id ≠ id) := by
  induction m with
  | nil => rfl
  | cons kv m ih =>
    obtain ⟨event, v⟩ := kv
    rw [List.flatMap_cons, List.map_append] at hnodup
    obtain ⟨hv, hm, hcross⟩ := List.nodup_append.mp hnodup
    rw [eraseFrom, List.map_cons]
    split
    · next v' herase =>
      obtain ⟨hmem, rfl⟩ := eraseId_some herase hv
      have hrest : ∀ kv ∈ m, (kv.1, kv.2.filter fun s => s.id ≠ id) = kv := by
        intro kv hkv
        rw [filter_absent]
        intro hid
        obtain ⟨s, hs, heq⟩ := List.mem_map.mp hid
        apply hcross id hmem id _ rfl
        rw [← heq]
        exact List.mem_map_of_mem (List.mem_flatMap_of_mem hkv hs)
      rw [List.map_congr_left hrest, List.map_id']
    · next herase =>
      rw [ih hm, filter_absent (eraseId_none herase)]

theorem subscribe_subs (bus : EventBus Handler) (event : EventName) (h : Option Handler) :
    (bus.subscribe event h).1.subs =
      OrderedMap.insert event (bus.subscribers event ++ [⟨bus.nextId, h⟩]) bus.subs := rfl

theorem subscribers_subscribe (bus : EventBus Handler) (event event' : EventName)
    (h : Option Handler) :
    (bus.subscribe event h).1.subscribers event' =
      if event' = event then bus.subscribers event ++ [⟨bus.nextId, h⟩]
      else bus.subscribers event' := by
  rw [subscribers, subscribe_subs, OrderedMap.lookup_insert]
  simp only [beq_iff_eq]
  split <;> rfl

/-- A subscription adds one subscriber to those of all events. -/
theorem all_subscribe {bus : EventBus Handler} (hsorted : OrderedMap.Sorted bus.subs)
    (event : EventName) (h : Option Handler) :
    (bus.subscribe event h).1.all.Perm (bus.all ++ [⟨bus.nextId, h⟩]) := by
  obtain ⟨a, b, hinsert, -, -, ⟨hnone, hm⟩ | ⟨v, hsome, hm⟩⟩ :=
    OrderedMap.insert_split event (bus.subscribers event ++ [⟨bus.nextId, h⟩]) hsorted
  · have hsubs : bus.subscribers event = [] := by rw [subscribers, hnone]; rfl
    rw [all, subscribe_subs, hinsert, hsubs, all, hm]
    simp only [List.flatMap_append, List.flatMap_cons, List.nil_append, List.append_assoc]
    exact List.Perm.append_left _ List.perm_append_comm
  · have hsubs : bus.subscribers event = v := by rw [subscribers, hsome]; rfl
    rw [all, subscribe_subs, hinsert, hsubs, all, hm]
    simp only [List.flatMap_append, List.flatMap_cons, List.append_assoc]
    exact List.Perm.append_left _ (List.Perm.append_left _ List.perm_append_comm)

theorem subscribers_unsubscribe {bus : EventBus Handler} (hnodup : (bus.all.map Sub.id).Nodup)
    (id : Int32) (event : EventName) :
    (bus.unsubscribe id).subscribers event =
      (bus.subscribers event).filter fun s => s.id ≠ id := by
  rw [subscribers, unsubscribe, eraseFrom_eq hnodup, OrderedMap.lookup_map, subscribers]
  cases bus.subs.lookup event <;> rfl

theorem all_unsubscribe {bus : EventBus Handler} (hnodup : (bus.all.map Sub.id).Nodup)
    (id : Int32) : (bus.unsubscribe id).all = bus.all.filter fun s => s.id ≠ id := by
  rw [all, unsubscribe, eraseFrom_eq hnodup, all, List.filter_flatMap, List.flatMap_map]

end EventBus

/-! ### The bus holds the live subscriptions -/

/-- Ids are given out one after the other from zero. -/
structure Numbered (bus : EventBus Handler) (log : List (Entry Handler Data)) : Prop where
  ids : subscribedIds log = (List.range (subscribedIds log).length).map Int32.ofNat
  next : bus.nextId = Int32.ofNat (subscribedIds log).length

/-- What the bus holds are the live subscriptions. -/
structure HoldsLive (bus : EventBus Handler) (log : List (Entry Handler Data)) : Prop where
  subscribers : ∀ event, bus.subscribers event = liveAt log event
  all : bus.all.Perm ((live log).map Prod.snd)

theorem Numbered.subscribe {bus : EventBus Handler} {log : List (Entry Handler Data)}
    (h : Numbered bus log) (event : EventName) (handler : Option Handler) :
    Numbered (bus.subscribe event handler).1
      (log ++ [.subscribed event ⟨(bus.subscribe event handler).2, handler⟩]) := by
  have hids : subscribedIds (log ++ [.subscribed event ⟨(bus.subscribe event handler).2, handler⟩])
      = subscribedIds log ++ [bus.nextId] := subscribedIds_concat _ _
  refine ⟨?_, ?_⟩
  · rw [hids, List.length_append, List.length_singleton, List.range_succ, List.map_append,
      List.map_singleton, ← h.next, ← h.ids]
  · rw [hids, List.length_append, List.length_singleton]
    show bus.nextId + 1 = _
    rw [h.next, Int32.ofNat_add]
    rfl

/-- The ids that were given out differ, as long as there are fewer than an `int` can count. -/
theorem Numbered.nodup {bus : EventBus Handler} {log : List (Entry Handler Data)}
    (h : Numbered bus log) (hfew : (subscribedIds log).length < 2 ^ 31) :
    (subscribedIds log).Nodup := by
  rw [h.ids]
  apply List.Nodup.map_on _ List.nodup_range
  intro i hi j hj heq
  rw [List.mem_range] at hi hj
  have hint := congrArg Int32.toInt heq
  rw [Int32.toInt_ofNat_of_lt (by omega), Int32.toInt_ofNat_of_lt (by omega)] at hint
  exact Int.natCast_inj.mp hint

theorem Numbered.lt_next {bus : EventBus Handler} {log : List (Entry Handler Data)}
    (h : Numbered bus log) (hfew : (subscribedIds log).length < 2 ^ 31) {id : Int32}
    (hid : id ∈ subscribedIds log) : id < bus.nextId := by
  rw [h.ids] at hid
  obtain ⟨i, hi, rfl⟩ := List.mem_map.mp hid
  rw [List.mem_range] at hi
  rw [h.next, Int32.lt_iff_toInt_lt, Int32.toInt_ofNat_of_lt (by omega),
    Int32.toInt_ofNat_of_lt hfew]
  exact Int.ofNat_lt.mpr hi

theorem HoldsLive.mem_ids {bus : EventBus Handler} {log : List (Entry Handler Data)}
    (h : HoldsLive bus log) {sub : Sub Handler} (hsub : sub ∈ bus.all) :
    sub.id ∈ subscribedIds log := by
  obtain ⟨s, hs, rfl⟩ := List.mem_map.mp (h.all.mem_iff.mp hsub)
  exact (live_sublist log).subset (List.mem_map_of_mem hs)

theorem HoldsLive.nodup {bus : EventBus Handler} {log : List (Entry Handler Data)}
    (h : HoldsLive bus log) (hids : (subscribedIds log).Nodup) : (bus.all.map Sub.id).Nodup := by
  rw [(h.all.map Sub.id).nodup_iff, List.map_map]
  exact (live_sublist log).nodup hids

theorem liveAt_subscribed (log : List (Entry Handler Data)) (event event' : EventName)
    (sub : Sub Handler) :
    liveAt (log ++ [.subscribed event sub]) event' =
      if event' = event then liveAt log event ++ [sub] else liveAt log event' := by
  rw [liveAt, live_concat, Entry.live, List.filter_append, List.map_append]
  split
  · next h =>
    subst h
    simp [liveAt]
  · next h =>
    simp [liveAt, Ne.symm h]

theorem liveAt_unsubscribed (log : List (Entry Handler Data)) (event : EventName) (id : Int32) :
    liveAt (log ++ [.unsubscribed id]) event = (liveAt log event).filter fun s => s.id ≠ id := by
  rw [liveAt, live_concat, Entry.live, liveAt, List.filter_map, List.filter_filter,
    List.filter_filter]
  congr 2
  funext s
  exact Bool.and_comm _ _

theorem HoldsLive.subscribe {bus : EventBus Handler} {log : List (Entry Handler Data)}
    (h : HoldsLive bus log) (hsorted : OrderedMap.Sorted bus.subs) (event : EventName)
    (handler : Option Handler) :
    HoldsLive (bus.subscribe event handler).1
      (log ++ [.subscribed event ⟨(bus.subscribe event handler).2, handler⟩]) := by
  refine ⟨?_, ?_⟩
  · intro event'
    rw [EventBus.subscribers_subscribe, liveAt_subscribed, h.subscribers, h.subscribers]
    rfl
  · rw [live_concat, Entry.live, List.map_append]
    exact (EventBus.all_subscribe hsorted event handler).trans (h.all.append_right _)

theorem HoldsLive.unsubscribe {bus : EventBus Handler} {log : List (Entry Handler Data)}
    (h : HoldsLive bus log) (hids : (subscribedIds log).Nodup) (id : Int32) :
    HoldsLive (bus.unsubscribe id) (log ++ [.unsubscribed id]) := by
  have hnodup := h.nodup hids
  refine ⟨?_, ?_⟩
  · intro event
    rw [EventBus.subscribers_unsubscribe hnodup, liveAt_unsubscribed, h.subscribers]
  · rw [EventBus.all_unsubscribe hnodup, live_concat, Entry.live]
    apply (h.all.filter _).trans
    rw [List.filter_map]
    rfl

theorem unsubscribe_sorted {bus : EventBus Handler} (hnodup : (bus.all.map Sub.id).Nodup)
    (hsorted : OrderedMap.Sorted bus.subs) (id : Int32) :
    OrderedMap.Sorted (bus.unsubscribe id).subs := by
  rw [EventBus.unsubscribe, EventBus.eraseFrom_eq hnodup]
  exact List.pairwise_map.mpr hsorted

end Patrol.Core
