import Patrol.Core.Delivery

/-! Publications: which handlers each has called, and which are left, whatever the threads do. -/

namespace Patrol.Core

open ProofKit

variable {Handler Data : Type}

/-- The calls that are to be made with handlers. -/
def plan (hs : List (Sub Handler)) (event : EventName) (data : Data) :
    List (Sub Handler × EventName × Data) :=
  hs.map fun s => (s, event, data)

def Entry.callOf (p : Nat) : Entry Handler Data → Option (Sub Handler × EventName × Data)
  | .called q sub event data => if q = p then some (sub, event, data) else none
  | _ => none

/-- The calls that a publication has made. -/
def callsOf (p : Nat) (log : List (Entry Handler Data)) :
    List (Sub Handler × EventName × Data) :=
  log.filterMap (Entry.callOf p)

theorem callsOf_concat (p : Nat) (log : List (Entry Handler Data)) (x : Entry Handler Data) :
    callsOf p (log ++ [x]) = callsOf p log ++ (x.callOf p).toList := by
  rw [callsOf, List.filterMap_append]
  cases h : x.callOf p <;> simp [callsOf, h]

/-- An entry that is not a call of a publication leaves the calls that it has made. -/
theorem callsOf_quiet {p : Nat} {x : Entry Handler Data} (h : x.callOf p = none)
    (log : List (Entry Handler Data)) : callsOf p (log ++ [x]) = callsOf p log := by
  rw [callsOf_concat, h]
  exact List.append_nil _

theorem mem_concat_other {x y : Entry Handler Data} (h : y ≠ x) (log : List (Entry Handler Data)) :
    y ∈ log ++ [x] ↔ y ∈ log := by
  rw [List.mem_append, List.mem_singleton, or_iff_left h]

/-- The publication that an entry ends. -/
def Entry.endOf : Entry Handler Data → Option Nat
  | .returned p => some p
  | .threw p => some p
  | _ => none

/-- A publication has come to an end: it has returned, or an exception has left it. -/
def Ended (log : List (Entry Handler Data)) (p : Nat) : Prop :=
  .returned p ∈ log ∨ .threw p ∈ log

theorem ended_concat {log : List (Entry Handler Data)} {x : Entry Handler Data} {p : Nat} :
    Ended (log ++ [x]) p ↔ Ended log p ∨ x.endOf = some p := by
  rw [Ended, Ended, List.mem_append, List.mem_append, List.mem_singleton, List.mem_singleton]
  cases x with
  | returned q => simp [Entry.endOf, or_right_comm, eq_comm]
  | threw q => simp [Entry.endOf, or_assoc, eq_comm]
  | _ => simp [Entry.endOf]

/-- A publication is in progress: the calls that it has made and those that are left are those for
its copy of the handlers. -/
def Active (frames : List (Frame Handler Data)) (log : List (Entry Handler Data)) (p : Nat)
    (event : EventName) (data : Data) (hs : List (Sub Handler)) : Prop :=
  ¬ Ended log p ∧ ∃ f ∈ frames, f.pub = p ∧ f.event = event ∧ f.data = data ∧
    callsOf p log ++ plan f.hs event data = plan hs event data

/-- A publication has come to an end.  It made the first of the calls for its copy of the handlers, and
all of them if it returned. -/
def Over (frames : List (Frame Handler Data)) (log : List (Entry Handler Data)) (p : Nat)
    (event : EventName) (data : Data) (hs : List (Sub Handler)) : Prop :=
  Ended log p ∧ (∀ f ∈ frames, f.pub ≠ p) ∧ callsOf p log <+: plan hs event data ∧
    (.returned p ∈ log → callsOf p log = plan hs event data)

/-- What holds of the calls of `publish` on the stacks, and of those in the history. -/
structure Publishing (frames : List (Frame Handler Data)) (pubs : Nat)
    (log : List (Entry Handler Data)) : Prop where
  nodup : (frames.map Frame.pub).Nodup
  frame : ∀ f ∈ frames, ∃ hs, .published f.pub f.event f.data hs ∈ log
  numbered : ∀ p event data hs, .published p event data hs ∈ log → p < pubs
  each : ∀ p event data hs, .published p event data hs ∈ log →
    Active frames log p event data hs ∨ Over frames log p event data hs
  fresh : ∀ p, pubs ≤ p → callsOf p log = [] ∧ ¬ Ended log p

theorem publishing_nil : Publishing ([] : List (Frame Handler Data)) 0 [] where
  nodup := List.nodup_nil
  frame := nofun
  numbered := nofun
  each := nofun
  fresh _ _ := ⟨rfl, by simp [Ended]⟩

theorem Publishing.pub_lt {frames : List (Frame Handler Data)} {pubs : Nat}
    {log : List (Entry Handler Data)} (h : Publishing frames pubs log) {f : Frame Handler Data}
    (hf : f ∈ frames) : f.pub < pubs := by
  obtain ⟨hs, hmem⟩ := h.frame f hf
  exact h.numbered _ _ _ _ hmem

/-- The calls of other publications stay on the stacks when others take the place of a call. -/
theorem frame_kept {a b : List (Frame Handler Data)} {f g : Frame Handler Data}
    (fs : List (Frame Handler Data)) (hg : g ∈ a ++ f :: b) (hne : g.pub ≠ f.pub) :
    g ∈ a ++ (fs ++ b) := by
  rw [List.mem_append, List.mem_cons] at hg
  rw [List.mem_append, List.mem_append]
  rcases hg with hg | rfl | hg
  · exact Or.inl hg
  · exact absurd rfl hne
  · exact Or.inr (Or.inr hg)

/-- What neither publishes, calls nor ends a publication changes none. -/
theorem Publishing.silent {frames : List (Frame Handler Data)} {pubs : Nat}
    {log : List (Entry Handler Data)} (h : Publishing frames pubs log) {x : Entry Handler Data}
    (hcall : ∀ p, x.callOf p = none) (hpub : ∀ p event data hs, .published p event data hs ≠ x)
    (hend : x.endOf = none) : Publishing frames pubs (log ++ [x]) := by
  have hcalls := fun p => callsOf_quiet (hcall p) log
  have hended : ∀ p, Ended (log ++ [x]) p ↔ Ended log p := by simp [ended_concat, hend]
  have hreturned : ∀ p, .returned p ∈ log ++ [x] ↔ .returned p ∈ log := by
    intro p
    apply mem_concat_other
    rintro rfl
    cases hend
  have hpublished := fun p event data hs => mem_concat_other (hpub p event data hs) log
  refine ⟨h.nodup, ?_, ?_, ?_, ?_⟩
  · simpa only [hpublished] using h.frame
  · simpa only [hpublished] using h.numbered
  · simpa only [hpublished, Active, Over, hended, hreturned, hcalls] using h.each
  · simpa only [hended, hcalls] using h.fresh

/-- A new publication has made no call, and its copy is left. -/
theorem Publishing.publish {frames : List (Frame Handler Data)} {pubs : Nat}
    {log : List (Entry Handler Data)} (h : Publishing frames pubs log) {f : Frame Handler Data}
    (hf : f.pub = pubs) :
    Publishing (f :: frames) (pubs + 1) (log ++ [.published pubs f.event f.data f.hs]) := by
  have hcalls : ∀ p, callsOf p (log ++ [.published pubs f.event f.data f.hs]) = callsOf p log :=
    fun p => callsOf_quiet rfl log
  have hended : ∀ p, Ended (log ++ [.published pubs f.event f.data f.hs]) p ↔ Ended log p := by
    simp [ended_concat, Entry.endOf]
  have hreturned : ∀ p, .returned p ∈ log ++ [.published pubs f.event f.data f.hs] ↔
      .returned p ∈ log := fun p => mem_concat_other (by simp) log
  refine ⟨?_, ?_, ?_, ?_, ?_⟩
  · rw [List.map_cons, List.nodup_cons]
    refine ⟨?_, h.nodup⟩
    intro hmem
    obtain ⟨g, hg, hpub⟩ := List.mem_map.mp hmem
    have hlt := h.pub_lt hg
    omega
  · simp only [List.forall_mem_cons]
    refine ⟨⟨f.hs, by rw [hf]; exact List.mem_concat_self⟩, ?_⟩
    intro g hg
    obtain ⟨hs, hmem⟩ := h.frame g hg
    exact ⟨hs, List.mem_append_left _ hmem⟩
  · intro p event data hs hmem
    rcases List.mem_append.mp hmem with hmem | hmem
    · exact Nat.lt_succ_of_lt (h.numbered p event data hs hmem)
    · cases List.mem_singleton.mp hmem
      exact Nat.lt_succ_self pubs
  · intro p event data hs hmem
    rw [Active, Over, hended, hreturned, hcalls]
    rcases List.mem_append.mp hmem with hmem | hmem
    · have hlt := h.numbered p event data hs hmem
      rcases h.each p event data hs hmem with ⟨hon, g, hg, hactive⟩ | ⟨hend, hno, hdone⟩
      · exact Or.inl ⟨hon, g, List.mem_cons_of_mem _ hg, hactive⟩
      · refine Or.inr ⟨hend, ?_, hdone⟩
        simp only [List.forall_mem_cons]
        exact ⟨by omega, hno⟩
    · cases List.mem_singleton.mp hmem
      obtain ⟨hnone, hon⟩ := h.fresh pubs le_rfl
      refine Or.inl ⟨hon, f, List.mem_cons_self, hf, rfl, rfl, ?_⟩
      rw [hnone]
      rfl
  · intro p hp
    rw [hcalls, hended]
    exact h.fresh p (by omega)

/-- Which publication a call on a stack belongs to. -/
theorem Publishing.active_of_frame {frames : List (Frame Handler Data)} {pubs : Nat}
    {log : List (Entry Handler Data)} (h : Publishing frames pubs log) {f : Frame Handler Data}
    (hf : f ∈ frames) {event : EventName} {data : Data} {hs : List (Sub Handler)}
    (hmem : .published f.pub event data hs ∈ log) :
    ¬ Ended log f.pub ∧ f.event = event ∧ f.data = data ∧
      callsOf f.pub log ++ plan f.hs event data = plan hs event data := by
  rcases h.each _ _ _ _ hmem with ⟨hon, g, hg, hpub, hactive⟩ | ⟨-, hno, -⟩
  · obtain rfl := List.inj_on_of_nodup_map h.nodup hg hf hpub
    exact ⟨hon, hactive⟩
  · exact absurd rfl (hno f hf)

/-- A call on a stack that becomes another one of the same publication, with the calls that are left
of it. -/
theorem Publishing.replace {a b : List (Frame Handler Data)} {f f' : Frame Handler Data} {pubs : Nat}
    {log log' : List (Entry Handler Data)} (h : Publishing (a ++ f :: b) pubs log)
    (hpub : f'.pub = f.pub) (hevent : f'.event = f.event) (hdata : f'.data = f.data)
    (hpublished : ∀ p event data hs,
      .published p event data hs ∈ log' ↔ .published p event data hs ∈ log)
    (hended : ∀ p, Ended log' p ↔ Ended log p)
    (hreturned : ∀ p, .returned p ∈ log' ↔ .returned p ∈ log)
    (hother : ∀ p, p ≠ f.pub → callsOf p log' = callsOf p log)
    (hcalls : callsOf f.pub log' ++ plan f'.hs f.event f.data =
      callsOf f.pub log ++ plan f.hs f.event f.data) :
    Publishing (a ++ f' :: b) pubs log' := by
  have hf : f ∈ a ++ f :: b := List.mem_append_right _ List.mem_cons_self
  have hback : ∀ g ∈ a ++ f' :: b, g = f' ∨ g ∈ a ++ f :: b := by
    intro g hg
    rw [List.mem_append, List.mem_cons] at hg ⊢
    rcases hg with hg | rfl | hg
    · exact Or.inr (Or.inl hg)
    · exact Or.inl rfl
    · exact Or.inr (Or.inr (Or.inr hg))
  refine ⟨?_, ?_, ?_, ?_, ?_⟩
  · have hmap : (a ++ f' :: b).map Frame.pub = (a ++ f :: b).map Frame.pub := by
      simp [hpub]
    rw [hmap]
    exact h.nodup
  · intro g hg
    simp only [hpublished]
    rcases hback g hg with rfl | hg
    · rw [hpub, hevent, hdata]
      exact h.frame f hf
    · exact h.frame g hg
  · simpa only [hpublished] using h.numbered
  · intro p event data hs hmem
    rw [hpublished] at hmem
    by_cases hp : p = f.pub
    · subst hp
      obtain ⟨hon, hev, hd, hactive⟩ := h.active_of_frame hf hmem
      refine Or.inl ⟨by rwa [hended], f', List.mem_append_right _ List.mem_cons_self, hpub,
        hevent.trans hev, hdata.trans hd, ?_⟩
      rw [← hactive, ← hev, ← hd]
      exact hcalls
    · rw [Active, Over, hended, hreturned, hother p hp]
      rcases h.each p event data hs hmem with ⟨hon, g, hg, rfl, hactive⟩ | ⟨hend, hno, hdone⟩
      · exact Or.inl ⟨hon, g, frame_kept [f'] hg hp, rfl, hactive⟩
      · refine Or.inr ⟨hend, ?_, hdone⟩
        intro g hg
        rcases hback g hg with rfl | hg
        · rw [hpub]
          exact hno f hf
        · exact hno g hg
  · intro p hp
    have hlt := h.pub_lt hf
    rw [hended, hother p (by omega)]
    exact h.fresh p hp

theorem Publishing.setRunning {a b : List (Frame Handler Data)} {f : Frame Handler Data}
    {pubs : Nat} {log : List (Entry Handler Data)} (h : Publishing (a ++ f :: b) pubs log)
    (running : Bool) : Publishing (a ++ { f with running } :: b) pubs log :=
  h.replace rfl rfl rfl (fun _ _ _ _ => Iff.rfl) (fun _ => Iff.rfl) (fun _ => Iff.rfl)
    (fun _ _ => rfl) rfl

/-- A call moves a handler from those that are left to those that were called. -/
theorem Publishing.call {a b : List (Frame Handler Data)} {f : Frame Handler Data} {pubs : Nat}
    {log : List (Entry Handler Data)} (h : Publishing (a ++ f :: b) pubs log)
    {sub : Sub Handler} {hs : List (Sub Handler)} (hhs : f.hs = sub :: hs) :
    Publishing (a ++ { f with hs, running := true } :: b) pubs
      (log ++ [.called f.pub sub f.event f.data]) := by
  refine h.replace ?_ ?_ ?_ ?_ ?_ ?_ ?_ ?_
  · rfl
  · rfl
  · rfl
  · exact fun p event data hs => mem_concat_other (by simp) log
  · simp [ended_concat, Entry.endOf]
  · exact fun p => mem_concat_other (by simp) log
  · intro p hp
    apply callsOf_quiet
    rw [Entry.callOf, if_neg (Ne.symm hp)]
  · rw [callsOf_concat, Entry.callOf, if_pos rfl, hhs]
    simp [plan]

/-- A publication that comes to an end has made the first of its calls, and all of them if it has no
handlers left. -/
theorem Publishing.finish {a b : List (Frame Handler Data)} {f : Frame Handler Data} {pubs : Nat}
    {log : List (Entry Handler Data)} (h : Publishing (a ++ f :: b) pubs log)
    {x : Entry Handler Data} (hend : x.endOf = some f.pub)
    (hhs : x = .returned f.pub → f.hs = []) : Publishing (a ++ b) pubs (log ++ [x]) := by
  have hf : f ∈ a ++ f :: b := List.mem_append_right _ List.mem_cons_self
  have hsub : (a ++ b).Sublist (a ++ f :: b) := (List.sublist_cons_self _ _).append_left a
  have hcalls : ∀ p, callsOf p (log ++ [x]) = callsOf p log := by
    intro p
    apply callsOf_quiet
    cases x <;> first | rfl | cases hend
  have hpublished : ∀ p event data hs,
      .published p event data hs ∈ log ++ [x] ↔ .published p event data hs ∈ log := by
    intro p event data hs
    apply mem_concat_other
    rintro rfl
    cases hend
  have hended : ∀ p, Ended (log ++ [x]) p ↔ Ended log p ∨ p = f.pub := by
    intro p
    rw [ended_concat, hend, Option.some.injEq, eq_comm]
  have hgone : ∀ g ∈ a ++ b, g.pub ≠ f.pub := by
    have hnodup := h.nodup
    rw [List.map_append, List.map_cons, List.nodup_middle, List.nodup_cons, ← List.map_append]
      at hnodup
    intro g hg heq
    exact hnodup.1 (heq ▸ List.mem_map_of_mem hg)
  refine ⟨h.nodup.sublist (hsub.map _), ?_, ?_, ?_, ?_⟩
  · intro g hg
    simp only [hpublished]
    exact h.frame g (hsub.subset hg)
  · simpa only [hpublished] using h.numbered
  · intro p event data hs hmem
    rw [hpublished] at hmem
    rw [Active, Over, hended, hcalls]
    by_cases hp : p = f.pub
    · subst hp
      obtain ⟨hon, hev, hd, hactive⟩ := h.active_of_frame hf hmem
      refine Or.inr ⟨Or.inr rfl, hgone, ⟨plan f.hs event data, hactive⟩, ?_⟩
      intro hret
      rcases List.mem_append.mp hret with hret | hret
      · exact absurd (Or.inl hret) hon
      · rw [← hactive, hhs (List.mem_singleton.mp hret).symm]
        exact (List.append_nil _).symm
    · have hreturned : .returned p ∈ log ++ [x] ↔ .returned p ∈ log := by
        apply mem_concat_other
        rintro rfl
        exact hp (Option.some.inj hend)
      rw [hreturned]
      rcases h.each p event data hs hmem with ⟨hon, g, hg, rfl, hactive⟩ | ⟨hend, hno, hdone⟩
      · refine Or.inl ⟨?_, g, frame_kept [] hg hp, rfl, hactive⟩
        rw [not_or]
        exact ⟨hon, hp⟩
      · exact Or.inr ⟨Or.inl hend, fun g hg => hno g (hsub.subset hg), hdone⟩
  · intro p hp
    have hlt := h.pub_lt hf
    rw [hcalls, hended]
    obtain ⟨hnone, hon⟩ := h.fresh p hp
    refine ⟨hnone, ?_⟩
    rw [not_or]
    exact ⟨hon, by omega⟩

/-- The innermost call of a thread, and what putting other calls in its place does. -/
theorem World.top_split {w : World Handler Data} {t : Nat} {f : Frame Handler Data}
    (h : w.top t = some f) :
    f.thread = t ∧ ∃ a b, w.frames = a ++ f :: b ∧
      ∀ fs, World.replaceTop t fs w.frames = a ++ (fs ++ b) := by
  obtain ⟨hthread, a, b, hframes, ha⟩ := List.find?_eq_some_iff_append.mp h
  have hf : f.thread = t := by simpa using hthread
  refine ⟨hf, a, b, hframes, fun fs => ?_⟩
  rw [hframes]
  clear h hframes
  induction a with
  | nil => exact if_pos hf
  | cons g a ih =>
    simp only [List.forall_mem_cons, Bool.not_eq_true', decide_eq_false_iff_not] at ha
    rw [List.cons_append, World.replaceTop, if_neg ha.1, List.cons_append,
      ih (by simpa using ha.2)]

/-! ### Every order of steps -/

/-- A publication has a copy of the live subscriptions to its event, and a call belongs to a
publication that has its handler in its copy. -/
def Explained (before : List (Entry Handler Data)) : Entry Handler Data → Prop
  | .published _ event _ hs => hs = liveAt before event
  | .called p sub event data =>
    ∃ hs, .published p event data hs ∈ before ∧ sub ∈ hs
  | _ => True

/-- What holds in every state that the threads reach. -/
structure Consistent (w : World Handler Data) : Prop where
  numbered : Numbered w.bus w.log
  bus : (subscribedIds w.log).length < 2 ^ 31 →
    OrderedMap.Sorted w.bus.subs ∧ HoldsLive w.bus w.log ∧ EachOp Explained w.log
  publishing : Publishing w.frames w.pubs w.log

theorem consistent_init : Consistent ({} : World Handler Data) where
  numbered := ⟨rfl, rfl⟩
  bus _ := ⟨List.Pairwise.nil, ⟨fun _ => rfl, List.Perm.refl _⟩, eachOp_nil⟩
  publishing := publishing_nil

/-- An entry that is not of `subscribe` gives out no id. -/
theorem Numbered.keep {bus bus' : EventBus Handler} {log : List (Entry Handler Data)}
    (h : Numbered bus log) (hnext : bus'.nextId = bus.nextId) {x : Entry Handler Data}
    (hx : x.subscribedId = none) : Numbered bus' (log ++ [x]) := by
  have hids : subscribedIds (log ++ [x]) = subscribedIds log := by
    rw [subscribedIds_concat, hx]
    exact List.append_nil _
  refine ⟨?_, ?_⟩
  · rw [hids]
    exact h.ids
  · rw [hids, hnext]
    exact h.next

/-- An entry that is not of `subscribe` or `unsubscribe` leaves what is live. -/
theorem HoldsLive.keep {bus : EventBus Handler} {log : List (Entry Handler Data)}
    (h : HoldsLive bus log) {x : Entry Handler Data} (hx : ∀ subs, x.live subs = subs) :
    HoldsLive bus (log ++ [x]) := by
  refine ⟨?_, ?_⟩
  · intro event
    rw [liveAt, live_concat, hx]
    exact h.subscribers event
  · rw [live_concat, hx]
    exact h.all

theorem subscribedIds_le (log : List (Entry Handler Data)) (x : Entry Handler Data) :
    (subscribedIds log).length ≤ (subscribedIds (log ++ [x])).length := by
  rw [subscribedIds_concat, List.length_append]
  exact Nat.le_add_right _ _

/-- The bus after an entry that does not concern it. -/
theorem Consistent.bus_keep {w : World Handler Data} (h : Consistent w) {x : Entry Handler Data}
    (hx : ∀ subs, x.live subs = subs)
    (hexplained : HoldsLive w.bus w.log → Explained w.log x) :
    (subscribedIds (w.log ++ [x])).length < 2 ^ 31 →
      OrderedMap.Sorted w.bus.subs ∧ HoldsLive w.bus (w.log ++ [x]) ∧
        EachOp Explained (w.log ++ [x]) := by
  intro hfew
  obtain ⟨hsorted, hlive, heach⟩ := h.bus ((subscribedIds_le _ _).trans_lt hfew)
  exact ⟨hsorted, hlive.keep hx, eachOp_concat.mpr ⟨heach, hexplained hlive⟩⟩

theorem Consistent.subscribe {w : World Handler Data} (h : Consistent w) (event : EventName)
    (handler : Option Handler) : Consistent (w.subscribe event handler) := by
  refine ⟨h.numbered.subscribe event handler, ?_, ?_⟩
  · intro hfew
    obtain ⟨hsorted, hlive, heach⟩ := h.bus ((subscribedIds_le _ _).trans_lt hfew)
    refine ⟨OrderedMap.insert_sorted _ _ hsorted, hlive.subscribe hsorted event handler, ?_⟩
    exact eachOp_concat.mpr ⟨heach, trivial⟩
  · exact h.publishing.silent (fun _ => rfl) nofun rfl

theorem Consistent.unsubscribe {w : World Handler Data} (h : Consistent w) (id : Int32) :
    Consistent (w.unsubscribe id) := by
  refine ⟨?_, ?_, h.publishing.silent (fun _ => rfl) nofun rfl⟩
  · show Numbered (w.bus.unsubscribe id) (w.log ++ [.unsubscribed id])
    apply h.numbered.keep
    · rfl
    · rfl
  intro hfew
  have hfew' := (subscribedIds_le _ _).trans_lt hfew
  obtain ⟨hsorted, hlive, heach⟩ := h.bus hfew'
  have hids := h.numbered.nodup hfew'
  refine ⟨unsubscribe_sorted (hlive.nodup hids) hsorted id, hlive.unsubscribe hids id, ?_⟩
  exact eachOp_concat.mpr ⟨heach, trivial⟩

theorem Consistent.publish {w : World Handler Data} (h : Consistent w) (t : Nat)
    (event : EventName) (data : Data) : Consistent (w.publish t event data) := by
  refine ⟨h.numbered.keep rfl rfl, ?_, h.publishing.publish rfl⟩
  apply h.bus_keep (fun _ => rfl)
  intro hlive
  exact hlive.subscribers event

/-- What ends the innermost call of a thread. -/
theorem Consistent.pop {w : World Handler Data} (h : Consistent w) {t : Nat} {f : Frame Handler Data}
    (htop : w.top t = some f) {x : Entry Handler Data} (hend : x.endOf = some f.pub)
    (hhs : x = .returned f.pub → f.hs = []) :
    Consistent { w with frames := World.replaceTop t [] w.frames, log := w.log ++ [x] } := by
  obtain ⟨-, a, b, hframes, hreplace⟩ := World.top_split htop
  have hpublishing := h.publishing
  rw [hframes] at hpublishing
  have hlive : ∀ subs, x.live subs = subs := by
    intro subs
    cases x <;> first | rfl | cases hend
  have hid : x.subscribedId = none := by
    cases x <;> first | rfl | cases hend
  have hexplained : Explained w.log x := by
    cases x <;> first | exact trivial | cases hend
  refine ⟨h.numbered.keep rfl hid, h.bus_keep hlive (fun _ => hexplained), ?_⟩
  rw [hreplace]
  exact hpublishing.finish hend hhs

theorem mem_of_plan {hs left : List (Sub Handler)} {event : EventName} {data : Data}
    {calls : List (Sub Handler × EventName × Data)}
    (h : calls ++ plan left event data = plan hs event data) {sub : Sub Handler} (hsub : sub ∈ left) :
    sub ∈ hs := by
  have hcall : (sub, event, data) ∈ plan hs event data := by
    rw [← h]
    exact List.mem_append_right _ (List.mem_map_of_mem hsub)
  obtain ⟨s, hs, heq⟩ := List.mem_map.mp hcall
  cases heq
  exact hs

theorem Consistent.callNext {w : World Handler Data} (h : Consistent w) (t : Nat) :
    Consistent (w.callNext t) := by
  rw [World.callNext]
  split
  · next t' pub event data sub hs htop =>
    split
    · obtain ⟨hthread, a, b, hframes, hreplace⟩ := World.top_split htop
      obtain rfl : t' = t := hthread
      have hpublishing := h.publishing
      rw [hframes] at hpublishing
      refine ⟨h.numbered.keep rfl rfl, ?_, ?_⟩
      · apply h.bus_keep (fun _ => rfl)
        intro _
        obtain ⟨hs₀, hmem⟩ := hpublishing.frame _ (List.mem_append_right _ List.mem_cons_self)
        obtain ⟨-, -, -, hplan⟩ :=
          hpublishing.active_of_frame (List.mem_append_right _ List.mem_cons_self) hmem
        exact ⟨hs₀, hmem, mem_of_plan hplan List.mem_cons_self⟩
      · show Publishing (World.replaceTop _ _ w.frames) _ _
        rw [hreplace]
        exact hpublishing.call rfl
    · obtain rfl : t' = t := (World.top_split htop).1
      exact h.pop htop rfl nofun
  · exact h

theorem Consistent.handlerReturns {w : World Handler Data} (h : Consistent w) (t : Nat) :
    Consistent (w.handlerReturns t) := by
  rw [World.handlerReturns]
  split
  · next t' pub event data hs htop =>
    obtain ⟨hthread, a, b, hframes, hreplace⟩ := World.top_split htop
    obtain rfl : t' = t := hthread
    have hpublishing := h.publishing
    rw [hframes] at hpublishing
    refine ⟨h.numbered, h.bus, ?_⟩
    show Publishing (World.replaceTop _ _ w.frames) _ _
    rw [hreplace]
    exact hpublishing.setRunning false
  · exact h

theorem Consistent.handlerThrows {w : World Handler Data} (h : Consistent w) (t : Nat) :
    Consistent (w.handlerThrows t) := by
  rw [World.handlerThrows]
  split
  · next t' pub event data hs htop =>
    obtain rfl : t' = t := (World.top_split htop).1
    exact h.pop htop rfl nofun
  · exact h

theorem Consistent.publishReturns {w : World Handler Data} (h : Consistent w) (t : Nat) :
    Consistent (w.publishReturns t) := by
  rw [World.publishReturns]
  split
  · next t' pub event data htop =>
    obtain rfl : t' = t := (World.top_split htop).1
    exact h.pop htop rfl (fun _ => rfl)
  · exact h

theorem consistent_run (steps : List (Step Handler Data)) :
    Consistent ((threads Handler Data).run steps) := by
  apply (threads Handler Data).run_invariant consistent_init
  intro w step h
  cases step with
  | subscribe t event handler =>
    show Consistent (if w.runsCode t then _ else _)
    split
    · exact h.subscribe event handler
    · exact h
  | unsubscribe t id =>
    show Consistent (if w.runsCode t then _ else _)
    split
    · exact h.unsubscribe id
    · exact h
  | publish t event data =>
    show Consistent (if w.runsCode t then _ else _)
    split
    · exact h.publish t event data
    · exact h
  | callNext t => exact h.callNext t
  | handlerReturns t => exact h.handlerReturns t
  | handlerThrows t => exact h.handlerThrows t
  | publishReturns t => exact h.publishReturns t

/-! ### Publications come to their end -/

/-- A step of a thread in the loop of `publish`, in which no handler throws. -/
def Step.InLoop (t : Nat) (step : Step Handler Data) : Prop :=
  step = .callNext t ∨ step = .handlerReturns t ∨ step = .publishReturns t

namespace World

theorem find?_replaceTop_self {t : Nat} {f f' : Frame Handler Data} (hf' : f'.thread = t)
    {frames : List (Frame Handler Data)} (h : frames.find? (fun f => f.thread = t) = some f) :
    (replaceTop t [f'] frames).find? (fun f => f.thread = t) = some f' := by
  induction frames with
  | nil => cases h
  | cons g frames ih =>
    rw [replaceTop]
    split
    · exact List.find?_cons_of_pos (by simpa using hf')
    · next hg =>
      rw [List.find?_cons_of_neg (by simpa using hg)] at h ⊢
      exact ih h

theorem replaceTop_replaceTop {t : Nat} {f' : Frame Handler Data} (hf' : f'.thread = t)
    (fs frames : List (Frame Handler Data)) :
    replaceTop t fs (replaceTop t [f'] frames) = replaceTop t fs frames := by
  induction frames with
  | nil => rfl
  | cons g frames ih =>
    rw [replaceTop, replaceTop]
    split
    · exact if_pos hf'
    · next hg => rw [replaceTop, if_neg hg, ih]

/-- The innermost call of a thread, when no handler runs in it, comes to its end: it returns, unless a
handler is empty. -/
theorem exists_pop_idle {t : Nat} (hs : List (Sub Handler)) :
    ∀ (w : World Handler Data) (f : Frame Handler Data), w.top t = some f → f.running = false →
      f.hs = hs → ∃ more : List (Step Handler Data), (∀ step ∈ more, step.InLoop t) ∧
        let w' := more.foldl (threads Handler Data).step w
        w'.frames = replaceTop t [] w.frames ∧
          ∃ new, w'.log = w.log ++ new ∧
            ((∀ sub ∈ hs, sub.handler.isSome) → .returned f.pub ∈ new) := by
  induction hs with
  | nil =>
    rintro w ⟨t', pub, event, data, hs, running⟩ htop rfl rfl
    obtain rfl : t' = t := (top_split htop).1
    have hstep : (threads Handler Data).step w (.publishReturns t') =
        { w with frames := replaceTop t' [] w.frames, log := w.log ++ [.returned pub] } := by
      show w.publishReturns t' = _
      rw [publishReturns, htop]
    refine ⟨[.publishReturns t'], by simp [Step.InLoop], ?_⟩
    dsimp only [List.foldl_cons, List.foldl_nil]
    rw [hstep]
    exact ⟨rfl, [.returned pub], rfl, fun _ => List.mem_cons_self⟩
  | cons sub hs ih =>
    rintro w ⟨t', pub, event, data, hs', running⟩ htop rfl rfl
    obtain rfl : t' = t := (top_split htop).1
    cases hsub : sub.handler with
    | none =>
      have hstep : (threads Handler Data).step w (.callNext t') =
          { w with frames := replaceTop t' [] w.frames, log := w.log ++ [.threw pub] } := by
        show w.callNext t' = _
        simp only [callNext, htop, hsub]
      refine ⟨[.callNext t'], by simp [Step.InLoop], ?_⟩
      dsimp only [List.foldl_cons, List.foldl_nil]
      rw [hstep]
      exact ⟨rfl, [.threw pub], rfl, by simp [hsub]⟩
    | some handler =>
      -- the handler is called and returns, and fewer handlers are left
      let f₁ : Frame Handler Data := ⟨t', pub, event, data, hs, true⟩
      let f₂ : Frame Handler Data := ⟨t', pub, event, data, hs, false⟩
      let w₁ : World Handler Data :=
        { w with
          frames := replaceTop t' [f₁] w.frames
          log := w.log ++ [.called pub sub event data] }
      let w₂ : World Handler Data := { w₁ with frames := replaceTop t' [f₂] w₁.frames }
      have hcall : (threads Handler Data).step w (.callNext t') = w₁ := by
        show w.callNext t' = _
        simp only [callNext, htop, hsub]
        rfl
      have hf₁ : f₁.thread = t' := rfl
      have hf₂ : f₂.thread = t' := rfl
      have htop₁ : w₁.top t' = some f₁ := find?_replaceTop_self hf₁ htop
      have hreturn : (threads Handler Data).step w₁ (.handlerReturns t') = w₂ := by
        show w₁.handlerReturns t' = _
        rw [handlerReturns, htop₁]
      have htop₂ : w₂.top t' = some f₂ := find?_replaceTop_self hf₂ htop₁
      obtain ⟨more, hloop, hframes, new, hlog, hreturned⟩ := ih w₂ f₂ htop₂ rfl rfl
      refine ⟨.callNext t' :: .handlerReturns t' :: more, ?_, ?_⟩
      · simp only [List.forall_mem_cons]
        exact ⟨Or.inl rfl, Or.inr (Or.inl rfl), hloop⟩
      · dsimp only [List.foldl_cons]
        rw [hcall, hreturn]
        refine ⟨?_, .called pub sub event data :: new, ?_, ?_⟩
        · rw [hframes, replaceTop_replaceTop hf₂, replaceTop_replaceTop hf₁]
        · rw [hlog]
          exact List.append_assoc _ _ _
        · intro hset
          simp only [List.forall_mem_cons] at hset
          exact List.mem_cons_of_mem _ (hreturned hset.2)

theorem exists_pop {t : Nat} {w : World Handler Data} {f : Frame Handler Data}
    (htop : w.top t = some f) : ∃ more : List (Step Handler Data), (∀ step ∈ more, step.InLoop t) ∧
      let w' := more.foldl (threads Handler Data).step w
      w'.frames = replaceTop t [] w.frames ∧
        ∃ new, w'.log = w.log ++ new ∧
          ((∀ sub ∈ f.hs, sub.handler.isSome) → .returned f.pub ∈ new) := by
  obtain ⟨t', pub, event, data, hs, running⟩ := f
  obtain rfl : t' = t := (top_split htop).1
  cases running with
  | false => exact exists_pop_idle hs w _ htop rfl rfl
  | true =>
    let f₁ : Frame Handler Data := ⟨t', pub, event, data, hs, false⟩
    let w₁ : World Handler Data := { w with frames := replaceTop t' [f₁] w.frames }
    have hreturn : (threads Handler Data).step w (.handlerReturns t') = w₁ := by
      show w.handlerReturns t' = _
      rw [handlerReturns, htop]
    have hf₁ : f₁.thread = t' := rfl
    have htop₁ : w₁.top t' = some f₁ := find?_replaceTop_self hf₁ htop
    obtain ⟨more, hloop, hframes, new, hlog, hreturned⟩ := exists_pop_idle hs w₁ f₁ htop₁ rfl rfl
    refine ⟨.handlerReturns t' :: more, ?_, ?_⟩
    · simp only [List.forall_mem_cons]
      exact ⟨Or.inr (Or.inl rfl), hloop⟩
    · dsimp only [List.foldl_cons]
      rw [hreturn, hframes]
      exact ⟨replaceTop_replaceTop hf₁ [] w.frames, new, hlog, hreturned⟩

/-- A call of `publish` whose handlers are not empty can return, after the calls further in on the stack
of its thread have come to their ends. -/
theorem exists_returned {w : World Handler Data} {f : Frame Handler Data} (hf : f ∈ w.frames)
    (hset : ∀ sub ∈ f.hs, sub.handler.isSome) :
    ∃ more : List (Step Handler Data), (∀ step ∈ more, step.InLoop f.thread) ∧
      let w' := more.foldl (threads Handler Data).step w
      w.log <+: w'.log ∧ .returned f.pub ∈ w'.log := by
  induction hn : w.frames.length using Nat.strong_induction_on generalizing w with
  | _ n ih =>
    obtain ⟨g, htop⟩ : ∃ g, w.top f.thread = some g := by
      rw [← Option.isSome_iff_exists, top, List.find?_isSome]
      exact ⟨f, hf, by simp⟩
    obtain ⟨more, hloop, hframes, new, hlog, hreturned⟩ := exists_pop htop
    by_cases hg : g = f
    · subst hg
      refine ⟨more, hloop, ?_, ?_⟩
      · exact ⟨new, hlog.symm⟩
      · rw [hlog]
        exact List.mem_append_right _ (hreturned hset)
    · obtain ⟨-, a, b, hsplit, hreplace⟩ := top_split htop
      rw [hreplace] at hframes
      have hmem : f ∈ (more.foldl (threads Handler Data).step w).frames := by
        rw [hframes]
        rw [hsplit, List.mem_append, List.mem_cons] at hf
        rw [List.nil_append, List.mem_append]
        exact hf.imp_right fun hf => hf.resolve_left (Ne.symm hg)
      have hlt : (more.foldl (threads Handler Data).step w).frames.length < n := by
        rw [hframes, ← hn, hsplit]
        simp
      obtain ⟨rest, hrest, hgrows, hdone⟩ := ih _ hlt hmem rfl
      refine ⟨more ++ rest, ?_, ?_⟩
      · rw [List.forall_mem_append]
        exact ⟨hloop, hrest⟩
      · rw [List.foldl_append]
        exact ⟨List.IsPrefix.trans ⟨new, hlog.symm⟩ hgrows, hdone⟩

end World

/-! ### Delivery -/

/-- What a reader of the interface may expect of a bus. -/
structure Delivers (w : World Handler Data) : Prop where
  ids_differ : (w.bus.all.map Sub.id).Nodup
  ids_below : ∀ sub ∈ w.bus.all, sub.id < w.bus.nextId
  unsubscribe : ∀ id event, (w.bus.unsubscribe id).subscribers event =
    (w.bus.subscribers event).filter fun s => s.id ≠ id
  published : ∀ before p event data hs after,
    w.log = before ++ .published p event data hs :: after → hs = liveAt before event
  calls : ∀ p event data hs, .published p event data hs ∈ w.log →
    callsOf p w.log <+: plan hs event data ∧
      (.returned p ∈ w.log → callsOf p w.log = plan hs event data)
  /-- A publication that no exception has left, of an event without empty handlers, can make the calls
  that are left, and return. -/
  completes : ∀ p event data hs, .published p event data hs ∈ w.log → .threw p ∉ w.log →
    (∀ sub ∈ hs, sub.handler.isSome) →
    ∃ (t : Nat) (more : List (Step Handler Data)), (∀ step ∈ more, step.InLoop t) ∧
      let w' := more.foldl (threads Handler Data).step w
      .returned p ∈ w'.log ∧ callsOf p w'.log = plan hs event data

theorem Consistent.calls {w : World Handler Data} (h : Consistent w) {p : Nat} {event : EventName}
    {data : Data} {hs : List (Sub Handler)} (hmem : .published p event data hs ∈ w.log) :
    callsOf p w.log <+: plan hs event data ∧
      (.returned p ∈ w.log → callsOf p w.log = plan hs event data) := by
  rcases h.publishing.each p event data hs hmem with ⟨hon, f, -, -, -, -, hplan⟩ | ⟨-, -, hdone⟩
  · exact ⟨⟨plan f.hs event data, hplan⟩, fun hret => absurd (Or.inl hret) hon⟩
  · exact hdone

theorem completes_run (steps : List (Step Handler Data)) {p : Nat} {event : EventName} {data : Data}
    {hs : List (Sub Handler)} {w : World Handler Data} (hw : (threads Handler Data).run steps = w)
    (hmem : .published p event data hs ∈ w.log) (hthrew : .threw p ∉ w.log)
    (hset : ∀ sub ∈ hs, sub.handler.isSome) :
    ∃ (t : Nat) (more : List (Step Handler Data)), (∀ step ∈ more, step.InLoop t) ∧
      let w' := more.foldl (threads Handler Data).step w
      .returned p ∈ w'.log ∧ callsOf p w'.log = plan hs event data := by
  have h := consistent_run steps
  rw [hw] at h
  rcases h.publishing.each p event data hs hmem with ⟨-, f, hf, rfl, rfl, rfl, hplan⟩ | ⟨hend, -, hdone⟩
  · obtain ⟨more, hloop, hgrows, hret⟩ :=
      World.exists_returned hf fun sub hsub => hset sub (mem_of_plan hplan hsub)
    have hconsistent := consistent_run (steps ++ more)
    rw [Machine.run_append, hw] at hconsistent
    exact ⟨f.thread, more, hloop, hret, (hconsistent.calls (hgrows.subset hmem)).2 hret⟩
  · have hret := hend.resolve_right hthrew
    exact ⟨0, [], by simp, hret, hdone.2 hret⟩

/-- Under every interleaving of the threads, with fewer subscriptions than an `int` can count, the
ids of the subscribers differ and are below the next one, `unsubscribe` takes out the one with its
id, and a publication calls the subscribers of its event at its copy once each in their order: it can
always go on to the end of them, unless one of them throws. -/
theorem bus_delivers (steps : List (Step Handler Data))
    (hfew : (subscribedIds ((threads Handler Data).run steps).log).length < 2 ^ 31) :
    Delivers ((threads Handler Data).run steps) := by
  have h := consistent_run steps
  obtain ⟨-, hlive, heach⟩ := h.bus hfew
  have hnodup := hlive.nodup (h.numbered.nodup hfew)
  refine ⟨hnodup, ?_, EventBus.subscribers_unsubscribe hnodup, ?_, ?_, ?_⟩
  · intro sub hsub
    exact h.numbered.lt_next hfew (hlive.mem_ids hsub)
  · intro before p event data hs after hlog
    apply heach before (.published p event data hs)
    rw [hlog]
    exact ⟨after, by simp⟩
  · intro p event data hs hmem
    exact h.calls hmem
  · intro p event data hs hmem hthrew hset
    exact completes_run steps rfl hmem hthrew hset

/-- Two handlers of one event.  The first one takes the second one out while it runs. -/
def unsubscribeNext : List (Step Nat Unit) :=
  [.subscribe 0 [] (some 10), .subscribe 0 [] (some 11), .publish 0 [] (), .callNext 0, .unsubscribe 0 1,
    .handlerReturns 0, .callNext 0, .handlerReturns 0, .publishReturns 0]

theorem bus_delivers_unsubscribed : Delivers ((threads Nat Unit).run unsubscribeNext) :=
  bus_delivers unsubscribeNext (by decide)

/-! ### Calls after `unsubscribe` -/

/-- An id is live only if it was subscribed after it was last unsubscribed. -/
theorem subscribed_of_live {before after : List (Entry Handler Data)} {id : Int32}
    (h : id ∈ (live (before ++ .unsubscribed id :: after)).map fun s => s.2.id) :
    id ∈ subscribedIds after := by
  induction after using List.reverseRecOn with
  | nil =>
    rw [live_concat, Entry.live] at h
    obtain ⟨s, hs, hid⟩ := List.mem_map.mp h
    have hne := (List.mem_filter.mp hs).2
    simp [hid] at hne
  | append_singleton after x ih =>
    rw [← List.cons_append, ← List.append_assoc, live_concat] at h
    rw [subscribedIds_concat, List.mem_append]
    cases x with
    | subscribed event sub =>
      rw [Entry.live, List.map_append, List.mem_append] at h
      exact h.imp_left ih
    | unsubscribed id' =>
      obtain ⟨s, hs, hid⟩ := List.mem_map.mp h
      exact Or.inl (ih (List.mem_map.mpr ⟨s, List.mem_of_mem_filter hs, hid⟩))
    | _ => exact Or.inl (ih h)

theorem mem_liveAt {log : List (Entry Handler Data)} {event : EventName} {sub : Sub Handler}
    (h : sub ∈ liveAt log event) : sub.id ∈ (live log).map fun s => s.2.id := by
  obtain ⟨s, hs, rfl⟩ := List.mem_map.mp h
  exact List.mem_map.mpr ⟨s, List.mem_of_mem_filter hs, rfl⟩

/-- A handler that begins to run after its subscription was taken out is called by a publication that
copied the handlers before. -/
theorem called_after_unsubscribe (steps : List (Step Handler Data))
    (hfew : (subscribedIds ((threads Handler Data).run steps).log).length < 2 ^ 31)
    {before after : List (Entry Handler Data)} {p : Nat} {sub : Sub Handler} {event : EventName}
    {data : Data}
    (hlog : ((threads Handler Data).run steps).log = before ++ .unsubscribed sub.id :: after)
    (hsubscribed : sub.id ∈ subscribedIds before) (hcalled : .called p sub event data ∈ after) :
    ∃ hs, .published p event data hs ∈ before ∧ sub ∈ hs := by
  have h := consistent_run steps
  obtain ⟨-, -, heach⟩ := h.bus hfew
  have hnodup := h.numbered.nodup hfew
  rw [hlog] at heach hnodup
  obtain ⟨mid, rest, rfl⟩ := List.append_of_mem hcalled
  obtain ⟨hs, hmem, hsub⟩ : ∃ hs, .published p event data hs ∈
      before ++ .unsubscribed sub.id :: mid ∧ sub ∈ hs := by
    apply heach (before ++ .unsubscribed sub.id :: mid) (.called p sub event data)
    exact ⟨rest, by simp⟩
  refine ⟨hs, ?_, hsub⟩
  rcases List.mem_append.mp hmem with hmem | hmem
  · exact hmem
  · exfalso
    obtain ⟨mid, more, rfl⟩ := List.append_of_mem ((List.mem_cons.mp hmem).resolve_left nofun)
    have hcopy : hs = liveAt (before ++ .unsubscribed sub.id :: mid) event := by
      apply heach (before ++ .unsubscribed sub.id :: mid) (.published p event data hs)
      exact ⟨more ++ .called p sub event data :: rest, by simp⟩
    rw [hcopy] at hsub
    have hagain := subscribed_of_live (mem_liveAt hsub)
    rw [subscribedIds, List.filterMap_append, ← subscribedIds] at hnodup
    apply List.disjoint_of_nodup_append hnodup hsubscribed
    obtain ⟨x, hx, hid⟩ := List.mem_filterMap.mp hagain
    refine List.mem_filterMap.mpr ⟨x, List.mem_cons_of_mem _ ?_, hid⟩
    rw [List.append_assoc]
    exact List.mem_append_left _ hx

/-- The history of that run up to the call of `unsubscribe`. -/
def beforeUnsubscribe : List (Entry Nat Unit) :=
  [.subscribed [] ⟨0, some 10⟩, .subscribed [] ⟨1, some 11⟩,
    .published 0 [] () [⟨0, some 10⟩, ⟨1, some 11⟩], .called 0 ⟨0, some 10⟩ [] ()]

theorem called_after_unsubscribe_next :
    ∃ hs, .published 0 [] () hs ∈ beforeUnsubscribe ∧ ⟨1, some 11⟩ ∈ hs :=
  @called_after_unsubscribe Nat Unit unsubscribeNext (by decide) beforeUnsubscribe
    [.called 0 ⟨1, some 11⟩ [] (), .returned 0] 0 ⟨1, some 11⟩ [] () rfl (by decide) List.mem_cons_self

/-- A handler can begin to run after its subscription was taken out. -/
theorem unsubscribed_called :
    ¬ ∀ (steps : List (Step Nat Unit)) (before after : List (Entry Nat Unit)) (p : Nat)
      (sub : Sub Nat) (event : EventName) (data : Unit),
      ((threads Nat Unit).run steps).log = before ++ .unsubscribed sub.id :: after →
      .called p sub event data ∉ after := by
  intro h
  exact h unsubscribeNext beforeUnsubscribe [.called 0 ⟨1, some 11⟩ [] (), .returned 0] 0 ⟨1, some 11⟩ [] ()
    rfl List.mem_cons_self

end Patrol.Core
