import Patrol.Business.PatrolController

/-! The completion callback of a patrol.  Starts are numbered, and the callback that a start is given
carries its number, so that a history can say whose callback was called. -/

namespace Patrol.Business

open ProofKit

namespace Patrolling

variable {Waypoint DoneCallback : Type}

/-- A start was successful, or its callback was called. -/
inductive Entry
  | started (n : Nat)
  | called (n : Nat)
deriving DecidableEq, Repr

/-- The number of the start that an entry is about. -/
def Entry.number : Entry → Nat
  | .started n => n
  | .called n => n

/-- The controller, the number of starts so far, and what happened. -/
structure Observed (Waypoint DoneCallback : Type) where
  controller : PatrolController Waypoint (Nat × DoneCallback) := {}
  starts : Nat := 0
  log : List Entry := []

def observed : Machine (Observed Waypoint DoneCallback) (Op Waypoint DoneCallback) where
  init := {}
  step w
    | .start path cb =>
      let (controller, ok) := w.controller.start path (cb.map fun f => (w.starts, f))
      { controller, starts := w.starts + 1
        log := w.log ++ if ok then [.started w.starts] else [] }
    | .pause => { w with controller := w.controller.pause }
    | .resume => { w with controller := w.controller.resume }
    | .abort =>
      let (controller, call) := w.controller.abort
      { w with controller, log := w.log ++ call.toList.map fun r => .called r.1.1 }
    | .tick => { w with controller := w.controller.tick }

/-- Each callback was called at most once, and never after a later start was successful. -/
def CalledOnce (ops : List (Op Waypoint DoneCallback)) : Prop :=
  (∀ n, (observed.run ops).log.count (.called n) ≤ 1) ∧
    (observed.run ops).log.Pairwise fun x y =>
      ∀ m n, x = .started m → y = .called n → m ≤ n

/-- An `abort` comes where there is no callback, or nothing was aborted since the last successful
start. -/
def AbortsOnce (before : List (Op Waypoint DoneCallback)) (op : Op Waypoint DoneCallback) : Prop :=
  op = .abort → (observed.run before).controller.doneCb = none ∨ Underway before

/-- The callback that the controller holds is that of the last successful start, and it was called
exactly if this was aborted. -/
structure Holds (ops : List (Op Waypoint DoneCallback)) : Prop where
  numbered : ∀ e ∈ (observed.run ops).log, e.number < (observed.run ops).starts
  holder : ∀ n f, (observed.run ops).controller.doneCb = some (n, f) →
    n < (observed.run ops).starts
  latest : ∀ n f, (observed.run ops).controller.doneCb = some (n, f) →
    ∀ m, .started m ∈ (observed.run ops).log → m ≤ n
  fresh : ∀ n f, (observed.run ops).controller.doneCb = some (n, f) →
    (Underway ops ↔ .called n ∉ (observed.run ops).log)

/-- An operation that is no start on a path and no abort changes nothing of this. -/
theorem Holds.keep {ops : List (Op Waypoint DoneCallback)} (h : Holds ops)
    {op : Op Waypoint DoneCallback} (hstart : ∀ path cb, op = .start path cb → path = [])
    (habort : op ≠ .abort)
    (hdone : (observed.run (ops ++ [op])).controller.doneCb = (observed.run ops).controller.doneCb)
    (hlog : (observed.run (ops ++ [op])).log = (observed.run ops).log)
    (hstarts : (observed.run ops).starts ≤ (observed.run (ops ++ [op])).starts) :
    Holds (ops ++ [op]) := by
  have hunderway : Underway (ops ++ [op]) ↔ Underway ops := by
    rw [underway_concat]
    constructor
    · rintro (⟨path, cb, hop, hpath⟩ | ⟨-, h⟩)
      · exact absurd (hstart path cb hop) hpath
      · exact h
    · exact fun h => Or.inr ⟨habort, h⟩
  constructor
  · rw [hlog]
    exact fun e he => Nat.lt_of_lt_of_le (h.numbered e he) hstarts
  · rw [hdone]
    exact fun n f hn => Nat.lt_of_lt_of_le (h.holder n f hn) hstarts
  · rw [hdone, hlog]
    exact h.latest
  · rw [hdone, hlog, hunderway]
    exact h.fresh

theorem Holds.start {ops : List (Op Waypoint DoneCallback)} (h : Holds ops) (wp : Waypoint)
    (path : List Waypoint) (cb : Option DoneCallback) :
    Holds (ops ++ [.start (wp :: path) cb]) := by
  have hlog : (observed.run (ops ++ [.start (wp :: path) cb])).log =
      (observed.run ops).log ++ [.started (observed.run ops).starts] := by
    rw [Machine.run_concat]
    rfl
  have hstarts : (observed.run (ops ++ [.start (wp :: path) cb])).starts =
      (observed.run ops).starts + 1 := by
    rw [Machine.run_concat]
    rfl
  have hholder : ∀ n f, (observed.run (ops ++ [.start (wp :: path) cb])).controller.doneCb =
      some (n, f) → n = (observed.run ops).starts := by
    intro n f hn
    rw [Machine.run_concat] at hn
    obtain ⟨f', -, heq⟩ := Option.map_eq_some_iff.mp hn
    cases heq
    rfl
  have hunderway : Underway (ops ++ [.start (wp :: path) cb]) :=
    underway_concat.mpr (Or.inl ⟨wp :: path, cb, rfl, List.cons_ne_nil wp path⟩)
  constructor
  · rw [hlog, hstarts]
    intro e he
    rcases List.mem_append.mp he with he | he
    · exact Nat.lt_succ_of_lt (h.numbered e he)
    · rw [List.mem_singleton.mp he]
      exact Nat.lt_succ_self _
  · rw [hstarts]
    intro n f hn
    rw [hholder n f hn]
    exact Nat.lt_succ_self _
  · rw [hlog]
    intro n f hn m hm
    rw [hholder n f hn]
    rcases List.mem_append.mp hm with hm | hm
    · exact Nat.le_of_lt (h.numbered _ hm)
    · cases List.mem_singleton.mp hm
      exact Nat.le_refl _
  · rw [hlog]
    intro n f hn
    rw [hholder n f hn]
    apply iff_of_true hunderway
    intro hm
    rcases List.mem_append.mp hm with hm | hm
    · exact Nat.lt_irrefl _ (h.numbered _ hm)
    · cases List.mem_singleton.mp hm

/-- An `abort` calls the callback that the controller holds. -/
theorem abort_log (ops : List (Op Waypoint DoneCallback)) :
    (observed.run (ops ++ [.abort])).log = (observed.run ops).log ++
      (observed.run ops).controller.doneCb.toList.map fun r => .called r.1 := by
  rw [Machine.run_concat]
  show _ ++ ((observed.run ops).controller.doneCb.map _).toList.map _ = _
  cases (observed.run ops).controller.doneCb <;> rfl

theorem Holds.abort {ops : List (Op Waypoint DoneCallback)} (h : Holds ops) :
    Holds (ops ++ [.abort]) := by
  have hdone : (observed.run (ops ++ [.abort])).controller.doneCb =
      (observed.run ops).controller.doneCb := by
    rw [Machine.run_concat]
    rfl
  have hstarts : (observed.run (ops ++ [.abort])).starts = (observed.run ops).starts := by
    rw [Machine.run_concat]
    rfl
  have hended : ¬ Underway (ops ++ [.abort]) := by
    rw [underway_concat]
    rintro (⟨path, cb, hop, -⟩ | ⟨hop, -⟩)
    · cases hop
    · exact hop rfl
  constructor
  · rw [abort_log, hstarts]
    intro e he
    rcases List.mem_append.mp he with he | he
    · exact h.numbered e he
    · obtain ⟨⟨n, f⟩, hn, rfl⟩ := List.mem_map.mp he
      exact h.holder n f (Option.mem_toList.mp hn)
  · rw [hdone, hstarts]
    exact h.holder
  · rw [abort_log, hdone]
    intro n f hn m hm
    rcases List.mem_append.mp hm with hm | hm
    · exact h.latest n f hn m hm
    · obtain ⟨r, -, heq⟩ := List.mem_map.mp hm
      cases heq
  · rw [abort_log, hdone]
    intro n f hn
    apply iff_of_false hended
    rw [hn]
    simp

theorem holds_run (ops : List (Op Waypoint DoneCallback)) : Holds ops := by
  induction ops using List.reverseRecOn with
  | nil => exact ⟨nofun, nofun, nofun, nofun⟩
  | append_singleton ops op ih =>
    have hrun := observed.run_concat ops op
    cases op with
    | start path cb =>
      cases path with
      | nil =>
        apply ih.keep _ (by simp)
        · rw [hrun]
          rfl
        · rw [hrun]
          exact List.append_nil _
        · rw [hrun]
          exact Nat.le_succ _
        · rintro path cb ⟨⟩
          rfl
      | cons wp path => exact ih.start wp path cb
    | abort => exact ih.abort
    | tick =>
      refine ih.keep (by simp) (by simp) ?_ ?_ ?_ <;> rw [hrun]
      · show (PatrolController.tick _).doneCb = _
        rw [PatrolController.tick_eq]
      · rfl
      · exact Nat.le_refl _
    | _ =>
      refine ih.keep (by simp) (by simp) ?_ ?_ ?_ <;> rw [hrun]
      · rfl
      · rfl
      · exact Nat.le_refl _

/-- An operation that is no `abort` calls no callback. -/
theorem CalledOnce.quiet {ops : List (Op Waypoint DoneCallback)} (h : CalledOnce ops)
    {op : Op Waypoint DoneCallback} {more : List Entry}
    (hlog : (observed.run (ops ++ [op])).log = (observed.run ops).log ++ more)
    (hmore : ∀ n, .called n ∉ more) : CalledOnce (ops ++ [op]) := by
  rw [CalledOnce, hlog]
  constructor
  · intro n
    rw [List.count_append, List.count_eq_zero_of_not_mem (hmore n)]
    exact h.1 n
  · refine List.pairwise_append.mpr ⟨h.2, ?_, ?_⟩
    · apply List.pairwise_of_forall_mem_list
      rintro x - y hy m n - rfl
      exact absurd hy (hmore n)
    · rintro x - y hy m n - rfl
      exact absurd hy (hmore n)

theorem calledOnce_abort {ops : List (Op Waypoint DoneCallback)} (h : CalledOnce ops) :
    CalledOnce (ops ++ [.abort]) ↔ AbortsOnce ops .abort := by
  cases hdone : (observed.run ops).controller.doneCb with
  | none =>
    have hlog : (observed.run (ops ++ [.abort])).log = (observed.run ops).log ++ [] := by
      rw [abort_log, hdone]
      rfl
    exact iff_of_true (h.quiet hlog fun n => List.not_mem_nil) fun _ => Or.inl hdone
  | some r =>
    obtain ⟨n, f⟩ := r
    have hlog : (observed.run (ops ++ [.abort])).log = (observed.run ops).log ++ [.called n] := by
      rw [abort_log, hdone]
      rfl
    have hfresh := (holds_run ops).fresh n f hdone
    rw [CalledOnce, hlog, AbortsOnce, hdone]
    simp only [reduceCtorEq, false_or, forall_const]
    rw [hfresh]
    constructor
    · rintro ⟨hcount, -⟩ hmem
      have hone := hcount n
      have hpos := List.count_pos_iff.mpr hmem
      rw [List.count_append, List.count_singleton_self] at hone
      omega
    · intro hnot
      constructor
      · intro m
        rw [List.count_append, List.count_singleton]
        split
        · next heq =>
          cases eq_of_beq heq
          rw [List.count_eq_zero_of_not_mem hnot]
        · exact h.1 m
      · refine List.pairwise_append.mpr ⟨h.2, List.pairwise_singleton _ _, ?_⟩
        rintro x hx y hy m k rfl rfl
        cases List.mem_singleton.mp hy
        exact (holds_run ops).latest n f hdone m hx

theorem calledOnce_concat {ops : List (Op Waypoint DoneCallback)} (h : CalledOnce ops)
    (op : Op Waypoint DoneCallback) : CalledOnce (ops ++ [op]) ↔ AbortsOnce ops op := by
  have hrun := observed.run_concat ops op
  cases op with
  | abort => exact calledOnce_abort h
  | start path cb =>
    have hlog := congrArg Observed.log hrun
    refine iff_of_true (h.quiet hlog ?_) nofun
    intro n hmem
    split at hmem
    · cases List.mem_singleton.mp hmem
    · cases hmem
  | _ =>
    have hlog := (congrArg Observed.log hrun).trans (List.append_nil _).symm
    exact iff_of_true (h.quiet hlog fun n => List.not_mem_nil) nofun

/-- Each callback is called at most once, and never after a later start was successful, if and only
if no `abort` comes while there is a callback and the patrol is aborted already. -/
theorem completion_once_iff (ops : List (Op Waypoint DoneCallback)) :
    Always CalledOnce ops ↔ EachOp AbortsOnce ops := by
  apply always_iff
  · exact ⟨fun n => Nat.zero_le 1, List.Pairwise.nil⟩
  · intro before op hbefore
    exact calledOnce_concat hbefore.last op

/-- A second `abort` calls the callback again. -/
theorem aborted_twice :
    ¬ (∀ ops : List (Op Unit Unit), Always CalledOnce ops) ∧
      (observed.run [.start [()] (some ()), .abort, .abort] : Observed Unit Unit).log =
        [.started 0, .called 0, .called 0] := by
  refine ⟨?_, rfl⟩
  intro h
  have honce := (h [.start [()] (some ()), .abort, .abort]).last.1 0
  revert honce
  decide

end Patrolling

end Patrol.Business
