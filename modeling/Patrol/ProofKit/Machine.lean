import Mathlib.Data.List.Induction
import Mathlib.Data.List.Infix

/-! Histories of a machine: what one operation keeps holds at every point of a history. -/

namespace ProofKit

variable {State Op : Type*}

/-- A property of histories holds at every point of one. -/
def Always (P : List Op → Prop) (ops : List Op) : Prop :=
  ∀ before, before <+: ops → P before

/-- Every operation of a history is as it has to be after the operations before it. -/
def EachOp (ok : List Op → Op → Prop) (ops : List Op) : Prop :=
  ∀ before op, before ++ [op] <+: ops → ok before op

theorem Always.last {P : List Op → Prop} {ops : List Op} (h : Always P ops) : P ops :=
  h ops List.prefix_rfl

theorem always_nil {P : List Op → Prop} : Always P [] ↔ P [] := by
  constructor
  · exact Always.last
  · intro h before hbefore
    rwa [List.prefix_nil.mp hbefore]

theorem always_concat {P : List Op → Prop} {ops : List Op} {op : Op} :
    Always P (ops ++ [op]) ↔ Always P ops ∧ P (ops ++ [op]) := by
  constructor
  · intro h
    exact ⟨fun before hbefore => h before (hbefore.trans (List.prefix_append _ _)), h.last⟩
  · rintro ⟨hops, hlast⟩ before hbefore
    rcases List.prefix_concat_iff.mp hbefore with rfl | hbefore
    · exact hlast
    · exact hops before hbefore

theorem eachOp_nil {ok : List Op → Op → Prop} : EachOp ok [] := by
  intro before op h
  simp at h

theorem eachOp_concat {ok : List Op → Op → Prop} {ops : List Op} {op : Op} :
    EachOp ok (ops ++ [op]) ↔ EachOp ok ops ∧ ok ops op := by
  constructor
  · intro h
    exact ⟨fun before o ho => h before o (ho.trans (List.prefix_append _ _)),
      h ops op List.prefix_rfl⟩
  · rintro ⟨hops, hlast⟩ before o ho
    rcases List.prefix_concat_iff.mp ho with heq | ho
    · obtain ⟨rfl, hop⟩ := List.append_inj' heq rfl
      cases hop
      exact hlast
    · exact hops before o ho

/-- Among the histories of a kind, which the part before an operation has too: a property that holds
at the start, and that an operation keeps exactly if it is as it has to be, holds at every point
exactly if every operation is. -/
theorem always_iff_of_closed {P : List Op → Prop} {ok : List Op → Op → Prop} {C : List Op → Prop}
    (hclosed : ∀ before op, C (before ++ [op]) → C before) (hnil : P [])
    (hstep : ∀ before op, C (before ++ [op]) → Always P before →
      (P (before ++ [op]) ↔ ok before op))
    {ops : List Op} (hC : C ops) : Always P ops ↔ EachOp ok ops := by
  induction ops using List.reverseRecOn with
  | nil => exact iff_of_true (always_nil.mpr hnil) eachOp_nil
  | append_singleton ops op ih =>
    rw [always_concat, eachOp_concat, ← ih (hclosed ops op hC)]
    apply and_congr_right
    intro hops
    exact hstep ops op hC hops

/-- The same for the histories of legal operations. -/
theorem always_iff_of_legal {P : List Op → Prop} {ok : List Op → Op → Prop} {L : Op → Prop}
    (hnil : P [])
    (hstep : ∀ before op, L op → Always P before → (P (before ++ [op]) ↔ ok before op))
    {ops : List Op} (hlegal : ∀ op ∈ ops, L op) : Always P ops ↔ EachOp ok ops := by
  apply @always_iff_of_closed _ P ok (fun ops => ∀ op ∈ ops, L op) _ hnil _ _ hlegal
  · intro before op h o ho
    exact h o (List.mem_append_left _ ho)
  · intro before op h
    exact hstep before op (h op (by simp))

theorem always_iff {P : List Op → Prop} {ok : List Op → Op → Prop} (hnil : P [])
    (hstep : ∀ before op, Always P before → (P (before ++ [op]) ↔ ok before op)) (ops : List Op) :
    Always P ops ↔ EachOp ok ops :=
  always_iff_of_legal (L := fun _ => True) hnil (fun before op _ => hstep before op)
    (fun _ _ => trivial)

/-- A machine that takes every operation in every state. -/
structure Machine (State Op : Type*) where
  init : State
  step : State → Op → State

namespace Machine

variable (M : Machine State Op)

/-- The state after a history. -/
def run (ops : List Op) : State :=
  ops.foldl M.step M.init

@[simp] theorem run_nil : M.run [] = M.init := rfl

theorem run_append (ops more : List Op) :
    M.run (ops ++ more) = more.foldl M.step (M.run ops) :=
  List.foldl_append

@[simp] theorem run_concat (ops : List Op) (op : Op) :
    M.run (ops ++ [op]) = M.step (M.run ops) op :=
  M.run_append ops [op]

/-- What holds at first and is kept by every legal operation holds after every legal history. -/
theorem run_invariant_of_legal {I : State → Prop} {L : Op → Prop} (hinit : I M.init)
    (hstep : ∀ s op, L op → I s → I (M.step s op)) {ops : List Op}
    (hlegal : ∀ op ∈ ops, L op) : I (M.run ops) := by
  induction ops using List.reverseRecOn with
  | nil => exact hinit
  | append_singleton ops op ih =>
    simp only [List.forall_mem_append, List.forall_mem_singleton] at hlegal
    rw [run_concat]
    exact hstep _ op hlegal.2 (ih hlegal.1)

theorem run_invariant {I : State → Prop} (hinit : I M.init)
    (hstep : ∀ s op, I s → I (M.step s op)) (ops : List Op) : I (M.run ops) :=
  M.run_invariant_of_legal hinit (fun s op (_ : True) => hstep s op) (fun _ _ => trivial)

/-- Each step of one machine is matched by some steps of another one: its runs are matched all along, so
that what the other one does happens at the same time. -/
theorem run_matched {State' Op' : Type*} (N : Machine State' Op') {R : State → State' → Prop}
    (hinit : R M.init N.init)
    (hstep : ∀ s t op, R s t → ∃ more : List Op', R (M.step s op) (more.foldl N.step t))
    (ops : List Op) :
    ∃ parts : List (List Op'), parts.length = ops.length ∧
      ∀ n, R (M.run (ops.take n)) (N.run (parts.take n).flatten) := by
  induction ops using List.reverseRecOn with
  | nil => exact ⟨[], rfl, fun n => by rwa [List.take_nil, List.take_nil]⟩
  | append_singleton ops op ih =>
    obtain ⟨parts, hlength, hmatched⟩ := ih
    have hlast := hmatched ops.length
    rw [List.take_length, ← hlength, List.take_length] at hlast
    obtain ⟨more, hmore⟩ := hstep _ _ op hlast
    refine ⟨parts ++ [more], by simp [hlength], fun n => ?_⟩
    by_cases hn : n ≤ ops.length
    · rw [List.take_append_of_le_length hn, List.take_append_of_le_length (by omega)]
      exact hmatched n
    · rw [List.take_of_length_le (by simp; omega), List.take_of_length_le (by simp; omega), run_concat,
        List.flatten_append, List.flatten_singleton, run_append]
      exact hmore

end Machine

end ProofKit
