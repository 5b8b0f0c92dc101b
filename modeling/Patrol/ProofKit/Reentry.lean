import Patrol.ProofKit.Machine

/-! Callbacks that use the object that calls them.  A callback is a program that touches memory of its
own and calls operations of the object; an operation that takes the object's mutex cannot be called
while this is held, since the mutex is not recursive. -/

namespace ProofKit

/-- How running code ends: it returned, it tried to lock the mutex that it holds, or its calls nest
deeper than they were followed. -/
inductive Outcome (World α : Type)
  | returned (a : α) (w : World)
  | deadlocked (w : World)
  | unfinished (w : World)
deriving DecidableEq, Repr

namespace Outcome

variable {World α β : Type}

/-- The world where the code ended. -/
def world : Outcome World α → World
  | .returned _ w => w
  | .deadlocked w => w
  | .unfinished w => w

def bind (x : Outcome World α) (f : α → World → Outcome World β) : Outcome World β :=
  match x with
  | .returned a w => f a w
  | .deadlocked w => .deadlocked w
  | .unfinished w => .unfinished w

/-- The outcome without the value that was returned. -/
def void (x : Outcome World α) : Outcome World Unit :=
  x.bind fun _ w => .returned () w

@[simp] theorem world_returned (a : α) (w : World) : (returned a w).world = w := rfl

@[simp] theorem bind_returned (a : α) (w : World) (f : α → World → Outcome World β) :
    (returned a w).bind f = f a w := rfl

@[simp] theorem bind_deadlocked (w : World) (f : α → World → Outcome World β) :
    (deadlocked w).bind f = .deadlocked w := rfl

/-- Code with two parts that returns, returns from both. -/
theorem of_bind_returned {x : Outcome World α} {f : α → World → Outcome World β} {b : β}
    {w' : World} (h : x.bind f = .returned b w') :
    ∃ a w, x = .returned a w ∧ f a w = .returned b w' := by
  cases x with
  | returned a w => exact ⟨a, w, rfl, h⟩
  | deadlocked w => cases h
  | unfinished w => cases h

/-- A value that is returned at the end does not touch the world. -/
@[simp] theorem world_bind_returned (x : Outcome World α) (b : β) :
    (x.bind fun _ w => .returned b w).world = x.world := by
  cases x <;> rfl

end Outcome

/-- Code outside of an object: it returns, it touches memory, or it calls an operation of the object
and goes on with what that returns. -/
inductive Prog (Mem : Type) {Call : Type} (Ret : Call → Type) (α : Type)
  | ret (a : α)
  | touch (put : Mem → Mem) (k : Mem → Prog Mem Ret α)
  | call (c : Call) (k : Ret c → Prog Mem Ret α)

namespace Prog

variable {Obj Mem Call α β : Type} {Ret : Call → Type}

def bind : Prog Mem Ret α → (α → Prog Mem Ret β) → Prog Mem Ret β
  | .ret a, f => f a
  | .touch put k, f => .touch put fun m => (k m).bind f
  | .call c k, f => .call c fun r => (k r).bind f

/-- Programs one after the other. -/
def sequence : List (Prog Mem Ret Unit) → Prog Mem Ret Unit
  | [] => .ret ()
  | p :: ps => p.bind fun _ => sequence ps

/-- Runs a program, given what a call of an operation does. -/
def run (exec : (c : Call) → Obj × Mem → Outcome (Obj × Mem) (Ret c)) :
    Prog Mem Ret α → Obj × Mem → Outcome (Obj × Mem) α
  | .ret a, w => .returned a w
  | .touch put k, w => (k w.2).run exec (w.1, put w.2)
  | .call c k, w => (exec c w).bind fun r w => (k r).run exec w

/-- What a program returns and the memory it leaves, if it makes no call. -/
def silent : Prog Mem Ret α → Mem → Option (α × Mem)
  | .ret a, m => some (a, m)
  | .touch put k, m => (k m).silent (put m)
  | .call _ _, _ => none

/-- A program makes no call of an operation of the object. -/
def Quiet (p : Prog Mem Ret α) (m : Mem) : Prop := (p.silent m).isSome = true

theorem silent_bind (p : Prog Mem Ret α) (f : α → Prog Mem Ret β) (m : Mem) :
    (p.bind f).silent m = (p.silent m).bind fun r => (f r.1).silent r.2 := by
  induction p generalizing m with
  | ret a => rfl
  | touch put k ih => exact ih m (put m)
  | call c k ih => rfl

/-- A sequence without calls has two parts without calls. -/
theorem silent_bind_some {p : Prog Mem Ret α} {f : α → Prog Mem Ret β} {m : Mem} {r : β × Mem}
    (h : (p.bind f).silent m = some r) :
    ∃ a m', p.silent m = some (a, m') ∧ (f a).silent m' = some r := by
  rw [silent_bind] at h
  obtain ⟨⟨a, m'⟩, hp, hf⟩ := Option.bind_eq_some_iff.mp h
  exact ⟨a, m', hp, hf⟩

theorem silent_sequence_append (ps qs : List (Prog Mem Ret Unit)) (m : Mem) :
    (sequence (ps ++ qs)).silent m =
      ((sequence ps).silent m).bind fun r => (sequence qs).silent r.2 := by
  induction ps generalizing m with
  | nil => rfl
  | cons p ps ih =>
    simp only [List.cons_append, sequence, silent_bind, Option.bind_assoc, ih]

variable {exec : (c : Call) → Obj × Mem → Outcome (Obj × Mem) (Ret c)}

/-- A program without calls leaves the object as it is. -/
theorem run_of_silent {p : Prog Mem Ret α} {m m' : Mem} {a : α} (h : p.silent m = some (a, m'))
    (o : Obj) : p.run exec (o, m) = .returned a (o, m') := by
  induction p generalizing m with
  | ret a =>
    cases h
    rfl
  | touch put k ih => exact ih m h
  | call c k ih => cases h

/-- A program that makes a call deadlocks where every call does. -/
theorem run_of_call {p : Prog Mem Ret α} {m : Mem} (h : p.silent m = none) {o : Obj}
    (hexec : ∀ c m, exec c (o, m) = .deadlocked (o, m)) :
    ∃ m', p.run exec (o, m) = .deadlocked (o, m') := by
  induction p generalizing m with
  | ret a => cases h
  | touch put k ih => exact ih m h
  | call c k ih =>
    rw [run, hexec]
    exact ⟨m, rfl⟩

/-- The first part of a sequence that makes a call deadlocks, or what goes on after it does. -/
theorem run_bind_call {γ : Type} {p : Prog Mem Ret α} {f : α → Prog Mem Ret β} {m : Mem}
    (h : (p.bind f).silent m = none) {o : Obj}
    (hexec : ∀ c m, exec c (o, m) = .deadlocked (o, m)) {next : α → Obj × Mem → Outcome (Obj × Mem) γ}
    (hnext : ∀ a m', (f a).silent m' = none → ∃ w, next a (o, m') = .deadlocked w) :
    ∃ w, (p.run exec (o, m)).bind next = .deadlocked w := by
  rw [silent_bind] at h
  cases hp : p.silent m with
  | none =>
    obtain ⟨m', hrun⟩ := run_of_call hp hexec
    rw [hrun]
    exact ⟨_, rfl⟩
  | some r =>
    rw [hp, Option.bind_some] at h
    rw [run_of_silent hp]
    exact hnext r.1 r.2 h

/-- What every call keeps, a program keeps. -/
theorem run_keeps {I : Obj → Prop} (hexec : ∀ c w, I w.1 → I (exec c w).world.1)
    (p : Prog Mem Ret α) {w : Obj × Mem} (h : I w.1) : I (p.run exec w).world.1 := by
  induction p generalizing w with
  | ret a => exact h
  | touch put k ih => exact ih w.2 h
  | call c k ih =>
    have hcall := hexec c w h
    rw [run]
    cases hc : exec c w with
    | returned r w' =>
      rw [hc] at hcall
      exact ih r hcall
    | deadlocked w' =>
      rw [hc] at hcall
      exact hcall
    | unfinished w' =>
      rw [hc] at hcall
      exact hcall

end Prog

/-! ### The mutex -/

/-- An object with a mutex that is not recursive. -/
structure Guarded (Obj : Type) where
  held : Bool := false
  obj : Obj

section

variable {Obj Mem α : Type}

/-- Code that runs under the lock and gives it back when it returns. -/
def lockGuard (code : Guarded Obj × Mem → Outcome (Guarded Obj × Mem) α)
    (w : Guarded Obj × Mem) : Outcome (Guarded Obj × Mem) α :=
  if w.1.held then .deadlocked w
  else
    (code ({ w.1 with held := true }, w.2)).bind fun a w =>
      .returned a ({ w.1 with held := false }, w.2)

@[simp] theorem lockGuard_held (code : Guarded Obj × Mem → Outcome (Guarded Obj × Mem) α)
    (o : Obj) (m : Mem) : lockGuard code (⟨true, o⟩, m) = .deadlocked (⟨true, o⟩, m) := rfl

theorem lockGuard_returned {code : Guarded Obj × Mem → Outcome (Guarded Obj × Mem) α} {o : Obj}
    {m : Mem} {a : α} {g : Guarded Obj} {m' : Mem}
    (h : code (⟨true, o⟩, m) = .returned a (g, m')) :
    lockGuard code (⟨false, o⟩, m) = .returned a (⟨false, g.obj⟩, m') := by
  rw [lockGuard, if_neg Bool.false_ne_true, h, Outcome.bind_returned]

theorem lockGuard_deadlocked {code : Guarded Obj × Mem → Outcome (Guarded Obj × Mem) α} {o : Obj}
    {m : Mem} {w : Guarded Obj × Mem} (h : code (⟨true, o⟩, m) = .deadlocked w) :
    lockGuard code (⟨false, o⟩, m) = .deadlocked w := by
  rw [lockGuard, if_neg Bool.false_ne_true, h, Outcome.bind_deadlocked]

end

/-! ### Runs -/

section

variable {World Op : Type}

/-- Operations one after the other, given what each of them does. -/
def runSteps (step : Op → World → Outcome World Unit) : List Op → World → Outcome World Unit
  | [], w => .returned () w
  | op :: ops, w => (step op w).bind fun _ w => runSteps step ops w

theorem runSteps_concat (step : Op → World → Outcome World Unit) (ops : List Op) (op : Op)
    (w : World) :
    runSteps step (ops ++ [op]) w = (runSteps step ops w).bind fun _ w => step op w := by
  induction ops generalizing w with
  | nil =>
    rw [List.nil_append, runSteps, runSteps, Outcome.bind_returned]
    cases step op w <;> rfl
  | cons o ops ih =>
    rw [List.cons_append, runSteps, runSteps]
    cases step o w with
    | returned _ w' => exact ih w'
    | deadlocked w' => rfl
    | unfinished w' => rfl

/-- At every operation of a run the callbacks are quiet, given when those of an operation are. -/
def QuietRun (step : Op → World → Outcome World Unit) (quiet : Op → World → Prop) (ops : List Op)
    (w : World) : Prop :=
  EachOp (fun before op => ∀ w', runSteps step before w = .returned () w' → quiet op w') ops

/-- If every operation returns where its callbacks are quiet, and deadlocks where they are not, then
a run ends in one of these two ways. -/
theorem runSteps_cases {step : Op → World → Outcome World Unit} {free : World → Prop}
    {quiet : Op → World → Prop}
    (hquiet : ∀ op w, free w → quiet op w → ∃ w', step op w = .returned () w' ∧ free w')
    (hcall : ∀ op w, free w → ¬ quiet op w → ∃ w', step op w = .deadlocked w')
    {w : World} (hfree : free w) (ops : List Op) :
    (QuietRun step quiet ops w ∧ ∃ w', runSteps step ops w = .returned () w' ∧ free w') ∨
      (¬ QuietRun step quiet ops w ∧ ∃ w', runSteps step ops w = .deadlocked w') := by
  induction ops using List.reverseRecOn with
  | nil => exact Or.inl ⟨eachOp_nil, w, rfl, hfree⟩
  | append_singleton ops op ih =>
    rw [QuietRun, eachOp_concat, runSteps_concat]
    rcases ih with ⟨heach, w', hrun, hfree'⟩ | ⟨hnot, w', hrun⟩
    · rw [hrun, Outcome.bind_returned]
      by_cases hop : quiet op w'
      · refine Or.inl ⟨⟨heach, ?_⟩, hquiet op w' hfree' hop⟩
        rintro w'' ⟨⟩
        exact hop
      · exact Or.inr ⟨fun h => hop (h.2 w' rfl), hcall op w' hfree' hop⟩
    · rw [hrun]
      exact Or.inr ⟨fun h => hnot h.1, w', rfl⟩

/-- Such a run returns exactly if the callbacks are quiet, and deadlocks otherwise. -/
theorem runSteps_iff {step : Op → World → Outcome World Unit} {free : World → Prop}
    {quiet : Op → World → Prop}
    (hquiet : ∀ op w, free w → quiet op w → ∃ w', step op w = .returned () w' ∧ free w')
    (hcall : ∀ op w, free w → ¬ quiet op w → ∃ w', step op w = .deadlocked w')
    {w : World} (hfree : free w) (ops : List Op) :
    ((∃ w', runSteps step ops w = .returned () w') ↔ QuietRun step quiet ops w) ∧
      ((∃ w', runSteps step ops w = .deadlocked w') ↔ ¬ QuietRun step quiet ops w) := by
  rcases runSteps_cases hquiet hcall hfree ops with ⟨h, w', hrun, -⟩ | ⟨h, w', hrun⟩
  · simp [h, hrun]
  · simp [h, hrun]

end

end ProofKit
