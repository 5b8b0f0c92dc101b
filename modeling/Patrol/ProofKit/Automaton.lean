import Mathlib.Logic.Function.Basic

/-! Automata whose transitions are declared while they run, with guards that are asked for every
event.  A `Walk` is what such an automaton answers, and whom it calls meanwhile. -/

namespace ProofKit.Automaton

variable {State Event : Type}

/-- Where the transitions lead that are declared. -/
abbrev Table (State Event : Type) := State × Event → Option State

/-- Something that is asked of an automaton, with its answer. -/
inductive Act (State Event : Type)
  | declare (src : State) (ev : Event) (dst : State)
  | process (ev : Event) (taken : Bool)
  | current (a : State)
deriving DecidableEq, Repr

/-- Someone that an automaton calls: the guard of a transition, with its answer, and those that hear
of the transition. -/
inductive Note (State Event : Type)
  | guarded (src : State) (ev : Event) (ok : Bool)
  | exited (a : State)
  | acted (src : State) (ev : Event) (dst : State)
  | entered (a : State)
deriving DecidableEq, Repr

/-- A transition that is taken, in the order in which it is heard of. -/
def Note.ofMove (src : State) (ev : Event) (dst : State) : List (Note State Event) :=
  [.guarded src ev true, .exited src, .acted src ev dst, .entered dst]

/-- The state after a call, given the state before. -/
def Note.arrive (a : State) : Note State Event → State
  | .entered b => b
  | _ => a

def Note.isEntered : Note State Event → Bool
  | .entered _ => true
  | _ => false

def Act.isTaken : Act State Event → Bool
  | .process _ taken => taken
  | _ => false

/-- One answer of the automaton in state `a`, whom it calls, and the state after. -/
inductive Answers (δ : Table State Event) (a : State) :
    Act State Event → List (Note State Event) → State → Prop
  | declare (src : State) (ev : Event) (dst : State) : Answers δ a (.declare src ev dst) [] a
  | current : Answers δ a (.current a) [] a
  | missing {ev : Event} (h : δ (a, ev) = none) : Answers δ a (.process ev false) [] a
  | refused {ev : Event} {dst : State} (h : δ (a, ev) = some dst) :
      Answers δ a (.process ev false) [.guarded a ev false] a
  | taken {ev : Event} {dst : State} (h : δ (a, ev) = some dst) :
      Answers δ a (.process ev true) (Note.ofMove a ev dst) dst

theorem Answers.arrive {δ : Table State Event} {a b : State} {act : Act State Event}
    {notes : List (Note State Event)} (h : Answers δ a act notes b) :
    notes.foldl Note.arrive a = b := by
  cases h <;> rfl

theorem Answers.entered {δ : Table State Event} {a b : State} {act : Act State Event}
    {notes : List (Note State Event)} (h : Answers δ a act notes b) :
    notes.countP Note.isEntered = [act].countP Act.isTaken := by
  cases h <;> rfl

variable [DecidableEq State] [DecidableEq Event]

/-- The table after something is asked. -/
def Act.table (δ : Table State Event) : Act State Event → Table State Event
  | .declare src ev dst => Function.update δ (src, ev) (some dst)
  | _ => δ

/-- Answers of the automaton one after the other. -/
inductive Walk : Table State Event → State → List (Act State Event) → List (Note State Event) →
    State → Prop
  | done (δ : Table State Event) (a : State) : Walk δ a [] [] a
  | step {δ : Table State Event} {a b c : State} {act : Act State Event}
      {acts : List (Act State Event)} {new notes : List (Note State Event)}
      (h : Answers δ a act new b) (hrest : Walk (act.table δ) b acts notes c) :
      Walk δ a (act :: acts) (new ++ notes) c

variable {δ : Table State Event} {a b : State} {acts : List (Act State Event)}
  {notes : List (Note State Event)}

/-- The calls tell the state that the automaton is in. -/
theorem Walk.arrive (h : Walk δ a acts notes b) : notes.foldl Note.arrive a = b := by
  induction h with
  | done δ a => rfl
  | step hanswer _ ih => rw [List.foldl_append, hanswer.arrive, ih]

/-- A state is entered for every event that is answered with `true`, and for no other. -/
theorem Walk.entered (h : Walk δ a acts notes b) :
    notes.countP Note.isEntered = acts.countP Act.isTaken := by
  induction h with
  | done δ a => rfl
  | step hanswer _ ih =>
    rw [List.countP_append, ih, hanswer.entered, ← List.countP_append]
    rfl

end ProofKit.Automaton
