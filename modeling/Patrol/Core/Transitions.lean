import Patrol.Core.Reentrance
import Patrol.ProofKit.Automaton

/-! What is seen of a `StateMachine` from outside: its answers, and the calls of guards, actions and
callbacks.  A run of the machine, with its mutex, is a walk of an automaton. -/

namespace Patrol.Core

open ProofKit

namespace StateMachine

variable {State Event Mem : Type}

/-- Where the transitions of the machine lead. -/
def table (s : StateMachine State Event Mem) : Automaton.Table State Event :=
  fun key => (s.trans key).map (·.target)

/-- What a registration declares. -/
def Registration.acts : Registration State Event Mem → List (Automaton.Act State Event)
  | .addTransition src ev info => [.declare src ev info.target]
  | .onEnter _ _ => []
  | .onExit _ _ => []

/-! ### Callbacks that write down that they are called -/

/-- Code that is called as `note` says leaves a log as it was, or adds `note` to it where the log is
one that hears of it. -/
def NotedCode {α : Type} (log : Mem → List (Automaton.Note State Event))
    (hears : Automaton.Note State Event → Bool) (code : Code State Event Mem α)
    (note : α → Automaton.Note State Event) : Prop :=
  ∀ m r m', code.silent m = some (r, m') → log m' = log m ++ [note r].filter hears

/-- The guard and the action of a transition write down that they are called. -/
structure Info.Noted (log : Mem → List (Automaton.Note State Event))
    (hears : Automaton.Note State Event → Bool) (src : State) (ev : Event)
    (t : Info State Event Mem) : Prop where
  guard : NotedCode log hears (t.guardCode src ev) (.guarded src ev)
  action : NotedCode log hears (t.actionCode src ev t.target) fun _ => .acted src ev t.target

/-- All that the machine calls writes down that it is called. -/
structure Noted (log : Mem → List (Automaton.Note State Event))
    (hears : Automaton.Note State Event → Bool) (s : StateMachine State Event Mem) : Prop where
  trans : ∀ key t, s.trans key = some t → t.Noted log hears key.1 key.2
  enter : ∀ a, NotedCode log hears (codeOf (s.enterCb a)) fun _ => .entered a
  exit : ∀ a, NotedCode log hears (codeOf (s.exitCb a)) fun _ => .exited a

/-- What is registered writes down that it is called. -/
def Registration.Noted (log : Mem → List (Automaton.Note State Event))
    (hears : Automaton.Note State Event → Bool) : Registration State Event Mem → Prop
  | .addTransition src ev info => info.Noted log hears src ev
  | .onEnter a cb => NotedCode log hears (codeOf cb) fun _ => .entered a
  | .onExit a cb => NotedCode log hears (codeOf cb) fun _ => .exited a

variable {log : Mem → List (Automaton.Note State Event)}
  {hears : Automaton.Note State Event → Bool}

/-- Where nothing is called back, the machine has moved by one answer of the automaton. -/
theorem processLocked_answers (call : (c : Call Event) → World State Event Mem →
      Outcome (World State Event Mem) (Ret State c)) {s : StateMachine State Event Mem}
    {ev : Event} {m m' : Mem} (hnoted : Noted log hears s)
    (h : (s.callbacks (.process ev)).silent m = some ((), m')) :
    ∃ ok b new, processLocked call ev (⟨true, s⟩, m) = .returned ok (⟨true, { s with cur := b }⟩, m') ∧
      Automaton.Answers s.table s.cur (.process ev ok) new b ∧
      log m' = log m ++ new.filter hears := by
  cases ht : s.trans (s.cur, ev) with
  | none =>
    simp only [callbacks, ht] at h
    cases h
    refine ⟨false, s.cur, [], ?_, .missing ?_, ?_⟩
    · simp only [processLocked, ht]
    · rw [table, ht, Option.map_none]
    · rw [List.filter_nil, List.append_nil]
  | some t =>
    have hδ : s.table (s.cur, ev) = some t.target := by rw [table, ht, Option.map_some]
    have ht' := hnoted.trans (s.cur, ev) t ht
    simp only [callbacks, ht] at h
    obtain ⟨ok, m₁, hguard, hrest⟩ := Prog.silent_bind_some h
    have hlog₁ := ht'.guard m ok m₁ hguard
    cases ok with
    | false =>
      cases hrest
      refine ⟨false, s.cur, _, ?_, .refused hδ, hlog₁⟩
      simp only [processLocked, ht, Prog.run_of_silent hguard]
      rfl
    | true =>
      obtain ⟨u₂, m₂, hexit, hrest⟩ := Prog.silent_bind_some hrest
      obtain ⟨u₃, m₃, haction, henter⟩ := Prog.silent_bind_some hrest
      have hlog₂ := hnoted.exit s.cur m₁ u₂ m₂ hexit
      have hlog₃ := ht'.action m₂ u₃ m₃ haction
      have hlog₄ := hnoted.enter t.target m₃ () m' henter
      refine ⟨true, t.target, _, ?_, .taken hδ, ?_⟩
      · simp [processLocked, ht, Prog.run_of_silent hguard, Prog.run_of_silent hexit,
          Prog.run_of_silent haction, Prog.run_of_silent henter]
      · rw [hlog₄, hlog₃, hlog₂, hlog₁, List.append_assoc, List.append_assoc, List.append_assoc,
          ← List.filter_append, ← List.filter_append, ← List.filter_append]
        rfl

/-- `process` that returns has called nothing that calls the machine, and answers as the automaton
does. -/
theorem exec_answers (fuel : Nat) {s : StateMachine State Event Mem} {ev : Event} {m : Mem}
    {ok : Bool} {w : World State Event Mem} (hnoted : Noted log hears s)
    (hrun : exec (fuel + 2) (.process ev) (⟨false, s⟩, m) = .returned ok w) :
    ∃ b m' new, w = (⟨false, { s with cur := b }⟩, m') ∧
      Automaton.Answers s.table s.cur (.process ev ok) new b ∧
      log m' = log m ++ new.filter hears := by
  have hquiet : (s.callbacks (.process ev)).Quiet m := by
    by_contra hcall
    obtain ⟨w', hdead⟩ := exec_call fuel (.process ev) hcall
    rw [hdead] at hrun
    cases hrun
  obtain ⟨⟨u, m'⟩, hsilent⟩ := Option.isSome_iff_exists.mp hquiet
  obtain ⟨ok', b, new, hlocked, hanswers, hlog⟩ :=
    processLocked_answers (exec (fuel + 1)) hnoted hsilent
  have hexec : exec (fuel + 2) (.process ev) (⟨false, s⟩, m) =
      .returned ok' (⟨false, { s with cur := b }⟩, m') := lockGuard_returned hlocked
  rw [hexec] at hrun
  cases hrun
  exact ⟨b, m', new, rfl, hanswers, hlog⟩

section

variable [DecidableEq State] [DecidableEq Event]

/-- What an operation lets the program around the machine see. -/
def answer (fuel : Nat) (op : Op State Event Mem) (w : World State Event Mem) :
    Outcome (World State Event Mem) (List (Automaton.Act State Event)) :=
  match op with
  | .register r => .returned r.acts ({ w.1 with obj := w.1.obj.register r }, w.2)
  | .call (.process ev) =>
    (exec fuel (.process ev) w).bind fun ok w => .returned [.process ev ok] w
  | .call .current => (exec fuel .current w).bind fun a w => .returned [.current a] w

/-- Operations one after the other, with what is seen of them. -/
def observe (fuel : Nat) : List (Op State Event Mem) → World State Event Mem →
    Outcome (World State Event Mem) (List (Automaton.Act State Event))
  | [], w => .returned [] w
  | op :: ops, w =>
    (answer fuel op w).bind fun acts w =>
      (observe fuel ops w).bind fun rest w => .returned (acts ++ rest) w

theorem cur_register (s : StateMachine State Event Mem) (r : Registration State Event Mem) :
    (s.register r).cur = s.cur := by
  cases r <;> rfl

theorem table_register (s : StateMachine State Event Mem)
    (r : Registration State Event Mem) :
    (s.register r).table = r.acts.foldl Automaton.Act.table s.table := by
  cases r with
  | addTransition src ev info =>
    funext key
    by_cases hkey : key = (src, ev)
    · subst hkey
      simp [table, register, Registration.acts, Automaton.Act.table]
    · simp [table, register, Registration.acts, Automaton.Act.table, hkey]
  | onEnter a cb => rfl
  | onExit a cb => rfl

/-- What is registered writes down that it is called, as everything does that was before. -/
theorem Noted.register {s : StateMachine State Event Mem} (h : Noted log hears s)
    {r : Registration State Event Mem} (hr : r.Noted log hears) :
    Noted log hears (s.register r) := by
  cases r with
  | addTransition src ev info =>
    refine ⟨?_, h.enter, h.exit⟩
    apply (Function.forall_update_iff s.trans fun key t =>
      ∀ info, t = some info → info.Noted log hears key.1 key.2).mpr
    constructor
    · rintro info ⟨⟩
      exact hr
    · intro key _
      exact h.trans key
  | onEnter a cb =>
    refine ⟨h.trans, ?_, h.exit⟩
    exact (Function.forall_update_iff s.enterCb fun a cb =>
      NotedCode log hears (codeOf cb) fun _ => .entered a).mpr ⟨hr, fun a _ => h.enter a⟩
  | onExit a cb =>
    refine ⟨h.trans, h.enter, ?_⟩
    exact (Function.forall_update_iff s.exitCb fun a cb =>
      NotedCode log hears (codeOf cb) fun _ => .exited a).mpr ⟨hr, fun a _ => h.exit a⟩

theorem walk_of_register {s : StateMachine State Event Mem} {r : Registration State Event Mem}
    {a b : State} {acts : List (Automaton.Act State Event)}
    {notes : List (Automaton.Note State Event)}
    (h : Automaton.Walk (s.register r).table a acts notes b) :
    Automaton.Walk s.table a (r.acts ++ acts) notes b := by
  rw [table_register] at h
  cases r with
  | addTransition src ev info => exact .step (.declare src ev info.target) h
  | onEnter a cb => exact h
  | onExit a cb => exact h

/-- A run that returns is a walk of the automaton that its registrations declare, and its callbacks
are called as the walk says. -/
theorem observe_walk (fuel : Nat) {ops : List (Op State Event Mem)}
    {s : StateMachine State Event Mem} {m : Mem} {acts : List (Automaton.Act State Event)}
    {w : World State Event Mem} (hnoted : Noted log hears s)
    (hregistered : ∀ r, .register r ∈ ops → r.Noted log hears)
    (hrun : observe (fuel + 2) ops (⟨false, s⟩, m) = .returned acts w) :
    ∃ notes, Automaton.Walk s.table s.cur acts notes w.1.obj.cur ∧
      log w.2 = log m ++ notes.filter hears ∧ w.1.held = false := by
  induction ops generalizing s m acts with
  | nil =>
    cases hrun
    exact ⟨[], .done _ _, by rw [List.filter_nil, List.append_nil], rfl⟩
  | cons op ops ih =>
    have hrest : ∀ r, .register r ∈ ops → r.Noted log hears :=
      fun r hr => hregistered r (List.mem_cons_of_mem _ hr)
    obtain ⟨first, w₁, hfirst, hmore⟩ := Outcome.of_bind_returned hrun
    obtain ⟨rest, w₂, hops, hlast⟩ := Outcome.of_bind_returned hmore
    cases hlast
    cases op with
    | register r =>
      cases hfirst
      obtain ⟨notes, hwalk, hlog, hheld⟩ :=
        ih (hnoted.register (hregistered r List.mem_cons_self)) hrest hops
      rw [cur_register] at hwalk
      exact ⟨notes, walk_of_register hwalk, hlog, hheld⟩
    | call c =>
      cases c with
      | current =>
        cases hfirst
        obtain ⟨notes, hwalk, hlog, hheld⟩ := ih hnoted hrest hops
        exact ⟨notes, .step .current hwalk, hlog, hheld⟩
      | process ev =>
        obtain ⟨ok, w', hexec, hret⟩ := Outcome.of_bind_returned hfirst
        cases hret
        obtain ⟨b, m', new, rfl, hanswers, hnew⟩ := exec_answers fuel hnoted hexec
        obtain ⟨notes, hwalk, hlog, hheld⟩ :=
          @ih { s with cur := b } m' rest ⟨hnoted.trans, hnoted.enter, hnoted.exit⟩ hrest hops
        refine ⟨new ++ notes, .step hanswers hwalk, ?_, hheld⟩
        rw [hlog, hnew, List.filter_append, List.append_assoc]

end

/-- Code that writes a note into its memory. -/
def writeNote (n : Automaton.Note Bool Unit) :
    Code Bool Unit (List (Automaton.Note Bool Unit)) Unit :=
  .touch (· ++ [n]) fun _ => .ret ()

/-- A machine that goes to and fro, and writes down whom it calls.  The way back needs that little
is written down. -/
def toggle : StateMachine Bool Unit (List (Automaton.Note Bool Unit)) where
  cur := false
  trans key := some
    { target := !key.1
      action := some fun a ev b => writeNote (.acted a ev b)
      guard := some fun a ev =>
        .touch (fun m => m ++ [.guarded a ev (!a || m.length < 4)]) fun m =>
          .ret (!a || m.length < 4) }
  enterCb a := some (writeNote (.entered a))
  exitCb a := some (writeNote (.exited a))

end StateMachine

end Patrol.Core
