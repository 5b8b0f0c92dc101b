import Patrol.Business.RobotController
import Patrol.ProofKit.LastValue
import Patrol.ProofKit.Machine

/-! What the commands of the front end do to the robot: the part of the state that each of them
writes, and the mode that they leave. -/

namespace Patrol.Business

open Network ProofKit

/-- The parts of the state that the known commands write. -/
inductive Part
  | fan
  | buzzer
  | relay
  | led
  | mode
  | motion
deriving DecidableEq, Repr

namespace Part

/-- The command that writes a part. -/
def cmdId : Part → UInt8
  | fan => cmdFan
  | buzzer => cmdBuzzer
  | relay => cmdRelay
  | led => cmdLed
  | mode => cmdMode
  | motion => cmdEstop

/-- What that command does, given its value. -/
def write : Part → UInt8 → RobotState → RobotState
  | fan, value, s => (setFan (value != 0) s).1
  | buzzer, value, s => (setBuzzer (value != 0) s).1
  | relay, value, s => (setRelay (value != 0) s).1
  | led, value, s => (setLed (value != 0) s).1
  | mode, value, s => { s with mode := ⟨value⟩ }
  | motion, _, s => (emergencyStop s).1

end Part

/-- The part that a command writes, if it is known. -/
def partOf (cmdId : UInt8) : Option Part :=
  [Part.fan, .buzzer, .relay, .led, .mode, .motion].find? fun k => k.cmdId = cmdId

@[simp] theorem partOf_cmdId (k : Part) : partOf k.cmdId = some k := by
  cases k <;> rfl

theorem cmdId_injective : Function.Injective Part.cmdId := by
  intro k k' h
  rw [← Option.some.injEq, ← partOf_cmdId k, h, partOf_cmdId]

theorem partOf_eq_some {cmdId : UInt8} {k : Part} : partOf cmdId = some k ↔ cmdId = k.cmdId := by
  constructor
  · intro h
    rw [partOf] at h
    have hid := List.find?_some h
    exact (of_decide_eq_true hid).symm
  · rintro rfl
    exact partOf_cmdId k

/-- A command writes its part, and an unknown command does nothing. -/
theorem handleCommand_eq (cmd : Command) (s : RobotState) :
    handleCommand cmd s = (partOf cmd.cmdId).elim s fun k => k.write cmd.value s := by
  cases hpart : partOf cmd.cmdId with
  | some k =>
    obtain ⟨cmdId, value⟩ := cmd
    obtain rfl : cmdId = k.cmdId := partOf_eq_some.mp hpart
    cases k <;> rfl
  | none =>
    have hne : ∀ k : Part, cmd.cmdId ≠ k.cmdId := by
      intro k heq
      rw [heq, partOf_cmdId] at hpart
      cases hpart
    have hfan : cmd.cmdId ≠ cmdFan := hne .fan
    have hbuzzer : cmd.cmdId ≠ cmdBuzzer := hne .buzzer
    have hrelay : cmd.cmdId ≠ cmdRelay := hne .relay
    have hled : cmd.cmdId ≠ cmdLed := hne .led
    have hmode : cmd.cmdId ≠ cmdMode := hne .mode
    have hestop : cmd.cmdId ≠ cmdEstop := hne .motion
    rw [handleCommand, if_neg hfan, if_neg hbuzzer, if_neg hrelay, if_neg hled, if_neg hmode,
      if_neg hestop]
    rfl

/-! ### The mode -/

/-- One of the modes of the enumeration. -/
def RobotMode.Defined (m : RobotMode) : Prop :=
  m ∈ [manual, auto, obstacle, RobotMode.patrol]

instance (m : RobotMode) : Decidable m.Defined :=
  inferInstanceAs (Decidable (m ∈ [RobotMode.manual, .auto, .obstacle, .patrol]))

/-- The mode that a call sets, if it is a mode command. -/
def Op.mode? : Op → Option RobotMode
  | .handleCommand cmd => if cmd.cmdId = cmdMode then some ⟨cmd.value⟩ else none
  | _ => none

/-- The mode is one of the enumeration, and a mode command with another one at the end of a history
changes nothing. -/
def ModeKept (ops : List Op) : Prop :=
  (run ops {}).mode.Defined ∧
    ∀ before op m, ops = before ++ [op] → op.mode? = some m → ¬ m.Defined →
      run ops {} = run before {}

/-- A mode command has a value of the enumeration. -/
def SetsDefined (_ : List Op) (op : Op) : Prop :=
  ∀ m, op.mode? = some m → m.Defined

/-- A call sets the mode that it says, and leaves it if it says none. -/
theorem step_mode (op : Op) (s : RobotState) : (step s op).mode = op.mode?.getD s.mode := by
  cases op with
  | handleCommand cmd =>
    obtain ⟨cmdId, value⟩ := cmd
    rw [step, handleCommand_eq, Op.mode?]
    cases hpart : partOf cmdId with
    | none =>
      rw [if_neg]
      · rfl
      · rintro rfl
        cases hpart
    | some k =>
      obtain rfl : cmdId = k.cmdId := partOf_eq_some.mp hpart
      cases k <;> rfl
  | _ => rfl

theorem modeKept_concat {ops : List Op} {op : Op} (h : ModeKept ops) :
    ModeKept (ops ++ [op]) ↔ SetsDefined ops op := by
  have hmode : (run (ops ++ [op]) {}).mode = op.mode?.getD (run ops {}).mode := by
    rw [run_append, step_mode]
  constructor
  · rintro ⟨hdefined, -⟩ m hm
    rwa [hmode, hm] at hdefined
  · intro hsets
    constructor
    · rw [hmode]
      cases hm : op.mode? with
      | none => exact h.1
      | some m => exact hsets m hm
    · intro before op' m heq hm hundefined
      obtain ⟨rfl, hop⟩ := List.append_inj' heq rfl
      cases hop
      exact absurd (hsets m hm) hundefined

/-- The mode is one of the enumeration throughout, and undefined values change nothing, if and only
if no mode command has an undefined value. -/
theorem mode_defined_iff (ops : List Op) : Always ModeKept ops ↔ EachOp SetsDefined ops := by
  apply always_iff
  · refine ⟨by decide, ?_⟩
    intro before op m heq
    simp at heq
  · intro before op hbefore
    exact modeKept_concat hbefore.last

/-- A mode command with the value 7 is stored. -/
theorem mode_undefined : ¬ (∀ ops : List Op, Always ModeKept ops) ∧
    (run [.handleCommand ⟨cmdMode, 7⟩] {}).mode = ⟨7⟩ := by
  refine ⟨?_, rfl⟩
  intro h
  have hdefined := (h [.handleCommand ⟨cmdMode, 7⟩]).last.1
  revert hdefined
  decide

/-! ### Independent commands -/

/-- The state after commands. -/
def handleAll (cmds : List Command) (s : RobotState) : RobotState :=
  cmds.foldl (fun s cmd => handleCommand cmd s) s

/-- The value that the last command with an id has. -/
def lastValue (cmds : List Command) (cmdId : UInt8) : Option UInt8 :=
  lastVal (cmds.map fun cmd => (cmd.cmdId, cmd.value)) cmdId

/-- The write of a known command.  The value of an emergency stop does not matter. -/
def writeOf (cmd : Command) : Option (Part × UInt8) :=
  (partOf cmd.cmdId).map fun k => (k, if k = .motion then 0 else cmd.value)

def writePart (s : RobotState) (e : Part × UInt8) : RobotState :=
  e.1.write e.2 s

theorem handleCommand_writeOf (cmd : Command) (s : RobotState) :
    handleCommand cmd s = (writeOf cmd).elim s (writePart s) := by
  rw [handleCommand_eq, writeOf]
  cases partOf cmd.cmdId with
  | none => rfl
  | some k => cases k <;> rfl

theorem handleAll_eq (cmds : List Command) (s : RobotState) :
    handleAll cmds s = (cmds.filterMap writeOf).foldl writePart s := by
  induction cmds generalizing s with
  | nil => rfl
  | cons cmd cmds ih =>
    have hcons : handleAll (cmd :: cmds) s = handleAll cmds (handleCommand cmd s) := rfl
    rw [hcons, ih, handleCommand_writeOf, List.filterMap_cons]
    cases writeOf cmd <;> rfl

/-- A write to a part supersedes the one before it. -/
theorem writePart_absorb (s : RobotState) (k : Part) (v v' : UInt8) :
    writePart (writePart s (k, v)) (k, v') = writePart s (k, v') := by
  cases k <;> rfl

/-- Writes to different parts commute. -/
theorem writePart_comm (s : RobotState) (k k' : Part) (v v' : UInt8) (h : k ≠ k') :
    writePart (writePart s (k, v)) (k', v') = writePart (writePart s (k', v')) (k, v) := by
  cases k <;> cases k' <;> first | rfl | exact absurd rfl h

/-- The last writes are those of the last commands. -/
theorem lastVal_writes (cmds : List Command) (k : Part) :
    lastVal (cmds.filterMap writeOf) k =
      (lastValue cmds k.cmdId).map fun value => if k = .motion then 0 else value := by
  induction cmds using List.reverseRecOn with
  | nil => rfl
  | append_singleton cmds cmd ih =>
    rw [lastValue, List.map_append, List.map_singleton, lastVal_concat, List.filterMap_append,
      ← lastValue]
    cases hpart : partOf cmd.cmdId with
    | none =>
      have hne : cmd.cmdId ≠ k.cmdId := by
        intro heq
        rw [heq, partOf_cmdId] at hpart
        cases hpart
      have hnone : [cmd].filterMap writeOf = [] := by simp [writeOf, hpart]
      rw [hnone, List.append_nil, ih, if_neg hne]
    | some k' =>
      have hid := partOf_eq_some.mp hpart
      have hsome : [cmd].filterMap writeOf = [(k', if k' = .motion then 0 else cmd.value)] := by
        simp [writeOf, hpart]
      rw [hsome, lastVal_concat, ih, hid]
      by_cases hk : k' = k
      · rw [hk, if_pos rfl, if_pos rfl]
        rfl
      · rw [if_neg hk, if_neg]
        exact fun heq => hk (cmdId_injective heq)

/-- An emergency stop is among commands if one is the last with its id. -/
theorem lastValue_isSome {cmds : List Command} {cmdId : UInt8} :
    (lastValue cmds cmdId).isSome = true ↔ ∃ cmd ∈ cmds, cmd.cmdId = cmdId := by
  rw [← Option.ne_none_iff_isSome, lastValue, ne_eq, lastVal_eq_none]
  simp

/-- Two lists of commands with the same last values, and of which both or none have an emergency
stop, do the same. -/
theorem commands_independent {cmds cmds' : List Command}
    (hvalues : ∀ cmdId ∈ [cmdFan, cmdBuzzer, cmdRelay, cmdLed, cmdMode],
      lastValue cmds cmdId = lastValue cmds' cmdId)
    (hestop : (∃ cmd ∈ cmds, cmd.cmdId = cmdEstop) ↔ ∃ cmd ∈ cmds', cmd.cmdId = cmdEstop)
    (s : RobotState) : handleAll cmds s = handleAll cmds' s := by
  rw [handleAll_eq, handleAll_eq]
  apply foldl_eq_of_lastVal writePart_absorb writePart_comm
  intro k
  rw [lastVal_writes, lastVal_writes]
  cases k with
  | motion =>
    rw [← lastValue_isSome, ← lastValue_isSome, ← Bool.eq_iff_iff] at hestop
    show (lastValue cmds cmdEstop).map _ = (lastValue cmds' cmdEstop).map _
    cases h : lastValue cmds cmdEstop <;> cases h' : lastValue cmds' cmdEstop <;>
      simp [h, h'] at hestop ⊢
  | _ => rw [hvalues _ (by decide)]

/-- Three commands, and the same in another order after a superseded one, with an unknown one. -/
theorem commands_independent_reordered :
    handleAll [⟨cmdFan, 1⟩, ⟨cmdEstop, 1⟩, ⟨cmdMode, 3⟩] {} =
      handleAll [⟨cmdMode, 0⟩, ⟨0x20, 9⟩, ⟨cmdMode, 3⟩, ⟨cmdEstop, 0⟩, ⟨cmdFan, 1⟩] {} := by
  refine commands_independent ?_ (by decide) {}
  simp only [List.forall_mem_cons]
  exact ⟨rfl, rfl, rfl, rfl, rfl, List.forall_mem_nil _⟩

end Patrol.Business
