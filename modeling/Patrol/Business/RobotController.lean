import Mathlib.Data.List.Induction
import Patrol.Network.FrameProtocol

/-! `RobotController`: the motion and the actuators of the robot, under commands from the front end
and calls from the program. -/

namespace Patrol.Business

open Network

/-- A mode.  The enumeration has a fixed underlying type, so a cast can give any byte. -/
structure RobotMode where
  value : UInt8
deriving DecidableEq, Repr

namespace RobotMode

def manual : RobotMode := ⟨0⟩
def auto : RobotMode := ⟨1⟩
def obstacle : RobotMode := ⟨2⟩
def patrol : RobotMode := ⟨3⟩

end RobotMode

inductive RobotStatus
  | idle
  | running
  | paused
  | error
  | eStop
deriving DecidableEq, Repr

structure SensorReading where
  timestamp_ms : UInt32 := 0
  temperature_01c : Int16 := 0
  humidity_01 : UInt16 := 0
  gas_ppm : UInt16 := 0
  pressure_pa : UInt32 := 0
  distance_cm : UInt16 := 0
  encoder1 : Int32 := 0
  encoder2 : Int32 := 0
  speed_L : Int16 := 0
  speed_R : Int16 := 0
  voltage_mV : UInt16 := 0
deriving DecidableEq, Repr

structure ActuatorState where
  fan : Bool := false
  buzzer : Bool := false
  relay : Bool := false
  led : Bool := false
  servo_us : UInt16 := 1500
deriving DecidableEq, Repr

structure RobotState where
  mode : RobotMode := .manual
  status : RobotStatus := .idle
  fault : UInt8 := 0
  risk_level : UInt8 := 0
  sensors : SensorReading := {}
  actuators : ActuatorState := {}
deriving DecidableEq, Repr

/-! The operations, each with the state it leaves and its return value. -/

def setSpeed (leftMmS rightMmS : Int16) (s : RobotState) : RobotState × Bool :=
  ({ s with sensors := { s.sensors with speed_L := leftMmS, speed_R := rightMmS } }, false)

def setFan (on : Bool) (s : RobotState) : RobotState × Bool :=
  ({ s with actuators := { s.actuators with fan := on } }, false)

def setBuzzer (on : Bool) (s : RobotState) : RobotState × Bool :=
  ({ s with actuators := { s.actuators with buzzer := on } }, false)

def setRelay (on : Bool) (s : RobotState) : RobotState × Bool :=
  ({ s with actuators := { s.actuators with relay := on } }, false)

def setLed (on : Bool) (s : RobotState) : RobotState × Bool :=
  ({ s with actuators := { s.actuators with led := on } }, false)

def setServo (pulseUs : UInt16) (s : RobotState) : RobotState × Bool :=
  ({ s with actuators := { s.actuators with servo_us := pulseUs } }, false)

def emergencyStop (s : RobotState) : RobotState × Bool :=
  let s := { s with status := .eStop }
  ((setSpeed 0 0 s).1, false)

def handleCommand (cmd : Command) (s : RobotState) : RobotState :=
  if cmd.cmdId = cmdFan then (setFan (cmd.value != 0) s).1
  else if cmd.cmdId = cmdBuzzer then (setBuzzer (cmd.value != 0) s).1
  else if cmd.cmdId = cmdRelay then (setRelay (cmd.value != 0) s).1
  else if cmd.cmdId = cmdLed then (setLed (cmd.value != 0) s).1
  else if cmd.cmdId = cmdMode then { s with mode := ⟨cmd.value⟩ }
  else if cmd.cmdId = cmdEstop then (emergencyStop s).1
  else s

/-- A call of one of the operations. -/
inductive Op
  | handleCommand (cmd : Command)
  | setSpeed (leftMmS rightMmS : Int16)
  | setFan (on : Bool)
  | setBuzzer (on : Bool)
  | setRelay (on : Bool)
  | setLed (on : Bool)
  | setServo (pulseUs : UInt16)
  | emergencyStop
deriving DecidableEq, Repr

def step (s : RobotState) : Op → RobotState
  | .handleCommand cmd => handleCommand cmd s
  | .setSpeed l r => (setSpeed l r s).1
  | .setFan on => (setFan on s).1
  | .setBuzzer on => (setBuzzer on s).1
  | .setRelay on => (setRelay on s).1
  | .setLed on => (setLed on s).1
  | .setServo pulseUs => (setServo pulseUs s).1
  | .emergencyStop => (emergencyStop s).1

/-- The state after a sequence of calls. -/
def run (ops : List Op) (s : RobotState) : RobotState := ops.foldl step s

/-! ### Motion -/

/-- Whether an operation is an emergency stop. -/
def Op.stops : Op → Bool
  | .emergencyStop => true
  | .handleCommand cmd => cmd.cmdId == cmdEstop
  | _ => false

/-- The speeds that an operation sets, if it is a `setSpeed`. -/
def Op.drive? : Op → Option (Int16 × Int16)
  | .setSpeed l r => some (l, r)
  | _ => none

def RobotState.speeds (s : RobotState) : Int16 × Int16 := (s.sensors.speed_L, s.sensors.speed_R)

/-- An emergency stop sets the status and stops the motion. -/
theorem step_stops {op : Op} (h : op.stops = true) (s : RobotState) :
    (step s op).status = .eStop ∧ (step s op).speeds = (0, 0) := by
  match op with
  | .emergencyStop => exact ⟨rfl, rfl⟩
  | .handleCommand ⟨id, value⟩ =>
    obtain rfl : id = cmdEstop := by simpa [Op.stops] using h
    exact ⟨rfl, rfl⟩

/-- Every other operation keeps the status, and changes the speeds at most as `setSpeed` does. -/
theorem step_keeps {op : Op} (h : op.stops = false) (s : RobotState) :
    (step s op).status = s.status ∧ (step s op).speeds = op.drive?.getD s.speeds := by
  cases op with
  | emergencyStop => cases h
  | handleCommand cmd =>
    have hid : cmd.cmdId ≠ cmdEstop := by simpa [Op.stops] using h
    simp only [step, handleCommand]
    split_ifs <;> exact ⟨rfl, rfl⟩
  | _ => exact ⟨rfl, rfl⟩

theorem run_append (ops : List Op) (op : Op) (s : RobotState) :
    run (ops ++ [op]) s = step (run ops s) op := by
  rw [run, List.foldl_append]
  rfl

/-- Where the status is `EStop`, there was an emergency stop, and the speeds are those of the last
`setSpeed` after the last one, and zero if there was none. -/
theorem estop_speeds {ops : List Op} (h : (run ops {}).status = .eStop) :
    ∃ before stop after, ops = before ++ stop :: after ∧ stop.stops = true ∧
      (∀ op ∈ after, op.stops = false) ∧
      (run ops {}).speeds = (after.filterMap Op.drive?).getLast?.getD (0, 0) := by
  induction ops using List.reverseRecOn with
  | nil => cases h
  | append_singleton ops op ih =>
    rw [run_append] at h ⊢
    cases hstops : op.stops with
    | true => exact ⟨ops, op, [], rfl, hstops, by simp, (step_stops hstops _).2⟩
    | false =>
      obtain ⟨hstatus, hspeeds⟩ := step_keeps hstops (run ops {})
      obtain ⟨before, stop, after, hops, hstop, hafter, hlast⟩ := ih (hstatus.symm.trans h)
      refine ⟨before, stop, after ++ [op], by simp [hops], hstop, ?_, ?_⟩
      · intro o ho
        rcases List.mem_append.mp ho with ho | ho
        · exact hafter o ho
        · rwa [List.mem_singleton.mp ho]
      · rw [hspeeds, hlast, List.filterMap_append]
        cases hdrive : op.drive? <;> simp [hdrive]

/-- A stop command from the front end, and then a call of `setSpeed`. -/
def drivenAfterStop : List Op := [.handleCommand ⟨cmdEstop, 1⟩, .setFan true, .setSpeed 100 100]

theorem estop_speeds_driven :
    ∃ before stop after, drivenAfterStop = before ++ stop :: after ∧ stop.stops = true ∧
      (∀ op ∈ after, op.stops = false) ∧
      (run drivenAfterStop {}).speeds = (after.filterMap Op.drive?).getLast?.getD (0, 0) :=
  estop_speeds (by decide)

/-- The robot can be driven after an emergency stop. -/
theorem estop_not_sticky : ¬ ∀ ops : List Op, (run ops {}).status = .eStop →
    (run ops {}).sensors.speed_L = 0 ∧ (run ops {}).sensors.speed_R = 0 := by
  intro h
  have hzero := (h drivenAfterStop (by decide)).1
  revert hzero
  decide

end Patrol.Business
