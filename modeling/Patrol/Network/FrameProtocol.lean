import Mathlib.Data.List.Basic
import Mathlib.Data.UInt

/-! The frame protocol (v2) between the robot and the LongLook front end: the frame types and command
ids, the six header bytes, frames, and the telemetry payload. -/

namespace Patrol.Network

def llSof : UInt8 := 0xA5
def llHeaderSize : Nat := 6
def llMaxPayload : UInt32 := 16 * 1024 * 1024

/-! Frame types. -/

def frameSensor : UInt8 := 0x01
def frameVideo : UInt8 := 0x10
def frameText : UInt8 := 0x30
def frameCommand : UInt8 := 0x40

/-! Command ids. -/

def cmdFan : UInt8 := 0x01
def cmdBuzzer : UInt8 := 0x02
def cmdRelay : UInt8 := 0x03
def cmdLed : UInt8 := 0x04
def cmdMode : UInt8 := 0x05
def cmdEstop : UInt8 := 0x06

/-- The frame header: the start byte, the type, and the payload length in little-endian order. -/
def buildHeader (type : UInt8) (len : UInt32) : List UInt8 :=
  [llSof, type, (len &&& 0xFF).toUInt8, ((len >>> 8) &&& 0xFF).toUInt8,
    ((len >>> 16) &&& 0xFF).toUInt8, ((len >>> 24) &&& 0xFF).toUInt8]

/-- A frame in one piece.  `payload` is `none` for a null pointer, and the bytes it points at
otherwise; `len` is a `size_t`, which the header holds modulo `2^32`. -/
def buildFrame (type : UInt8) (payload : Option (List UInt8)) (len : Nat) : List UInt8 :=
  buildHeader type (UInt32.ofNat len) ++
    match payload with
    | some p => if len ≠ 0 then p.take len else []
    | none => []

/-- The sensor telemetry, with the defaults of its fields. -/
structure SensorData where
  timestamp_ms : UInt32 := 0
  temperature_01c : Int16 := 0
  humidity_01 : UInt16 := 0
  gas_ppm : UInt16 := 0
  pressure_pa : UInt32 := 0
  distance_cm : UInt16 := 0
  encoder1 : Int32 := 0
  encoder2 : Int32 := 0
  speed_L : Int16 := 0
  speed_R : Int16 := 0
  servo_us : UInt16 := 0
  voltage_mV : UInt16 := 0
  mode : UInt8 := 0
  fault : UInt8 := 0
  risk_level : UInt8 := 0
  flags : UInt8 := 0
  fan : UInt8 := 0
  buzzer : UInt8 := 0
  relay : UInt8 := 0
  led : UInt8 := 0
deriving DecidableEq, Repr

def putU8 (b : List UInt8) (v : UInt8) : List UInt8 := b ++ [v]

def putU16 (b : List UInt8) (v : UInt16) : List UInt8 := b ++ [v.toUInt8, (v >>> 8).toUInt8]

def putU32 (b : List UInt8) (v : UInt32) : List UInt8 :=
  b ++ [v.toUInt8, (v >>> 8).toUInt8, (v >>> 16).toUInt8, (v >>> 24).toUInt8]

/-- The telemetry payload: the fields in little-endian order without padding. -/
def packSensor (s : SensorData) : List UInt8 :=
  let b := putU32 [] s.timestamp_ms
  let b := putU16 b s.temperature_01c.toUInt16
  let b := putU16 b s.humidity_01
  let b := putU16 b s.gas_ppm
  let b := putU32 b s.pressure_pa
  let b := putU16 b s.distance_cm
  let b := putU32 b s.encoder1.toUInt32
  let b := putU32 b s.encoder2.toUInt32
  let b := putU16 b s.speed_L.toUInt16
  let b := putU16 b s.speed_R.toUInt16
  let b := putU16 b s.servo_us
  let b := putU16 b s.voltage_mV
  let b := putU8 b s.mode
  let b := putU8 b s.fault
  let b := putU8 b s.risk_level
  let b := putU8 b s.flags
  let b := putU8 b s.fan
  let b := putU8 b s.buzzer
  let b := putU8 b s.relay
  putU8 b s.led

theorem packSensor_length (s : SensorData) : (packSensor s).length = 40 := by
  simp [packSensor, putU8, putU16, putU32]

/-- A command from the front end. -/
structure Command where
  cmdId : UInt8 := 0
  value : UInt8 := 0
deriving DecidableEq, Repr

/-! ### Lengths in little-endian order -/

/-- The length field of a header, from its four bytes. -/
def leU32 (b0 b1 b2 b3 : UInt8) : UInt32 :=
  b0.toUInt32 ||| (b1.toUInt32 <<< 8) ||| (b2.toUInt32 <<< 16) ||| (b3.toUInt32 <<< 24)

/-- An `or` with a number that is shifted past the other is a sum. -/
theorem or_shiftLeft {x y i : Nat} (h : x < 2 ^ i) : x ||| y <<< i = x + 2 ^ i * y := by
  rw [Nat.or_comm, ← Nat.shiftLeft_add_eq_or_of_lt h, Nat.shiftLeft_eq, Nat.add_comm, Nat.mul_comm]

theorem leU32_toNat (b0 b1 b2 b3 : UInt8) :
    (leU32 b0 b1 b2 b3).toNat =
      b0.toNat + 256 * b1.toNat + 65536 * b2.toNat + 16777216 * b3.toNat := by
  have h0 := b0.toNat_lt
  have h1 := b1.toNat_lt
  have h2 := b2.toNat_lt
  have h3 := b3.toNat_lt
  have shifted : ∀ {x i : Nat}, x * 2 ^ i < 2 ^ 32 → x <<< i % 2 ^ 32 = x <<< i := by
    intro x i hx
    rw [Nat.shiftLeft_eq, Nat.mod_eq_of_lt hx]
  simp only [leU32, UInt32.toNat_or, UInt32.toNat_shiftLeft, UInt8.toNat_toUInt32]
  simp only [UInt32.reduceToNat, Nat.reduceMod]
  rw [shifted (by omega), shifted (by omega), shifted (by omega),
    @or_shiftLeft _ _ 8 (by omega), @or_shiftLeft _ _ 16 (by omega), @or_shiftLeft _ _ 24 (by omega)]
  omega

theorem leU32_header (len : UInt32) :
    leU32 (len &&& 0xFF).toUInt8 ((len >>> 8) &&& 0xFF).toUInt8
      ((len >>> 16) &&& 0xFF).toUInt8 ((len >>> 24) &&& 0xFF).toUInt8 = len := by
  apply UInt32.toNat_inj.mp
  have hlen := len.toNat_lt
  have low : ∀ n : Nat, n &&& 255 = n % 256 := fun n => Nat.and_two_pow_sub_one_eq_mod n 8
  rw [leU32_toNat]
  simp only [UInt32.toNat_toUInt8, UInt32.toNat_and, UInt32.toNat_shiftRight, UInt32.reduceToNat,
    Nat.reduceMod, low, Nat.shiftRight_eq_div_pow]
  omega

/-! ### Frames -/

/-- A frame that the protocol can carry. -/
structure Frame where
  type : UInt8
  payload : List UInt8
  le_max : payload.length ≤ llMaxPayload.toNat

/-- The bytes of a frame on the wire: the header and then the payload. -/
def Frame.bytes (f : Frame) : List UInt8 :=
  buildHeader f.type (UInt32.ofNat f.payload.length) ++ f.payload

theorem Frame.bytes_length (f : Frame) : f.bytes.length = llHeaderSize + f.payload.length := by
  simp [Frame.bytes, buildHeader, llHeaderSize]
  omega

theorem Frame.buildFrame_eq (f : Frame) :
    buildFrame f.type (some f.payload) f.payload.length = f.bytes := by
  cases h : f.payload <;> simp [buildFrame, Frame.bytes, h]

/-- The header holds the payload's length, which its four bytes can. -/
theorem Frame.ofNat_length (f : Frame) :
    (UInt32.ofNat f.payload.length).toNat = f.payload.length := by
  have h := f.le_max
  rw [UInt32.toNat_ofNat_of_lt']
  simp only [llMaxPayload, UInt32.reduceMul, UInt32.reduceToNat, UInt32.size] at h ⊢
  omega

/-- The command that a frame's type and payload carry: type 0x40 with at least the two bytes of a
command. -/
def commandOf : UInt8 × List UInt8 → Option Command
  | (type, cmdId :: value :: _) => if type = frameCommand then some ⟨cmdId, value⟩ else none
  | _ => none

theorem commandOf_command (cmdId value : UInt8) (more : List UInt8) :
    commandOf (frameCommand, cmdId :: value :: more) = some ⟨cmdId, value⟩ := by
  simp [commandOf]

theorem commandOf_other {type : UInt8} (h : type ≠ frameCommand) (payload : List UInt8) :
    commandOf (type, payload) = none := by
  unfold commandOf
  split
  · rename_i heq
    cases heq
    exact if_neg h
  · rfl

theorem commandOf_short {payload : List UInt8} (h : payload.length < 2) (type : UInt8) :
    commandOf (type, payload) = none := by
  match payload, h with
  | [], _ => rfl
  | [_], _ => rfl

end Patrol.Network
