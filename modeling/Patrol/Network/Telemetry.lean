import Patrol.Network.FrameProtocol

/-! The telemetry payload and its readers: each field is read back at its offset, and the receiver
(`test/frame_parser_check.py`) reads the temperature and the voltage that were sent. -/

namespace Patrol.Network

/-! ### Reading fields in little-endian order -/

def leU16 (b0 b1 : UInt8) : UInt16 := b0.toUInt16 ||| (b1.toUInt16 <<< 8)

/-- The field of two bytes at an offset; `none` where the bytes are not all there. -/
def readU16 (buf : List UInt8) (off : Nat) : Option UInt16 := do
  return leU16 (← buf[off]?) (← buf[off + 1]?)

def readU32 (buf : List UInt8) (off : Nat) : Option UInt32 := do
  return leU32 (← buf[off]?) (← buf[off + 1]?) (← buf[off + 2]?) (← buf[off + 3]?)

def readI16 (buf : List UInt8) (off : Nat) : Option Int16 := (readU16 buf off).map UInt16.toInt16

def readI32 (buf : List UInt8) (off : Nat) : Option Int32 := (readU32 buf off).map UInt32.toInt32

/-- The telemetry with each field read at its offset in the payload. -/
def unpackSensor (b : List UInt8) : Option SensorData := do
  return {
    timestamp_ms := ← readU32 b 0
    temperature_01c := ← readI16 b 4
    humidity_01 := ← readU16 b 6
    gas_ppm := ← readU16 b 8
    pressure_pa := ← readU32 b 10
    distance_cm := ← readU16 b 14
    encoder1 := ← readI32 b 16
    encoder2 := ← readI32 b 20
    speed_L := ← readI16 b 24
    speed_R := ← readI16 b 26
    servo_us := ← readU16 b 28
    voltage_mV := ← readU16 b 30
    mode := ← b[32]?
    fault := ← b[33]?
    risk_level := ← b[34]?
    flags := ← b[35]?
    fan := ← b[36]?
    buzzer := ← b[37]?
    relay := ← b[38]?
    led := ← b[39]? }

/-- `struct.unpack_from("<h", ...)[0]`. -/
def unpackI16 (buf : List UInt8) (off : Nat) : Option Int := (readI16 buf off).map Int16.toInt

/-- `struct.unpack_from("<H", ...)[0]`. -/
def unpackU16 (buf : List UInt8) (off : Nat) : Option Nat := (readU16 buf off).map UInt16.toNat

/-- What `dispatch` unpacks from a telemetry payload: the temperature and the voltage, before it
divides them, and `none` for a payload that is too short. -/
def dispatchSensor (payload : List UInt8) : Option (Int × Nat) :=
  if 40 ≤ payload.length then do
    let temp ← unpackI16 payload 4
    let volt ← unpackU16 payload 30
    return (temp, volt)
  else none

/-! ### Round trip -/

theorem leU16_toNat (b0 b1 : UInt8) : (leU16 b0 b1).toNat = b0.toNat + 256 * b1.toNat := by
  have h0 := b0.toNat_lt
  have h1 := b1.toNat_lt
  have hshift : b1.toNat <<< 8 % 2 ^ 16 = b1.toNat <<< 8 := by
    rw [Nat.shiftLeft_eq, Nat.mod_eq_of_lt (by omega)]
  simp only [leU16, UInt16.toNat_or, UInt16.toNat_shiftLeft, UInt8.toNat_toUInt16]
  simp only [UInt16.reduceToNat, Nat.reduceMod]
  exact (congrArg _ hshift).trans (@or_shiftLeft _ _ 8 h0)

theorem leU16_put (v : UInt16) : leU16 v.toUInt8 (v >>> 8).toUInt8 = v := by
  apply UInt16.toNat_inj.mp
  have hv := v.toNat_lt
  rw [leU16_toNat]
  simp only [UInt16.toNat_toUInt8, UInt16.toNat_shiftRight, UInt16.reduceToNat, Nat.reduceMod,
    Nat.shiftRight_eq_div_pow]
  omega

theorem leU32_put (v : UInt32) :
    leU32 v.toUInt8 (v >>> 8).toUInt8 (v >>> 16).toUInt8 (v >>> 24).toUInt8 = v := by
  apply UInt32.toNat_inj.mp
  have hv := v.toNat_lt
  rw [leU32_toNat]
  simp only [UInt32.toNat_toUInt8, UInt32.toNat_shiftRight, UInt32.reduceToNat, Nat.reduceMod,
    Nat.shiftRight_eq_div_pow]
  omega

theorem unpackSensor_packSensor (s : SensorData) : unpackSensor (packSensor s) = some s := by
  simp [unpackSensor, packSensor, putU8, putU16, putU32, readU16, readU32, readI16, readI32,
    leU16_put, leU32_put]

theorem dispatchSensor_packSensor (s : SensorData) :
    dispatchSensor (packSensor s) = some (s.temperature_01c.toInt, s.voltage_mV.toNat) := by
  rw [dispatchSensor, if_pos (packSensor_length s).ge]
  simp [packSensor, putU8, putU16, putU32, unpackI16, unpackU16, readI16, readU16, leU16_put]

/-- The payload has 40 bytes, every field is read back from it, `dispatch` unpacks the temperature
and the voltage that were sent, and different telemetry has different payloads. -/
theorem packSensor_round_trip (s : SensorData) :
    (packSensor s).length = 40 ∧ unpackSensor (packSensor s) = some s ∧
      dispatchSensor (packSensor s) = some (s.temperature_01c.toInt, s.voltage_mV.toNat) ∧
      ∀ s', packSensor s = packSensor s' → s = s' := by
  refine ⟨packSensor_length s, unpackSensor_packSensor s, dispatchSensor_packSensor s, ?_⟩
  intro s' h
  have hback := congrArg unpackSensor h
  rw [unpackSensor_packSensor, unpackSensor_packSensor] at hback
  exact Option.some.inj hback

example : dispatchSensor (packSensor { temperature_01c := -55, voltage_mV := 12000 }) =
    some (-55, 12000) := by decide

end Patrol.Network
