import Mathlib.Data.List.Basic
import Mathlib.Data.UInt

/-! The serial protocol between the single-board computer and the microcontroller.  A frame is two
start bytes, a length byte LEN, LEN bytes of which the first is the command, and a CRC of LEN and the
bytes after it. -/

namespace Patrol.Serial

def sof1 : UInt8 := 0xAA
def sof2 : UInt8 := 0x55

/-- One step of the CRC with the polynomial 0x07, for the top bit. -/
def crc8Bit (crc : UInt8) : UInt8 :=
  if crc &&& 0x80 ≠ 0 then (crc <<< 1) ^^^ 0x07 else crc <<< 1

def crc8 (data : List UInt8) : UInt8 :=
  data.foldl (fun crc b => Nat.repeat crc8Bit 8 (crc ^^^ b)) 0

/-- A frame in one piece.  `payload` is `none` for a null pointer, and the bytes it points at
otherwise. -/
def buildFrame (cmd : UInt8) (payload : Option (List UInt8)) (payloadLen : UInt8) : List UInt8 :=
  let f := [sof1, sof2, payloadLen + 1, cmd] ++
    match payload with
    | some p => if 0 < payloadLen then p.take payloadLen.toNat else []
    | none => []
  f ++ [crc8 (f.drop 2)]

/-- A command with its payload: a pointer, which may be null where the payload is empty, to at most
254 bytes. -/
structure SerialFrame where
  cmd : UInt8
  ptr : Option (List UInt8)
  le_max : (ptr.getD []).length ≤ 254

def SerialFrame.payload (f : SerialFrame) : List UInt8 := f.ptr.getD []

def SerialFrame.payloadLen (f : SerialFrame) : UInt8 := UInt8.ofNat f.payload.length

/-- The bytes of a frame on the port. -/
def SerialFrame.bytes (f : SerialFrame) : List UInt8 := buildFrame f.cmd f.ptr f.payloadLen

theorem SerialFrame.payloadLen_toNat (f : SerialFrame) :
    f.payloadLen.toNat = f.payload.length := by
  have h : f.payload.length ≤ 254 := f.le_max
  rw [payloadLen, UInt8.toNat_ofNat_of_lt']
  show f.payload.length < 256
  omega

/-- LEN counts the command and the payload. -/
theorem SerialFrame.len_toNat (f : SerialFrame) :
    (f.payloadLen + 1).toNat = f.payload.length + 1 := by
  have h : f.payload.length ≤ 254 := f.le_max
  rw [UInt8.toNat_add, f.payloadLen_toNat]
  show (f.payload.length + 1) % 256 = f.payload.length + 1
  omega

/-- The bytes of a frame: the start bytes, LEN, the command, the payload and the CRC. -/
theorem SerialFrame.bytes_eq (f : SerialFrame) :
    f.bytes = sof1 :: sof2 :: (f.payloadLen + 1) :: f.cmd ::
      (f.payload ++ [crc8 ((f.payloadLen + 1) :: f.cmd :: f.payload)]) := by
  have hlen := f.payloadLen_toNat
  cases hp : f.ptr with
  | none =>
    have hnil : f.payload = [] := by rw [payload, hp]; rfl
    simp [bytes, buildFrame, hp, hnil]
  | some p =>
    have hpay : f.payload = p := by rw [payload, hp]; rfl
    rw [hpay] at hlen ⊢
    by_cases h0 : 0 < f.payloadLen
    · simp [bytes, buildFrame, hp, h0, hlen]
    · have hzero : f.payloadLen.toNat = 0 := by
        rw [UInt8.lt_iff_toNat_lt] at h0
        exact Nat.eq_zero_of_not_pos h0
      have hnil : p = [] := List.length_eq_zero_iff.mp (by omega)
      simp [bytes, buildFrame, hp, h0, hnil]

end Patrol.Serial
