import Patrol.ProofKit.FullWrite
import Patrol.ProofKit.IndexLoop
import Patrol.Serial.SerialScanner

/-! `SerialManager`: the port of the microcontroller.  `poll` reads once and hands the payload of each
frame in its buffer to the callback, as a pointer into the buffer and a length. -/

namespace Patrol.Serial

open ProofKit

/-- The state of a manager.  `rxCb` says whether a callback is set. -/
structure SerialManager where
  fd : Int := -1
  rxCb : Bool := false
  rxBuf : List UInt8 := []
deriving DecidableEq, Repr

/-- What the system calls of `open` return. -/
inductive OpenResult
  | openFails
  | tcgetattrFails (fd : Nat)
  | tcsetattrFails (fd : Nat)
  | opened (fd : Nat)

/-- What the `read` call of `poll` returns: bytes, or no bytes or an error. -/
inductive ReadResult
  | data (c : Chunk UInt8 256)
  | nothing

def ReadResult.bytes : ReadResult → List UInt8
  | .data c => c.bytes
  | .nothing => []

theorem ReadResult.bytes_length_le (r : ReadResult) : r.bytes.length ≤ 256 := by
  cases r with
  | data c => exact c.le_cap
  | nothing => exact Nat.zero_le _

/-- A call of `rxCb_`: the buffer and the index of the frame in it at the call, and the arguments,
with the pointer as an index into the buffer. -/
structure RxCall where
  rxBuf : List UInt8
  off : Nat
  cmd : UInt8
  pl : Nat
  plLen : Nat
deriving DecidableEq, Repr

def SerialManager.close (s : SerialManager) : SerialManager :=
  if 0 ≤ s.fd then { s with fd := -1 } else s

def SerialManager.open (s : SerialManager) : OpenResult → SerialManager × Bool
  | .openFails => ({ s.close with fd := -1 }, false)
  | .tcgetattrFails fd => (SerialManager.close { s.close with fd := fd }, false)
  | .tcsetattrFails fd => (SerialManager.close { s.close with fd := fd }, false)
  | .opened fd => ({ s.close with fd := fd }, true)

def SerialManager.setRxCallback (s : SerialManager) (cb : Bool) : SerialManager :=
  { s with rxCb := cb }

/-- `sendCmd`, given what its `write` call returns: the result, and the bytes that are written. -/
def SerialManager.sendCmd (s : SerialManager) (cmd : UInt8) (payload : Option (List UInt8))
    (payloadLen : UInt8) (w : WriteResult Unit) : Bool × List UInt8 :=
  if s.fd < 0 then (false, [])
  else
    let frame := buildFrame cmd payload payloadLen
    match w with
    | .wrote n => (min n frame.length == frame.length, frame.take n)
    | .failed _ => (false, [])

/-- The bytes of a buffer from `pos` on, `none` where they are not all inside the buffer. -/
def slice (buf : List UInt8) (pos n : Nat) : Option (List UInt8) :=
  if pos + n ≤ buf.length then some ((buf.drop pos).take n) else none

/-- One iteration of the loop of `poll` at `off`. -/
def scanStep (size : SizeSub) (rxBuf : List UInt8) (off : Nat) : Option (Verdict RxCall) := do
  if (← size.sub rxBuf.length off) < 5 then return .wait
  if (← rxBuf[off]?) ≠ sof1 then return .skip
  if (← rxBuf[off + 1]?) ≠ sof2 then return .skip
  let len ← rxBuf[off + 2]?
  let need := len.toNat + 4
  if (← size.sub rxBuf.length off) < need then return .wait
  let crcCalc := crc8 (← slice rxBuf (off + 2) (← size.sub need 3))
  let crcRecv ← rxBuf[(← size.sub (off + need) 1)]?
  if crcCalc ≠ crcRecv then return .skip
  let cmdByte ← rxBuf[off + 3]?
  let plLen ← size.sub len.toNat 1
  return .take need ⟨rxBuf, off, cmdByte, off + 4, plLen⟩

/-- What a `poll` leaves: the manager, the calls of `rxCb_` in order, and the number of bytes it
erased from the buffer. -/
structure PollOut where
  manager : SerialManager
  calls : List RxCall
  off : Nat

/-- `poll`, with its subtraction of sizes as a parameter.  `none` is a fault. -/
def SerialManager.pollWith (size : SizeSub) (s : SerialManager) (r : ReadResult) :
    Option PollOut :=
  if s.fd < 0 then some ⟨s, [], 0⟩
  else
    match r with
    | .nothing => some ⟨s, [], 0⟩
    | .data c => do
      let rxBuf := s.rxBuf ++ c.bytes
      let (found, off) ← indexLoop (scanStep size rxBuf) (rxBuf.length + 1) 0
      some ⟨{ s with rxBuf := if 0 < off then rxBuf.drop off else rxBuf },
        if s.rxCb then found else [], off⟩

def SerialManager.poll : SerialManager → ReadResult → Option PollOut :=
  SerialManager.pollWith wrapping

/-- The call of `rxCb_` for a frame at `off`. -/
def rxCall (size : SizeSub) (rxBuf : List UInt8) (off : Nat) (e : Received) : Option RxCall :=
  (size.sub e.len.toNat 1).map fun plLen => ⟨rxBuf, off, e.cmd, off + 4, plLen⟩

/-- An iteration of the loop reads inside the buffer, wraps at most where it computes the payload
length, and takes the scanner's decision on the bytes from `off` on. -/
theorem scanStep_eq (size : SizeSub) {rxBuf : List UInt8} {off : Nat} (h : off ≤ rxBuf.length) :
    scanStep size rxBuf off =
      (serialScanner.verdict (rxBuf.drop off)).mapM (rxCall size rxBuf off) := by
  have hget : ∀ k, rxBuf[off + k]? = (rxBuf.drop off)[k]? := fun k => by rw [List.getElem?_drop]
  have hget0 : rxBuf[off]? = (rxBuf.drop off)[0]? := hget 0
  have hlen : rxBuf.length - off = (rxBuf.drop off).length := by rw [List.length_drop]
  have hneed : ∀ len : UInt8, size.sub (len.toNat + 4) 3 = some (len.toNat + 1) := fun len =>
    size.exact (by omega)
  have hlast : ∀ len : UInt8, size.sub (off + (len.toNat + 4)) 1 = some (off + (len.toNat + 3)) :=
    fun len => size.exact (by omega)
  have hslice : ∀ n, slice rxBuf (off + 2) n = slice (rxBuf.drop off) 2 n := fun n => by
    simp only [slice, List.length_drop, List.drop_drop, Nat.add_assoc]
    congr 1
    simp only [eq_iff_iff]
    omega
  simp only [scanStep, size.exact h, hneed, hlast, Option.bind_eq_bind, Option.bind_some,
    Option.pure_def, hget, hget0, hslice, hlen, serialScanner_verdict]
  generalize rxBuf.drop off = d
  by_cases hshort : d.length < 5
  · rw [serialVerdict_short hshort]
    simp [hshort]
  · obtain ⟨b0, b1, len, b3, b4, more, rfl⟩ := five_split (Nat.le_of_not_lt hshort)
    simp only [Option.bind_some, hshort, if_false, List.getElem?_cons_zero,
      List.getElem?_cons_succ, serialVerdict]
    by_cases h0 : b0 = sof1
    · by_cases h1 : b1 = sof2
      · subst h0 h1
        have hlong : (sof1 :: sof2 :: len :: b3 :: b4 :: more).length < len.toNat + 4 ↔
            (b3 :: b4 :: more).length ≤ len.toNat := by
          simp only [List.length_cons]
          omega
        by_cases hwait : (b3 :: b4 :: more).length ≤ len.toNat
        · rw [if_pos (hlong.mpr hwait), List.getElem?_eq_none_iff.mpr hwait]
          simp
        · obtain ⟨crc, hcrc⟩ : ∃ crc, (b3 :: b4 :: more)[len.toNat]? = some crc :=
            ⟨_, List.getElem?_eq_getElem (Nat.lt_of_not_le hwait)⟩
          have hbytes : slice (sof1 :: sof2 :: len :: b3 :: b4 :: more) 2 (len.toNat + 1) =
              some (len :: (b3 :: b4 :: more).take len.toNat) := by
            rw [slice, if_pos (by simp only [List.length_cons] at hwait ⊢; omega)]
            rfl
          rw [if_neg (mt hlong.mp hwait), hbytes, hcrc]
          by_cases hbad : crc8 (len :: (b3 :: b4 :: more).take len.toNat) = crc
          · simp only [Option.bind_some, hbad]
            cases hsub : size.sub len.toNat 1 <;> simp [rxCall, hsub]
          · simp [hbad]
      · simp [h0, h1]
    · simp [h0]

theorem pollWith_data (size : SizeSub) {s : SerialManager} (hfd : 0 ≤ s.fd) (c : Chunk UInt8 256) :
    s.pollWith size (.data c) =
      ((located 0 (serialScanner.scan (s.rxBuf ++ c.bytes)).1).mapM
        fun x => rxCall size (s.rxBuf ++ c.bytes) x.1 x.2).map fun calls =>
          ⟨{ s with rxBuf := serialScanner.rest (s.rxBuf ++ c.bytes) },
            if s.rxCb then calls else [], serialScanner.consumed (s.rxBuf ++ c.bytes)⟩ := by
  have hbody : ∀ off ≤ (s.rxBuf ++ c.bytes).length, scanStep size (s.rxBuf ++ c.bytes) off =
      (serialScanner.verdict ((s.rxBuf ++ c.bytes).drop off)).mapM
        (rxCall size (s.rxBuf ++ c.bytes) off) := by
    intro off hoff
    exact scanStep_eq size hoff
  have hloop := indexLoop_eq_scan serialScanner hbody (Nat.zero_le _)
    (show (s.rxBuf ++ c.bytes).length - 0 < (s.rxBuf ++ c.bytes).length + 1 by omega)
  rw [List.drop_zero, Nat.zero_add] at hloop
  rw [SerialManager.pollWith, if_neg (by omega)]
  simp only [hloop, Option.bind_eq_bind]
  cases (located 0 (serialScanner.scan (s.rxBuf ++ c.bytes)).1).mapM
      fun x => rxCall size (s.rxBuf ++ c.bytes) x.1 x.2 with
  | none => rfl
  | some calls => simp only [Option.map_some, Option.bind_some, serialScanner.erase_consumed]

/-- An open port with a buffer on which the scan waits, as every `poll` leaves it. -/
structure SerialManager.Ready (s : SerialManager) : Prop where
  isOpen : 0 ≤ s.fd
  waits : serialScanner.verdict s.rxBuf = .wait

/-- A `poll` scans its buffer and what it reads for frames and calls back for each, unless the length
of a payload faults. -/
theorem pollWith_eq (size : SizeSub) {s : SerialManager} (hs : s.Ready) (r : ReadResult) :
    s.pollWith size r =
      ((located 0 (serialScanner.scan (s.rxBuf ++ r.bytes)).1).mapM
        fun x => rxCall size (s.rxBuf ++ r.bytes) x.1 x.2).map fun calls =>
          ⟨{ s with rxBuf := serialScanner.rest (s.rxBuf ++ r.bytes) },
            if s.rxCb then calls else [], serialScanner.consumed (s.rxBuf ++ r.bytes)⟩ := by
  cases r with
  | data c => exact pollWith_data size hs.isOpen c
  | nothing =>
    have hscan := serialScanner.scan_wait hs.waits
    have hopen := hs.isOpen
    rw [ReadResult.bytes, List.append_nil, serialScanner.rest_wait hs.waits,
      serialScanner.consumed_eq, hscan, SerialManager.pollWith, if_neg (by omega)]
    obtain ⟨fd, cb, rxBuf⟩ := s
    cases cb <;> rfl

theorem pollWith_manager {size : SizeSub} {s : SerialManager} (hs : s.Ready) {r : ReadResult}
    {o : PollOut} (h : s.pollWith size r = some o) :
    o.manager = { s with rxBuf := serialScanner.rest (s.rxBuf ++ r.bytes) } := by
  rw [pollWith_eq size hs, Option.map_eq_some_iff] at h
  obtain ⟨calls, -, rfl⟩ := h
  rfl

theorem pollWith_ready {size : SizeSub} {s : SerialManager} (hs : s.Ready) {r : ReadResult}
    {o : PollOut} (h : s.pollWith size r = some o) : o.manager.Ready := by
  rw [pollWith_manager hs h]
  exact ⟨hs.isOpen, serialScanner.verdict_rest _⟩

theorem pollWith_isSome (size : SizeSub) {s : SerialManager} (hs : s.Ready) (r : ReadResult) :
    (s.pollWith size r).isSome ↔
      ∀ e ∈ serialScanner.items (s.rxBuf ++ r.bytes), (size.sub e.len.toNat 1).isSome := by
  rw [pollWith_eq size hs, Option.isSome_map, mapM_isSome, Scanner.items, ← located_items 0]
  simp only [rxCall, Option.isSome_map, List.forall_mem_map]

end Patrol.Serial
