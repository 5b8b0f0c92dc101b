import Patrol.Network.FrameScanner
import Patrol.ProofKit.FullWrite
import Patrol.ProofKit.IndexLoop

/-! `TcpServer`: sending all bytes of a buffer, sending frames, and polling for commands.  The sending
loops are full writes of their buffers, and the parse loop of `pollCommands` is a scan of its buffer
for frames. -/

namespace Patrol.Network

open ProofKit

/-! ### Sending -/

/-- The errors of socket calls that the code tells apart.  `EWOULDBLOCK` is `EAGAIN`. -/
inductive Errno
  | eintr
  | eagain
  | other
deriving DecidableEq, Repr

/-- What one `send` call returns. -/
abbrev SendResult := WriteResult Errno

/-- What a send has done so far: its return value, `none` while it has not returned, the bytes that
the socket accepted, and the results left to later `send` calls. -/
structure SendOut where
  ret : Option Bool
  accepted : List UInt8
  rest : List SendResult

/-- `sendAll` from byte `sent` of `data` on, given the results of its `send` calls.  A `send` call
accepts no more bytes than it is offered. -/
def sendAll (data : List UInt8) (sent : Nat) : List SendResult → SendOut
  | [] => ⟨if sent < data.length then none else some true, [], []⟩
  | r :: rs =>
    if sent < data.length then
      match r with
      | .wrote n =>
        let n := min n (data.length - sent)
        if 0 < n then
          let o := sendAll data (sent + n) rs
          { o with accepted := (data.drop sent).take n ++ o.accepted }
        else ⟨some false, [], rs⟩
      | .failed .eintr => sendAll data sent rs
      | .failed .eagain => sendAll data sent rs
      | .failed .other => ⟨some false, [], rs⟩
    else ⟨some true, [], r :: rs⟩

/-- `sendFrame`: the header, and then the payload if there is one. -/
def sendFrame (type : UInt8) (payload : List UInt8) (rs : List SendResult) : SendOut :=
  let hdr := sendAll (buildHeader type (UInt32.ofNat payload.length)) 0 rs
  if hdr.ret ≠ some true then hdr
  else if 0 < payload.length then
    let body := sendAll payload 0 hdr.rest
    { body with accepted := hdr.accepted ++ body.accepted }
  else hdr

def sendText (text : List UInt8) (rs : List SendResult) : SendOut := sendFrame frameText text rs

/-- The errors after which `sendAll` calls `send` again. -/
def retried : Errno → Bool
  | .eintr => true
  | .eagain => true
  | .other => false

/-- `sendAll` is a full write of its buffer. -/
theorem sendAll_eq (data : List UInt8) {sent : Nat} (h : sent ≤ data.length)
    (rs : List SendResult) :
    sendAll data sent rs =
      let w := fullWrite retried rs (data.length - sent)
      ⟨w.ok, (data.drop sent).take w.count, w.rest⟩ := by
  induction rs generalizing sent with
  | nil =>
    rcases Nat.lt_or_eq_of_le h with hlt | rfl
    · obtain ⟨k, hk⟩ : ∃ k, data.length - sent = k + 1 := ⟨data.length - sent - 1, by omega⟩
      simp [sendAll, hlt, hk, fullWrite]
    · simp [sendAll]
  | cons r rs ih =>
    rcases Nat.lt_or_eq_of_le h with hlt | rfl
    · obtain ⟨k, hk⟩ : ∃ k, data.length - sent = k + 1 := ⟨data.length - sent - 1, by omega⟩
      rw [hk]
      cases r with
      | wrote n =>
        cases n with
        | zero => simp [sendAll, hlt, fullWrite]
        | succ m =>
          have hleft : data.length - (sent + min (m + 1) (k + 1)) = k - m := by omega
          have hpos : 0 < min (m + 1) (k + 1) := by omega
          have hrec := ih (show sent + min (m + 1) (k + 1) ≤ data.length by omega)
          simp only [sendAll, hlt, if_true, hk, hpos, fullWrite, hrec, hleft]
          rw [List.take_add, List.drop_drop]
      | failed e =>
        cases e with
        | eintr => simp [sendAll, hlt, fullWrite, retried, ih h, hk]
        | eagain => simp [sendAll, hlt, fullWrite, retried, ih h, hk]
        | other => simp [sendAll, hlt, fullWrite, retried]
    · simp [sendAll]

/-- The bytes that `sendFrame` means to send. -/
def frameBytes (type : UInt8) (payload : List UInt8) : List UInt8 :=
  buildHeader type (UInt32.ofNat payload.length) ++ payload

theorem frameBytes_length (type : UInt8) (payload : List UInt8) :
    (frameBytes type payload).length = llHeaderSize + payload.length := by
  simp [frameBytes, buildHeader, llHeaderSize]
  omega

/-- `sendFrame` is a full write of the header and then of the payload. -/
theorem sendFrame_eq (type : UInt8) (payload : List UInt8) (rs : List SendResult) :
    sendFrame type payload rs =
      let w := fullWrite₂ retried rs llHeaderSize payload.length
      ⟨w.ok, (frameBytes type payload).take w.count, w.rest⟩ := by
  have hcount := fullWrite_count retried rs llHeaderSize
  have hlen : (buildHeader type (UInt32.ofNat payload.length)).length = llHeaderSize := rfl
  rw [sendFrame, sendAll_eq _ (Nat.zero_le _) rs]
  simp only [Nat.sub_zero, List.drop_zero, hlen, fullWrite₂]
  by_cases hok : (fullWrite retried rs llHeaderSize).ok = some true
  · have hall := hcount.2.mp hok
    rw [if_neg (not_not.mpr hok), if_pos hok, hall, List.take_of_length_le (Nat.le_of_eq hlen)]
    by_cases hpos : 0 < payload.length
    · rw [if_pos hpos, sendAll_eq _ (Nat.zero_le _)]
      simp only [Nat.sub_zero, List.drop_zero, frameBytes]
      rw [← hlen, List.take_length_add_append]
    · have hnil : payload = [] := List.length_eq_zero_iff.mp (by omega)
      rw [if_neg hpos, hnil]
      simp only [hok, List.length_nil, fullWrite_zero, frameBytes, List.append_nil, Nat.add_zero]
      rw [List.take_of_length_le (i := llHeaderSize) (Nat.le_of_eq rfl)]
  · rw [if_pos hok, if_neg hok, frameBytes, List.take_append_of_le_length (by omega)]

theorem sendFrame_complete {type : UInt8} {payload : List UInt8} {rs : List SendResult}
    (h : (sendFrame type payload rs).ret = some true) :
    (sendFrame type payload rs).accepted = frameBytes type payload := by
  rw [sendFrame_eq] at h ⊢
  have hcount := (fullWrite₂_count retried rs llHeaderSize payload.length).2.mp h
  simp only [hcount]
  exact List.take_of_length_le (Nat.le_of_eq (frameBytes_length type payload))

/-! ### Polling for commands -/

/-- A `recv` result after which `pollCommands` calls `recv` again. -/
inductive Recv
  | data (c : Chunk UInt8 512)
  | eintr

/-- A `recv` result that ends the reading. -/
inductive RecvEnd
  | closed
  | again
  | error
deriving DecidableEq, Repr

/-- The results of the `recv` calls of one `pollCommands` call. -/
structure Reads where
  steps : List Recv
  last : RecvEnd

def Recv.bytes : Recv → List UInt8
  | .data c => c.bytes
  | .eintr => []

/-- The bytes that a call receives. -/
def Reads.bytes (r : Reads) : List UInt8 := r.steps.flatMap Recv.bytes

/-- The reading loop of `pollCommands`, up to the result that ends it.  `total` is an `int`, which
overflows only if one call receives 2 GiB. -/
def recvLoop (buf : List UInt8) (total : Int) : List Recv → List UInt8 × Int
  | [] => (buf, total)
  | .data c :: rs => recvLoop (buf ++ c.bytes) (total + c.bytes.length) rs
  | .eintr :: rs => recvLoop buf total rs

/-- One iteration of the parse loop of `pollCommands` at `off`. -/
def parseStep (size : SizeSub) (buf : List UInt8) (off : Nat) :
    Option (Verdict (Option Command)) := do
  if (← size.sub buf.length off) < llHeaderSize then return .wait
  if (← buf[off]?) ≠ llSof then return .skip
  let type ← buf[off + 1]?
  let len := leU32 (← buf[off + 2]?) (← buf[off + 3]?) (← buf[off + 4]?) (← buf[off + 5]?)
  if llMaxPayload < len then return .skip
  let need := llHeaderSize + len.toNat
  if (← size.sub buf.length off) < need then return .wait
  if type = frameCommand ∧ 2 ≤ len then
    return .take need
      (some ⟨← buf[off + llHeaderSize + 0]?, ← buf[off + llHeaderSize + 1]?⟩)
  return .take need none

/-- What `pollCommands` returns, with the buffer and the commands that it leaves to its caller. -/
structure Polled where
  rc : Int
  buf : List UInt8
  out : List Command

/-- `pollCommands`, with its subtraction of sizes as a parameter.  `none` is a fault. -/
def pollCommandsWith (size : SizeSub) (r : Reads) (buf : List UInt8) (out : List Command) :
    Option Polled :=
  let (buf, total) := recvLoop buf 0 r.steps
  match r.last with
  | .closed => some ⟨-1, buf, out⟩
  | .error => some ⟨-2, buf, out⟩
  | .again => do
    let (found, off) ← indexLoop (parseStep size buf) (buf.length + 1) 0
    some ⟨total, if 0 < off then buf.drop off else buf, out ++ found.filterMap id⟩

def pollCommands : Reads → List UInt8 → List Command → Option Polled := pollCommandsWith wrapping

theorem recvLoop_eq (buf : List UInt8) (total : Int) (rs : List Recv) :
    recvLoop buf total rs =
      (buf ++ rs.flatMap Recv.bytes, total + (rs.flatMap Recv.bytes).length) := by
  induction rs generalizing buf total with
  | nil => simp [recvLoop]
  | cons r rs ih =>
    cases r with
    | data c => simp [recvLoop, ih, Recv.bytes, Int.add_assoc]
    | eintr => simp [recvLoop, ih, Recv.bytes]

theorem two_split {b : List UInt8} (h : 2 ≤ b.length) : ∃ a0 a1 c, b = a0 :: a1 :: c := by
  match b, h with
  | a0 :: a1 :: c, _ => exact ⟨_, _, _, rfl⟩

/-- An iteration of the parse loop reads inside the buffer, subtracts without wrapping, and takes
the scanner's decision on the bytes from `off` on. -/
theorem parseStep_eq (size : SizeSub) {buf : List UInt8} {off : Nat} (h : off ≤ buf.length) :
    parseStep size buf off =
      (frameScanner.verdict (buf.drop off)).mapM fun f => some (commandOf f) := by
  have hget : ∀ k, buf[off + k]? = (buf.drop off)[k]? := fun k => by rw [List.getElem?_drop]
  have hget0 : buf[off]? = (buf.drop off)[0]? := hget 0
  have hlen : buf.length - off = (buf.drop off).length := by rw [List.length_drop]
  simp only [parseStep, size.exact h, hlen, hget0, Nat.add_assoc, hget, frameScanner_verdict]
  generalize buf.drop off = d
  by_cases hshort : d.length < llHeaderSize
  · rw [frameVerdict_short hshort]
    simp [hshort]
  · obtain ⟨sof, type, l0, l1, l2, l3, body, rfl⟩ := header_split (Nat.le_of_not_lt hshort)
    simp only [frameVerdict, Option.bind_eq_bind, Option.bind_some, hshort, if_false,
      List.getElem?_cons_zero, List.getElem?_cons_succ, Option.pure_def]
    generalize leU32 l0 l1 l2 l3 = len
    by_cases hsof : sof = llSof
    · subst hsof
      by_cases hmax : llMaxPayload < len
      · simp [hmax]
      · have hneed : (llSof :: type :: l0 :: l1 :: l2 :: l3 :: body).length <
            llHeaderSize + len.toNat ↔ body.length < len.toNat := by
          simp only [List.length_cons, llHeaderSize]
          omega
        by_cases hbody : body.length < len.toNat
        · simp only [hneed, hbody, hmax]
          simp
        · simp only [hneed, hbody, hmax, ne_eq, not_true, if_false, Verdict.mapM_take,
            Option.map_some]
          by_cases hc : type = frameCommand ∧ 2 ≤ len
          · obtain ⟨rfl, hle⟩ := hc
            have htwo : 2 ≤ len.toNat := UInt32.le_iff_toNat_le.mp hle
            obtain ⟨cmdId, value, more, rfl⟩ := two_split (show 2 ≤ body.length by omega)
            obtain ⟨k, hk⟩ : ∃ k, len.toNat = k + 2 := ⟨len.toNat - 2, by omega⟩
            simp [hk, hle, commandOf_command, llHeaderSize]
          · have hnone : commandOf (type, body.take len.toNat) = none := by
              by_cases htype : type = frameCommand
              · have htwo : ¬ 2 ≤ len.toNat := fun h2 =>
                  hc ⟨htype, UInt32.le_iff_toNat_le.mpr h2⟩
                exact commandOf_short (by rw [List.length_take]; omega) type
              · exact commandOf_other htype _
            rw [if_neg hc, hnone]
    · simp [hsof]

/-- The parse loop of `pollCommands` scans its buffer for frames. -/
theorem pollCommandsWith_again (size : SizeSub) {r : Reads} (h : r.last = .again)
    (buf : List UInt8) (out : List Command) :
    pollCommandsWith size r buf out =
      some ⟨r.bytes.length, frameScanner.rest (buf ++ r.bytes),
        out ++ (frameScanner.items (buf ++ r.bytes)).filterMap commandOf⟩ := by
  have hrecv : recvLoop buf 0 r.steps = (buf ++ r.bytes, (r.bytes.length : Int)) := by
    rw [recvLoop_eq, Int.zero_add]
    rfl
  have hbody : ∀ off ≤ (buf ++ r.bytes).length, parseStep size (buf ++ r.bytes) off =
      (frameScanner.verdict ((buf ++ r.bytes).drop off)).mapM fun f => some (commandOf f) := by
    intro off hoff
    exact parseStep_eq size hoff
  have hloop := indexLoop_total frameScanner hbody
  have hfound : ((located 0 (frameScanner.scan (buf ++ r.bytes)).1).map
      fun x => commandOf x.2).filterMap id =
      (frameScanner.items (buf ++ r.bytes)).filterMap commandOf := by
    rw [Scanner.items, ← located_items 0, List.filterMap_map, List.filterMap_map]
    rfl
  simp only [pollCommandsWith, hrecv, h, hloop, Option.bind_eq_bind, Option.bind_some,
    frameScanner.erase_consumed, hfound]

theorem pollCommands_again {r : Reads} (h : r.last = .again) (buf : List UInt8)
    (out : List Command) :
    pollCommands r buf out =
      some ⟨r.bytes.length, frameScanner.rest (buf ++ r.bytes),
        out ++ (frameScanner.items (buf ++ r.bytes)).filterMap commandOf⟩ :=
  pollCommandsWith_again wrapping h buf out

/-- A call that sees the connection end leaves what it has received in the buffer. -/
theorem pollCommands_ended {r : Reads} (h : r.last ≠ .again) (buf : List UInt8)
    (out : List Command) :
    ∃ rc < 0, pollCommands r buf out = some ⟨rc, buf ++ r.bytes, out⟩ := by
  have hrecv : recvLoop buf 0 r.steps = (buf ++ r.bytes, (r.bytes.length : Int)) := by
    rw [recvLoop_eq, Int.zero_add]
    rfl
  simp only [pollCommands, pollCommandsWith, hrecv]
  cases hl : r.last with
  | closed => exact ⟨-1, by decide, rfl⟩
  | error => exact ⟨-2, by decide, rfl⟩
  | again => exact absurd hl h

end Patrol.Network
