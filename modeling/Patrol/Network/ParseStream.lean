import Patrol.Network.TcpServer

/-! The reference receiver (`test/frame_parser_check.py`), which mirrors the LongLook parser: its parse
loop takes the frames of a scan of its buffer, and keeps what the scan leaves from the first start
byte on. -/

namespace Patrol.Network

open ProofKit

/-- `buf.find(bytes([SOF]), off)`. -/
def find (buf : List UInt8) (off : Nat) : Option Nat :=
  ((buf.drop off).findIdx? (· == llSof)).map (off + ·)

/-- `struct.unpack_from("<I", buf, off)[0]`; `none` is an exception. -/
def unpackU32 (buf : List UInt8) (off : Nat) : Option Nat := do
  let b0 ← buf[off]?
  let b1 ← buf[off + 1]?
  let b2 ← buf[off + 2]?
  let b3 ← buf[off + 3]?
  return b0.toNat + 256 * b1.toNat + 65536 * b2.toNat + 16777216 * b3.toNat

/-- The loop of `parse_stream` from `off` on: the frames that it dispatches and the bytes that it
returns.  `none` is an exception or the end of the fuel. -/
def parseStreamLoop (buf : List UInt8) :
    Nat → Nat → Option (List (UInt8 × List UInt8) × List UInt8)
  | 0, _ => none
  | fuel + 1, off =>
    match find buf off with
    | none => some ([], [])
    | some sof =>
      if buf.length - sof < 6 then some ([], buf.drop sof)
      else do
        let ftype ← buf[sof + 1]?
        let length ← unpackU32 buf (sof + 2)
        if length > 16 * 1024 * 1024 then parseStreamLoop buf fuel (sof + 1)
        else if buf.length - sof < 6 + length then some ([], buf.drop sof)
        else
          let payload := (buf.drop (sof + 6)).take length
          let (frames, rest) ← parseStreamLoop buf fuel (sof + (6 + length))
          some ((ftype, payload) :: frames, rest)

def parseStream (buf : List UInt8) : Option (List (UInt8 × List UInt8) × List UInt8) :=
  parseStreamLoop buf (buf.length + 1) 0

/-- The loop of `main` around `parse_stream`: the frames dispatched, and the buffer at the end. -/
def receive (buf : List UInt8) :
    List (Chunk UInt8 65536) → Option (List (UInt8 × List UInt8) × List UInt8)
  | [] => some ([], buf)
  | c :: cs => do
    let (frames, buf) ← parseStream (buf ++ c.bytes)
    let (more, buf) ← receive buf cs
    some (frames ++ more, buf)

/-! ### The search for the start byte -/

theorem dropNoise_findIdx? (d : List UInt8) :
    (d.findIdx? (· == llSof) = none ∧ dropNoise d = []) ∨
      ∃ i, d.findIdx? (· == llSof) = some i ∧ dropNoise d = d.drop i ∧ i < d.length := by
  induction d with
  | nil => exact .inl ⟨rfl, rfl⟩
  | cons a d ih =>
    by_cases h : a = llSof
    · subst h
      exact .inr ⟨0, by rw [List.findIdx?_cons, beq_self_eq_true]; rfl, dropNoise_sof d, by simp⟩
    · have hne : (a == llSof) = false := beq_eq_false_iff_ne.mpr h
      rw [dropNoise_cons h, List.findIdx?_cons, hne]
      rcases ih with ⟨hnone, hnil⟩ | ⟨i, hsome, hdrop, hlt⟩
      · exact .inl ⟨by simp [hnone], hnil⟩
      · refine .inr ⟨i + 1, by simp [hsome], by simp [hdrop], by simp [hlt]⟩

theorem find_spec (buf : List UInt8) (off : Nat) :
    (find buf off = none ∧ dropNoise (buf.drop off) = []) ∨
      ∃ sof, find buf off = some sof ∧ dropNoise (buf.drop off) = buf.drop sof ∧
        off ≤ sof ∧ sof < buf.length := by
  rcases dropNoise_findIdx? (buf.drop off) with ⟨hnone, hnil⟩ | ⟨i, hsome, hdrop, hlt⟩
  · exact .inl ⟨by simp [find, hnone], hnil⟩
  · rw [List.drop_drop] at hdrop
    rw [List.length_drop] at hlt
    exact .inr ⟨off + i, by simp [find, hsome], hdrop, by omega, by omega⟩

theorem unpackU32_header {l0 l1 l2 l3 : UInt8} {buf body : List UInt8} {sof : Nat}
    {b0 b1 : UInt8} (h : buf.drop sof = b0 :: b1 :: l0 :: l1 :: l2 :: l3 :: body) :
    unpackU32 buf (sof + 2) = some (leU32 l0 l1 l2 l3).toNat := by
  have hget : ∀ k, buf[sof + k]? = (buf.drop sof)[k]? := fun k => by rw [List.getElem?_drop]
  simp [unpackU32, Nat.add_assoc, hget, h, leU32_toNat]

/-! ### The parse loop is a scan -/

/-- An iteration of the parse loop at a start byte with its header. -/
theorem parseStreamLoop_header {buf body : List UInt8} {fuel off sof : Nat}
    {type l0 l1 l2 l3 : UInt8} (hfind : find buf off = some sof)
    (hsplit : buf.drop sof = llSof :: type :: l0 :: l1 :: l2 :: l3 :: body) :
    parseStreamLoop buf (fuel + 1) off =
      if llMaxPayload < leU32 l0 l1 l2 l3 then parseStreamLoop buf fuel (sof + 1)
      else if body.length < (leU32 l0 l1 l2 l3).toNat then some ([], buf.drop sof)
      else (parseStreamLoop buf fuel (sof + (6 + (leU32 l0 l1 l2 l3).toNat))).map fun r =>
        ((type, body.take (leU32 l0 l1 l2 l3).toNat) :: r.1, r.2) := by
  have hlen : (buf.drop sof).length = buf.length - sof := List.length_drop
  have hbody : buf.length - sof = 6 + body.length := by
    rw [← hlen, hsplit]
    simp only [List.length_cons]
    omega
  have htype : buf[sof + 1]? = some type := by
    rw [← List.getElem?_drop, hsplit]
    rfl
  have hpayload : buf.drop (sof + 6) = body := by
    rw [← List.drop_drop, hsplit]
    rfl
  have hheader : ¬ 6 + body.length < 6 := by omega
  have hmax : (leU32 l0 l1 l2 l3).toNat > 16 * 1024 * 1024 ↔ llMaxPayload < leU32 l0 l1 l2 l3 := by
    rw [UInt32.lt_iff_toNat_lt]
    rfl
  rw [parseStreamLoop, hfind]
  simp only [hbody, hheader, if_false, htype, unpackU32_header hsplit, Option.bind_eq_bind,
    Option.bind_some, hmax, Nat.add_lt_add_iff_left, hpayload, Option.map_eq_bind]
  rfl

/-- The parse loop dispatches the frames of a scan, and returns what the scan leaves, less the noise
before the first start byte. -/
theorem parseStreamLoop_eq (buf : List UInt8) {fuel off : Nat} (hoff : off ≤ buf.length)
    (hfuel : buf.length - off < fuel) :
    parseStreamLoop buf fuel off =
      some (frameScanner.items (buf.drop off), dropNoise (frameScanner.rest (buf.drop off))) := by
  induction fuel generalizing off with
  | zero => omega
  | succ fuel ih =>
    rw [← (scan_dropNoise (buf.drop off)).1, ← (scan_dropNoise (buf.drop off)).2]
    rcases find_spec buf off with ⟨hnone, hnil⟩ | ⟨sof, hsome, hdrop, hle, hlt⟩
    · rw [hnil, parseStreamLoop, hnone, frameScanner.items_wait frameScanner.verdict_nil,
        frameScanner.rest_wait frameScanner.verdict_nil]
      rfl
    · have hlen : (buf.drop sof).length = buf.length - sof := List.length_drop
      have hclean : dropNoise (buf.drop sof) = buf.drop sof := by
        rw [← hdrop, dropNoise_dropNoise]
      rw [hdrop]
      by_cases hshort : buf.length - sof < 6
      · have hv : frameScanner.verdict (buf.drop sof) = .wait :=
          frameVerdict_short (by rw [hlen]; exact hshort)
        rw [parseStreamLoop, hsome]
        simp only [hshort, if_true]
        rw [frameScanner.items_wait hv, frameScanner.rest_wait hv, hclean]
      · have hheader : llHeaderSize ≤ (buf.drop sof).length := by
          rw [hlen]
          exact Nat.le_of_not_lt hshort
        obtain ⟨type, l0, l1, l2, l3, body, hsplit⟩ := sof_split hclean hheader
        have hv : frameScanner.verdict (buf.drop sof) = _ :=
          (congrArg frameVerdict hsplit).trans (frameVerdict_sof type l0 l1 l2 l3 body)
        rw [parseStreamLoop_header hsome hsplit]
        split_ifs at hv ⊢
        · rw [ih (by omega) (by omega), frameScanner.items_skip hv, frameScanner.rest_skip hv,
            List.drop_drop]
        · rw [frameScanner.items_wait hv, frameScanner.rest_wait hv, hclean]
        · have hfit := congrArg List.length hsplit
          simp only [hlen, List.length_cons] at hfit
          rw [ih (by omega) (by omega), frameScanner.items_take hv, frameScanner.rest_take hv,
            List.drop_drop]
          rfl

theorem parseStream_eq (buf : List UInt8) :
    parseStream buf = some (frameScanner.items buf, dropNoise (frameScanner.rest buf)) :=
  parseStreamLoop_eq buf (Nat.zero_le _) (by omega)

end Patrol.Network
