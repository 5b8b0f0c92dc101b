import Patrol.ProofKit.Scanner
import Patrol.Serial.Protocol

/-! The serial protocol as a scanner of bytes.  It waits for five bytes, skips a byte that does not
start a frame or starts one with a wrong CRC, waits for the whole frame, and takes it. -/

namespace Patrol.Serial

open ProofKit

/-- A received frame: its LEN byte, the byte after it, and the bytes from there to the CRC. -/
structure Received where
  len : UInt8
  cmd : UInt8
  payload : List UInt8
deriving DecidableEq, Repr

/-- The decision at the front of a byte stream. -/
def serialVerdict : List UInt8 → Verdict Received
  | b0 :: b1 :: len :: b3 :: b4 :: more =>
    if b0 ≠ sof1 ∨ b1 ≠ sof2 then .skip
    else
      let body := b3 :: b4 :: more
      match body[len.toNat]? with
      | none => .wait
      | some crc =>
        if crc8 (len :: body.take len.toNat) ≠ crc then .skip
        else .take (len.toNat + 4) ⟨len, b3, (body.take len.toNat).drop 1⟩
  | _ => .wait

/-- A stream starts with a frame: the start bytes, LEN, LEN bytes, and their CRC. -/
structure StartsFrame (len : UInt8) (body b : List UInt8) : Prop where
  length_eq : body.length = len.toNat
  starts : sof1 :: sof2 :: len :: (body ++ [crc8 (len :: body)]) <+: b

/-- A stream starts with a frame that has no command, and another byte follows. -/
def StartsEmpty (b : List UInt8) : Prop := ∃ x more, b = sof1 :: sof2 :: 0 :: 0 :: x :: more

theorem serialVerdict_short {b : List UInt8} (h : b.length < 5) : serialVerdict b = .wait := by
  match b, h with
  | [], _ => rfl
  | [_], _ => rfl
  | [_, _], _ => rfl
  | [_, _, _], _ => rfl
  | [_, _, _, _], _ => rfl

theorem five_split {b : List UInt8} (h : 5 ≤ b.length) :
    ∃ b0 b1 len b3 b4 more, b = b0 :: b1 :: len :: b3 :: b4 :: more := by
  match b, h with
  | b0 :: b1 :: len :: b3 :: b4 :: more, _ => exact ⟨_, _, _, _, _, _, rfl⟩

/-- The scanner waits for its first five bytes, or for the rest of a frame that has started. -/
theorem serialVerdict_wait {b : List UInt8} (h : serialVerdict b = .wait) :
    b.length < 5 ∨ ∃ len body, b = sof1 :: sof2 :: len :: body ∧ body.length ≤ len.toNat := by
  by_cases hlen : b.length < 5
  · exact .inl hlen
  · obtain ⟨b0, b1, len, b3, b4, more, rfl⟩ := five_split (Nat.le_of_not_lt hlen)
    simp only [serialVerdict] at h
    split_ifs at h with hsof
    rw [not_or, not_not, not_not] at hsof
    split at h
    · rename_i hnone
      refine .inr ⟨len, b3 :: b4 :: more, by rw [hsof.1, hsof.2], ?_⟩
      exact List.getElem?_eq_none_iff.mp hnone
    · split_ifs at h

theorem length_of_wait {b : List UInt8} (h : serialVerdict b = .wait) : b.length < 259 := by
  rcases serialVerdict_wait h with hlen | ⟨len, body, rfl, hlen⟩
  · omega
  · have := len.toNat_lt
    simp only [List.length_cons]
    omega

theorem serialVerdict_take {b : List UInt8} {n : Nat} {e : Received}
    (h : serialVerdict b = .take n e) :
    n = e.len.toNat + 4 ∧ ∃ body, StartsFrame e.len body b ∧
      (body = e.cmd :: e.payload ∨ body = [] ∧ StartsEmpty b) := by
  by_cases hlen : b.length < 5
  · rw [serialVerdict_short hlen] at h
    cases h
  · obtain ⟨b0, b1, len, b3, b4, more, rfl⟩ := five_split (Nat.le_of_not_lt hlen)
    simp only [serialVerdict] at h
    split_ifs at h with hsof
    rw [not_or, not_not, not_not] at hsof
    obtain ⟨rfl, rfl⟩ := hsof
    split at h
    · cases h
    · rename_i crc hcrc
      split_ifs at h with hbad
      cases h
      obtain ⟨hlt, hget⟩ := List.getElem?_eq_some_iff.mp hcrc
      have hbody : ((b3 :: b4 :: more).take len.toNat).length = len.toNat :=
        List.length_take_of_le (Nat.le_of_lt hlt)
      refine ⟨rfl, (b3 :: b4 :: more).take len.toNat, ⟨hbody, ?_⟩, ?_⟩
      · refine ⟨(b3 :: b4 :: more).drop (len.toNat + 1), ?_⟩
        simp only [List.cons_append, List.append_assoc, List.nil_append]
        rw [not_not.mp hbad, ← hget, List.getElem_cons_drop, List.take_append_drop]
      · rcases Nat.eq_zero_or_pos len.toNat with hzero | hpos
        · have hlen0 : len = 0 := UInt8.toNat_inj.mp hzero
          subst hlen0
          refine .inr ⟨rfl, b4, more, ?_⟩
          have hb3 : crc8 [0] = b3 := by simpa [← hget] using hbad
          rw [← hb3]
          rfl
        · obtain ⟨k, hk⟩ : ∃ k, len.toNat = k + 1 := ⟨len.toNat - 1, by omega⟩
          rw [hk]
          exact .inl rfl

theorem serialVerdict_stable {b : List UInt8} (c : List UInt8) (h : serialVerdict b ≠ .wait) :
    serialVerdict (b ++ c) = serialVerdict b := by
  by_cases hlen : b.length < 5
  · exact absurd (serialVerdict_short hlen) h
  · obtain ⟨b0, b1, len, b3, b4, more, rfl⟩ := five_split (Nat.le_of_not_lt hlen)
    simp only [serialVerdict, List.cons_append] at h ⊢
    split_ifs at h with hsof
    · rw [if_pos hsof, if_pos hsof]
    · rw [if_neg hsof, if_neg hsof]
      cases hget : (b3 :: b4 :: more)[len.toNat]? with
      | none => simp [hget] at h
      | some crc =>
        obtain ⟨hlt, -⟩ := List.getElem?_eq_some_iff.mp hget
        have hget' : (b3 :: b4 :: (more ++ c))[len.toNat]? = some crc := by
          rw [← hget]
          exact List.getElem?_append_left hlt
        have htake : (b3 :: b4 :: (more ++ c)).take len.toNat = (b3 :: b4 :: more).take len.toNat :=
          List.take_append_of_le_length (Nat.le_of_lt hlt)
        rw [hget', htake]

theorem StartsFrame.length_le {len : UInt8} {body b : List UInt8} (h : StartsFrame len body b) :
    len.toNat + 4 ≤ b.length := by
  have hle := h.starts.length_le
  simp only [List.length_cons, List.length_append, List.length_nil, h.length_eq] at hle
  omega

theorem serialVerdict_pos {b : List UInt8} {n : Nat} {e : Received}
    (h : serialVerdict b = .take n e) : 0 < n := by
  rw [(serialVerdict_take h).1]
  exact Nat.succ_pos _

theorem serialVerdict_le {b : List UInt8} {n : Nat} {e : Received}
    (h : serialVerdict b = .take n e) : n ≤ b.length := by
  obtain ⟨rfl, body, hstarts, -⟩ := serialVerdict_take h
  exact hstarts.length_le

/-- The scanner of serial frames. -/
def serialScanner : Scanner UInt8 Received where
  verdict := serialVerdict
  verdict_nil := rfl
  take_pos := @serialVerdict_pos
  take_le := @serialVerdict_le
  stable := @serialVerdict_stable

theorem serialScanner_verdict (b : List UInt8) : serialScanner.verdict b = serialVerdict b := rfl

/-- A frame with a command is taken, whatever its bytes are. -/
theorem StartsFrame.verdict {len cmd : UInt8} {payload b : List UInt8}
    (h : StartsFrame len (cmd :: payload) b) :
    serialScanner.verdict b = .take (len.toNat + 4) ⟨len, cmd, payload⟩ := by
  obtain ⟨hlen, c, rfl⟩ := h
  obtain ⟨b4, more, hmore⟩ : ∃ b4 more,
      payload ++ [crc8 (len :: cmd :: payload)] ++ c = b4 :: more := by
    cases payload <;> exact ⟨_, _, rfl⟩
  have hbody : cmd :: b4 :: more = (cmd :: payload) ++ crc8 (len :: cmd :: payload) :: c := by
    rw [← hmore]
    simp
  have hget : (cmd :: b4 :: more)[len.toNat]? = some (crc8 (len :: cmd :: payload)) := by
    rw [hbody, ← hlen, List.getElem?_append_right (Nat.le_refl _)]
    simp
  have htake : (cmd :: b4 :: more).take len.toNat = cmd :: payload := by
    rw [hbody, ← hlen, List.take_left]
  rw [serialScanner_verdict]
  simp only [List.cons_append, serialVerdict]
  rw [hmore]
  simp [hget, htake]

/-- The frames taken with LEN zero are those that have no command and another byte behind. -/
theorem take_len_zero {b : List UInt8} :
    (∃ n e, serialScanner.verdict b = .take n e ∧ e.len = 0) ↔ StartsEmpty b := by
  constructor
  · rintro ⟨n, e, htake, hzero⟩
    obtain ⟨-, body, hstarts, hbody⟩ := serialVerdict_take htake
    rcases hbody with rfl | ⟨-, hempty⟩
    · have hlen := hstarts.length_eq
      rw [hzero] at hlen
      cases hlen
    · exact hempty
  · rintro ⟨x, more, rfl⟩
    exact ⟨4, ⟨0, 0, []⟩, rfl, rfl⟩

/-- A frame on the port starts the stream that it is the front of. -/
theorem SerialFrame.startsFrame (f : SerialFrame) (c : List UInt8) :
    StartsFrame (f.payloadLen + 1) (f.cmd :: f.payload) (f.bytes ++ c) := by
  refine ⟨f.len_toNat.symm, c, ?_⟩
  rw [f.bytes_eq]
  rfl

theorem SerialFrame.bytes_length (f : SerialFrame) :
    f.bytes.length = (f.payloadLen + 1).toNat + 4 := by
  rw [f.bytes_eq, f.len_toNat]
  simp

end Patrol.Serial
