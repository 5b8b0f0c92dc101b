import Patrol.Network.FrameProtocol
import Patrol.ProofKit.Scanner

/-! The frame protocol as a scanner of bytes.  It waits for a header, skips a byte that is not the
start byte or whose length field is over the limit, waits for the payload, and takes the frame. -/

namespace Patrol.Network

open ProofKit

/-- The decision at the front of a byte stream; a frame is its type and its payload. -/
def frameVerdict : List UInt8 → Verdict (UInt8 × List UInt8)
  | sof :: type :: l0 :: l1 :: l2 :: l3 :: body =>
    if sof ≠ llSof then .skip
    else if llMaxPayload < leU32 l0 l1 l2 l3 then .skip
    else if body.length < (leU32 l0 l1 l2 l3).toNat then .wait
    else .take (llHeaderSize + (leU32 l0 l1 l2 l3).toNat)
      (type, body.take (leU32 l0 l1 l2 l3).toNat)
  | _ => .wait

theorem frameVerdict_short {b : List UInt8} (h : b.length < llHeaderSize) :
    frameVerdict b = .wait := by
  unfold frameVerdict
  split
  · simp [llHeaderSize] at h
    omega
  · rfl

/-- A buffer that holds a header is its six bytes and what follows. -/
theorem header_split {b : List UInt8} (h : llHeaderSize ≤ b.length) :
    ∃ sof type l0 l1 l2 l3 body, b = sof :: type :: l0 :: l1 :: l2 :: l3 :: body := by
  unfold llHeaderSize at h
  match b, h with
  | sof :: type :: l0 :: l1 :: l2 :: l3 :: body, _ => exact ⟨_, _, _, _, _, _, _, rfl⟩

/-- The decision at a start byte with its header. -/
theorem frameVerdict_sof (type l0 l1 l2 l3 : UInt8) (body : List UInt8) :
    frameVerdict (llSof :: type :: l0 :: l1 :: l2 :: l3 :: body) =
      if llMaxPayload < leU32 l0 l1 l2 l3 then .skip
      else if body.length < (leU32 l0 l1 l2 l3).toNat then .wait
      else .take (llHeaderSize + (leU32 l0 l1 l2 l3).toNat)
        (type, body.take (leU32 l0 l1 l2 l3).toNat) := by
  rw [frameVerdict, if_neg (by simp)]

theorem frameVerdict_take {b : List UInt8} {n : Nat} {e : UInt8 × List UInt8}
    (h : frameVerdict b = .take n e) :
    ∃ l0 l1 l2 l3 body, b = llSof :: e.1 :: l0 :: l1 :: l2 :: l3 :: body ∧
      leU32 l0 l1 l2 l3 ≤ llMaxPayload ∧ (leU32 l0 l1 l2 l3).toNat ≤ body.length ∧
      n = llHeaderSize + (leU32 l0 l1 l2 l3).toNat ∧ e.2 = body.take (leU32 l0 l1 l2 l3).toNat := by
  unfold frameVerdict at h
  split at h
  · rename_i sof type l0 l1 l2 l3 body
    split_ifs at h with hsof hmax hbody
    cases h
    exact ⟨l0, l1, l2, l3, body, by rw [not_not.mp hsof], UInt32.not_lt.mp hmax, by omega, rfl, rfl⟩
  · cases h

theorem frameVerdict_stable {b : List UInt8} (c : List UInt8) (h : frameVerdict b ≠ .wait) :
    frameVerdict (b ++ c) = frameVerdict b := by
  by_cases hlen : b.length < llHeaderSize
  · exact absurd (frameVerdict_short hlen) h
  · obtain ⟨sof, type, l0, l1, l2, l3, body, rfl⟩ := header_split (Nat.le_of_not_lt hlen)
    simp only [frameVerdict, List.cons_append] at h ⊢
    split_ifs at h with hsof hmax hbody
    · rw [if_pos hsof, if_pos hsof]
    · rw [if_neg hsof, if_neg hsof, if_pos hmax, if_pos hmax]
    · exact absurd rfl h
    · have hlong : ¬ (body ++ c).length < (leU32 l0 l1 l2 l3).toNat := by
        rw [List.length_append]
        omega
      rw [if_neg hsof, if_neg hsof, if_neg hmax, if_neg hmax, if_neg hbody, if_neg hlong,
        List.take_append_of_le_length (by omega)]

theorem frameVerdict_pos {b : List UInt8} {n : Nat} {e : UInt8 × List UInt8}
    (h : frameVerdict b = .take n e) : 0 < n := by
  obtain ⟨_, _, _, _, _, -, -, -, rfl, -⟩ := frameVerdict_take h
  exact Nat.add_pos_left (by decide) _

theorem frameVerdict_le {b : List UInt8} {n : Nat} {e : UInt8 × List UInt8}
    (h : frameVerdict b = .take n e) : n ≤ b.length := by
  obtain ⟨_, _, _, _, _, rfl, -, hlen, rfl, -⟩ := frameVerdict_take h
  simp only [List.length_cons, llHeaderSize]
  omega

/-- The scanner of frames. -/
def frameScanner : Scanner UInt8 (UInt8 × List UInt8) where
  verdict := frameVerdict
  verdict_nil := rfl
  take_pos := @frameVerdict_pos
  take_le := @frameVerdict_le
  stable := @frameVerdict_stable

theorem frameScanner_verdict (b : List UInt8) : frameScanner.verdict b = frameVerdict b := rfl

/-- A frame at the front of a stream is taken, whatever its payload holds. -/
theorem verdict_bytes (f : Frame) (c : List UInt8) :
    frameScanner.verdict (f.bytes ++ c) = .take f.bytes.length (f.type, f.payload) := by
  have hle : UInt32.ofNat f.payload.length ≤ llMaxPayload := by
    rw [UInt32.le_iff_toNat_le, f.ofNat_length]
    exact f.le_max
  rw [f.bytes_length, frameScanner_verdict]
  simp only [Frame.bytes, buildHeader, List.cons_append, List.nil_append]
  rw [frameVerdict_sof, leU32_header, if_neg (UInt32.not_lt.mpr hle), f.ofNat_length,
    if_neg (by simp), List.take_left]

theorem items_bytes (f : Frame) (c : List UInt8) :
    frameScanner.items (f.bytes ++ c) = (f.type, f.payload) :: frameScanner.items c := by
  rw [frameScanner.items_take (verdict_bytes f c), List.drop_left]

theorem rest_bytes (f : Frame) (c : List UInt8) :
    frameScanner.rest (f.bytes ++ c) = frameScanner.rest c := by
  rw [frameScanner.rest_take (verdict_bytes f c), List.drop_left]

/-! ### Noise -/

/-- The bytes from the first start byte on. -/
def dropNoise (b : List UInt8) : List UInt8 := b.dropWhile (· != llSof)

theorem dropNoise_cons {a : UInt8} (h : a ≠ llSof) (b : List UInt8) :
    dropNoise (a :: b) = dropNoise b := by
  rw [dropNoise, List.dropWhile_cons_of_pos (by simpa using h), dropNoise]

theorem dropNoise_sof (b : List UInt8) : dropNoise (llSof :: b) = llSof :: b := by
  simp [dropNoise]

theorem dropNoise_cases (b : List UInt8) :
    dropNoise b = [] ∨ ∃ d, dropNoise b = llSof :: d := by
  induction b with
  | nil => exact .inl rfl
  | cons a b ih =>
    by_cases h : a = llSof
    · rw [h, dropNoise_sof]
      exact .inr ⟨b, rfl⟩
    · rwa [dropNoise_cons h]

theorem dropNoise_dropNoise (b : List UInt8) : dropNoise (dropNoise b) = dropNoise b := by
  rcases dropNoise_cases b with h | ⟨d, h⟩
  · rw [h]
    rfl
  · rw [h, dropNoise_sof]

theorem sof_split {b : List UInt8} (hclean : dropNoise b = b) (hlen : llHeaderSize ≤ b.length) :
    ∃ type l0 l1 l2 l3 body, b = llSof :: type :: l0 :: l1 :: l2 :: l3 :: body := by
  obtain ⟨b0, type, l0, l1, l2, l3, body, rfl⟩ := header_split hlen
  rcases dropNoise_cases (b0 :: type :: l0 :: l1 :: l2 :: l3 :: body) with h | ⟨d, h⟩
  · rw [hclean] at h
    cases h
  · rw [hclean] at h
    cases h
    exact ⟨_, _, _, _, _, _, rfl⟩

theorem dropNoise_split (b : List UInt8) : ∃ noise, llSof ∉ noise ∧ b = noise ++ dropNoise b := by
  induction b with
  | nil => exact ⟨[], by simp, rfl⟩
  | cons a b ih =>
    by_cases h : a = llSof
    · exact ⟨[], by simp, by rw [h, dropNoise_sof]; rfl⟩
    · obtain ⟨noise, hnoise, hsplit⟩ := ih
      refine ⟨a :: noise, by simp [hnoise, Ne.symm h], ?_⟩
      rw [dropNoise_cons h, List.cons_append, ← hsplit]

theorem frameVerdict_noise {a : UInt8} (h : a ≠ llSof) {b : List UInt8}
    (hlen : llHeaderSize ≤ (a :: b).length) : frameVerdict (a :: b) = .skip := by
  obtain ⟨_, _, _, _, _, _, _, heq⟩ := header_split hlen
  cases heq
  simp only [frameVerdict]
  rw [if_pos h]

/-- A byte before the first start byte changes nothing but the noise that a scan leaves: it is
skipped, or it waits with fewer than six bytes behind it. -/
theorem scan_noise {a : UInt8} (h : a ≠ llSof) (b : List UInt8) :
    frameScanner.items (a :: b) = frameScanner.items b ∧
      dropNoise (frameScanner.rest (a :: b)) = dropNoise (frameScanner.rest b) := by
  by_cases hlen : llHeaderSize ≤ (a :: b).length
  · have hv : frameScanner.verdict (a :: b) = .skip := frameVerdict_noise h hlen
    rw [frameScanner.items_skip hv, frameScanner.rest_skip hv]
    exact ⟨rfl, rfl⟩
  · have hv : frameScanner.verdict (a :: b) = .wait := frameVerdict_short (by omega)
    have hv' : frameScanner.verdict b = .wait :=
      frameVerdict_short (by simp only [List.length_cons] at hlen; omega)
    rw [frameScanner.items_wait hv, frameScanner.items_wait hv', frameScanner.rest_wait hv,
      frameScanner.rest_wait hv']
    exact ⟨rfl, dropNoise_cons h b⟩

theorem scan_dropNoise (b : List UInt8) :
    frameScanner.items (dropNoise b) = frameScanner.items b ∧
      dropNoise (frameScanner.rest (dropNoise b)) = dropNoise (frameScanner.rest b) := by
  induction b with
  | nil => exact ⟨rfl, rfl⟩
  | cons a b ih =>
    by_cases h : a = llSof
    · rw [h, dropNoise_sof]
      exact ⟨rfl, rfl⟩
    · rw [dropNoise_cons h, (scan_noise h b).1, (scan_noise h b).2]
      exact ih

theorem scan_noise_append {noise : List UInt8} (h : llSof ∉ noise) (b : List UInt8) :
    frameScanner.items (noise ++ b) = frameScanner.items b ∧
      dropNoise (frameScanner.rest (noise ++ b)) = dropNoise (frameScanner.rest b) := by
  induction noise with
  | nil => exact ⟨rfl, rfl⟩
  | cons a noise ih =>
    simp only [List.mem_cons, not_or] at h
    rw [List.cons_append, (scan_noise (Ne.symm h.1) _).1, (scan_noise (Ne.symm h.1) _).2]
    exact ih h.2

/-! ### Streams of frames -/

/-- Frames on the wire, each after some noise, with noise at the end. -/
def wire (segments : List (List UInt8 × Frame)) (tail : List UInt8) : List UInt8 :=
  (segments.flatMap fun s => s.1 ++ s.2.bytes) ++ tail

/-- A stream of frames among noise scans to the frames, and leaves noise. -/
theorem scan_wire {segments : List (List UInt8 × Frame)} {tail : List UInt8}
    (hnoise : ∀ s ∈ segments, llSof ∉ s.1) (htail : llSof ∉ tail) :
    frameScanner.items (wire segments tail) = segments.map (fun s => (s.2.type, s.2.payload)) ∧
      dropNoise (frameScanner.rest (wire segments tail)) = [] := by
  induction segments with
  | nil =>
    have h := scan_noise_append htail []
    rw [List.append_nil] at h
    rw [show wire [] tail = tail from rfl, h.1, h.2,
      frameScanner.items_wait frameScanner.verdict_nil,
      frameScanner.rest_wait frameScanner.verdict_nil]
    exact ⟨rfl, rfl⟩
  | cons s segments ih =>
    have hs := scan_noise_append (hnoise s (by simp)) (s.2.bytes ++ wire segments tail)
    have ih := ih fun t ht => hnoise t (List.mem_cons_of_mem _ ht)
    rw [show wire (s :: segments) tail = s.1 ++ (s.2.bytes ++ wire segments tail) by simp [wire],
      hs.1, hs.2, items_bytes, rest_bytes, ih.1, ih.2]
    exact ⟨rfl, rfl⟩

end Patrol.Network
