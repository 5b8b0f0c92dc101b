import Patrol.Network.Commands

/-! The payload limit.  The parse loop splits its buffer into skipped bytes, frames within the limit
and a rest that the limit bounds; `sendFrame` does not look at the limit. -/

namespace Patrol.Network

open ProofKit

/-! ### What the parse loop consumes -/

/-- What the parse loop consumes in front of `rest`: a byte that does not start a frame, a start
byte whose length field is over the limit, or a whole frame. -/
inductive Consumed : (part rest : List UInt8) → Prop
  | noise {b : UInt8} {rest : List UInt8} : b ≠ llSof → Consumed [b] rest
  | tooLong {type l0 l1 l2 l3 : UInt8} {rest : List UInt8} : llMaxPayload < leU32 l0 l1 l2 l3 →
      Consumed [llSof] (type :: l0 :: l1 :: l2 :: l3 :: rest)
  | frame {type l0 l1 l2 l3 : UInt8} {payload rest : List UInt8} :
      leU32 l0 l1 l2 l3 ≤ llMaxPayload → payload.length = (leU32 l0 l1 l2 l3).toNat →
      Consumed (llSof :: type :: l0 :: l1 :: l2 :: l3 :: payload) rest

/-- Fewer than six bytes, or the start of a frame within the limit that is not whole. -/
def Resting (b : List UInt8) : Prop :=
  b.length < 6 ∨ ∃ type l0 l1 l2 l3 body, b = llSof :: type :: l0 :: l1 :: l2 :: l3 :: body ∧
    leU32 l0 l1 l2 l3 ≤ llMaxPayload ∧ b.length < 6 + (leU32 l0 l1 l2 l3).toNat

theorem resting_of_wait {b : List UInt8} (h : frameScanner.verdict b = .wait) : Resting b := by
  by_cases hlen : b.length < llHeaderSize
  · exact .inl hlen
  · obtain ⟨sof, type, l0, l1, l2, l3, body, rfl⟩ := header_split (Nat.le_of_not_lt hlen)
    simp only [frameScanner_verdict, frameVerdict] at h
    split_ifs at h with hsof hmax hbody
    refine .inr ⟨type, l0, l1, l2, l3, body, by rw [not_not.mp hsof], UInt32.not_lt.mp hmax, ?_⟩
    simp only [List.length_cons]
    omega

theorem Resting.length_lt {b : List UInt8} (h : Resting b) :
    b.length < 6 + llMaxPayload.toNat := by
  rcases h with hshort | ⟨type, l0, l1, l2, l3, body, -, hmax, hlen⟩
  · omega
  · have := UInt32.le_iff_toNat_le.mp hmax
    omega

/-- What a verdict consumes. -/
theorem consumed_of_verdict {d part rest : List UInt8} (hsplit : d = part ++ rest)
    (hd : frameScanner.verdict d ≠ .wait)
    (hpart : part = d.take (frameScanner.verdict d).width) : Consumed part rest := by
  have hlen : llHeaderSize ≤ d.length := by
    by_contra hshort
    exact hd (frameVerdict_short (Nat.lt_of_not_le hshort))
  have hrest : rest = d.drop (frameScanner.verdict d).width := by
    apply @List.append_cancel_left _ part
    rw [← hsplit, hpart, List.take_append_drop]
  obtain ⟨sof, type, l0, l1, l2, l3, body, rfl⟩ := header_split hlen
  rw [hpart, hrest]
  simp only [frameScanner_verdict, frameVerdict] at hd ⊢
  split_ifs at hd ⊢ with hsof hmax hbody
  · exact .noise hsof
  · rw [not_not.mp hsof]
    exact .tooLong hmax
  · exact absurd rfl hd
  · rw [not_not.mp hsof, Verdict.width_take, Nat.add_comm llHeaderSize]
    exact .frame (UInt32.not_lt.mp hmax) (List.length_take_of_le (by omega))

/-- On every buffer, and with any subtraction of sizes that is exact where it is not negative, the
parse loop ends at the same index in the buffer.  What it consumed is a sequence of skipped bytes
and frames, and what is left is at rest. -/
theorem parseLoop_splits (buf : List UInt8) :
    ∃ found off parts rest,
      (∀ size, indexLoop (parseStep size buf) (buf.length + 1) 0 = some (found, off)) ∧
        buf = List.flatten parts ++ rest ∧ off = (List.flatten parts).length ∧ Resting rest ∧
        ∀ before part after, parts = before ++ part :: after →
          Consumed part (after.flatten ++ rest) := by
  have hbody : ∀ size : SizeSub, ∀ off ≤ buf.length, parseStep size buf off =
      (frameScanner.verdict (buf.drop off)).mapM fun f => some (commandOf f) := by
    intro size off hoff
    exact parseStep_eq size hoff
  refine ⟨_, _, (frameScanner.scan buf).1.map Piece.symbols, frameScanner.rest buf,
    fun size => indexLoop_total frameScanner (hbody size), ?_, ?_,
    resting_of_wait (frameScanner.verdict_rest buf), ?_⟩
  · exact (frameScanner.scan_partition buf).symm
  · exact frameScanner.consumed_eq buf
  · intro before part after h
    obtain ⟨ps, qs, hscan, rfl, hqs⟩ := List.map_eq_append_iff.mp h
    obtain ⟨p, qs', rfl, rfl, rfl⟩ := List.map_eq_cons_iff.mp hqs
    obtain ⟨d, hd, hwait, hsymbols, -⟩ := frameScanner.scan_piece hscan
    exact consumed_of_verdict hd hwait hsymbols

/-! ### Runs -/

theorem pollCommands_isSome (r : Reads) (buf : List UInt8) (out : List Command) :
    ∃ p, pollCommands r buf out = some p ∧ (0 ≤ p.rc → Resting p.buf ∧
      ∀ out', pollCommands ⟨[], .again⟩ p.buf out' = some ⟨0, p.buf, out'⟩) := by
  by_cases hr : r.last = .again
  · refine ⟨_, pollCommands_again hr buf out, fun _ => ?_⟩
    have hwait := frameScanner.verdict_rest (buf ++ r.bytes)
    refine ⟨resting_of_wait hwait, fun out' => ?_⟩
    have hnone : (⟨[], .again⟩ : Reads).bytes = [] := rfl
    rw [pollCommands_again rfl, hnone, List.append_nil, frameScanner.rest_wait hwait,
      frameScanner.items_wait hwait, List.filterMap_nil, List.append_nil]
    rfl
  · obtain ⟨rc, hneg, hend⟩ := pollCommands_ended hr buf out
    refine ⟨_, hend, fun hrc => ?_⟩
    exact absurd hneg (Int.not_lt.mpr hrc)

theorem pollRun_isSome (rs : List Reads) (buf : List UInt8) (out : List Command) :
    ∃ p, pollRun rs buf out = some p := by
  induction rs generalizing buf out with
  | nil => exact ⟨_, rfl⟩
  | cons r rs ih =>
    obtain ⟨p, hp, -⟩ := pollCommands_isSome r buf out
    rw [pollRun, hp]
    exact ih p.buf p.out

/-- The parse loop splits every buffer, also where its subtractions fault below zero.  After every
run, whatever the peer sends, a call that returns a count leaves fewer bytes than a header and the
largest payload, and parsing them again finds nothing and leaves them as they are. -/
theorem parseLoop_greedy :
    (∀ buf, ∃ found off parts rest,
      indexLoop (parseStep checked buf) (buf.length + 1) 0 = some (found, off) ∧
        indexLoop (parseStep wrapping buf) (buf.length + 1) 0 = some (found, off) ∧
        off ≤ buf.length ∧ buf = List.flatten parts ++ rest ∧ off = (List.flatten parts).length ∧
        Resting rest ∧
        ∀ before part after, parts = before ++ part :: after →
          Consumed part (after.flatten ++ rest)) ∧
      ∀ rs r, ∃ buf out p, pollRun rs [] [] = some (buf, out) ∧ pollCommands r buf out = some p ∧
        (0 ≤ p.rc → p.buf.length < 6 + llMaxPayload.toNat ∧
          ∀ out', pollCommands ⟨[], .again⟩ p.buf out' = some ⟨0, p.buf, out'⟩) := by
  constructor
  · intro buf
    obtain ⟨found, off, parts, rest, hloop, hsplit, hoff, hrest, hparts⟩ := parseLoop_splits buf
    refine ⟨found, off, parts, rest, hloop checked, hloop wrapping, ?_, hsplit, hoff, hrest, hparts⟩
    rw [hoff, hsplit, List.length_append]
    exact Nat.le_add_right _ _
  · intro rs r
    obtain ⟨⟨buf, out⟩, hrun⟩ := pollRun_isSome rs [] []
    obtain ⟨p, hp, hkept⟩ := pollCommands_isSome r buf out
    refine ⟨buf, out, p, hrun, hp, fun hrc => ?_⟩
    obtain ⟨hrest, hagain⟩ := hkept hrc
    exact ⟨hrest.length_lt, hagain⟩

/-! ### What `sendFrame` sends -/

/-- Bytes that are one frame whose length field counts its payload and is within the limit. -/
def Legal (bytes : List UInt8) : Prop :=
  ∃ type l0 l1 l2 l3 payload, bytes = llSof :: type :: l0 :: l1 :: l2 :: l3 :: payload ∧
    (leU32 l0 l1 l2 l3).toNat = payload.length ∧ leU32 l0 l1 l2 l3 ≤ llMaxPayload

/-- A frame that is reported as sent is legal, and one that the protocol cannot carry is refused
before a byte is written. -/
structure SendsLegally (type : UInt8) (payload : List UInt8) (rs : List SendResult) : Prop where
  sent : (sendFrame type payload rs).ret = some true → Legal (sendFrame type payload rs).accepted
  refused : llMaxPayload.toNat < payload.length →
    (sendFrame type payload rs).ret = some false ∧ (sendFrame type payload rs).accepted = []

theorem frameBytes_legal (type : UInt8) {payload : List UInt8}
    (h : payload.length ≤ llMaxPayload.toNat) : Legal (frameBytes type payload) := by
  have hlen := Frame.ofNat_length ⟨type, payload, h⟩
  refine ⟨type, _, _, _, _, payload, rfl, ?_, ?_⟩
  · rw [leU32_header]
    exact hlen
  · rw [leU32_header, UInt32.le_iff_toNat_le]
    exact hlen.trans_le h

theorem sendFrame_refused (type : UInt8) (payload : List UInt8) (rs : List SendResult) :
    (sendFrame type payload rs).ret = some false ∧ (sendFrame type payload rs).accepted = [] ↔
      refuses retried rs = true := by
  rw [← fullWrite₂_refused retried rs 5 payload.length, sendFrame_eq]
  have hne : frameBytes type payload ≠ [] := by simp [frameBytes, buildHeader]
  simp only [List.take_eq_nil_iff, hne, or_false]
  rfl

/-- `sendFrame` keeps to the limit exactly when the payload does, or when the first call of `send`
that is not retried takes nothing. -/
theorem sendsLegally_iff (type : UInt8) (payload : List UInt8) (rs : List SendResult) :
    SendsLegally type payload rs ↔
      payload.length ≤ llMaxPayload.toNat ∨ refuses retried rs = true := by
  constructor
  · intro h
    by_cases hlen : payload.length ≤ llMaxPayload.toNat
    · exact .inl hlen
    · exact .inr ((sendFrame_refused type payload rs).mp (h.refused (Nat.lt_of_not_le hlen)))
  · rintro (hlen | hrefused)
    · refine ⟨fun hret => ?_, fun hlong => absurd hlong (Nat.not_lt.mpr hlen)⟩
      rw [sendFrame_complete hret]
      exact frameBytes_legal type hlen
    · have hnone := (sendFrame_refused type payload rs).mpr hrefused
      refine ⟨fun hret => ?_, fun _ => hnone⟩
      rw [hnone.1] at hret
      cases hret

/-- A payload of one byte more than the limit is sent whole, and its frame is not legal. -/
theorem long_payload_sent :
    (sendFrame frameVideo (List.replicate (llMaxPayload.toNat + 1) 0)
        [.wrote 6, .wrote (llMaxPayload.toNat + 1)]).ret = some true ∧
      ¬ ∀ type payload rs, SendsLegally type payload rs := by
  constructor
  · rw [sendFrame_eq, List.length_replicate]
    rfl
  · intro h
    have hrefused := (sendFrame_refused frameVideo (List.replicate (llMaxPayload.toNat + 1) 0)
      [.wrote 6]).mp ((h _ _ _).refused (by rw [List.length_replicate]; exact Nat.lt_succ_self _))
    cases hrefused

end Patrol.Network
