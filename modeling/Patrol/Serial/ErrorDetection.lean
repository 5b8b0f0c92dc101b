import Patrol.ProofKit.CyclicCode
import Patrol.Serial.Delivery

/-! What the CRC detects.  The bits from LEN to the CRC of a frame are a multiple of the generator,
so `poll` rejects a corrupted frame whose error pattern is none. -/

namespace Patrol.Serial

open ProofKit Polynomial

/-- The bits of a byte, the most significant first. -/
def byteBits (b : UInt8) : List Bool := [7, 6, 5, 4, 3, 2, 1, 0].map b.toNat.testBit

def bitsOf (bs : List UInt8) : List Bool := (bs.map byteBits).flatten

/-- The polynomial 0x07, without its top term. -/
def crcTaps : List Bool := byteBits 0x07

/-- The generator of the CRC. -/
noncomputable def crcPoly : (ZMod 2)[X] := X ^ 8 + X ^ 2 + X + 1

theorem byteBits_length (b : UInt8) : (byteBits b).length = 8 := rfl

theorem bitsOf_append (a b : List UInt8) : bitsOf (a ++ b) = bitsOf a ++ bitsOf b := by
  rw [bitsOf, List.map_append, List.flatten_append]
  rfl

theorem byteBits_xor (a b : UInt8) : byteBits (a ^^^ b) = xorBits (byteBits a) (byteBits b) := by
  simp only [byteBits, List.map_cons, List.map_nil, UInt8.toNat_xor, Nat.testBit_xor]
  rfl

/-- A step of the CRC is a step of the shift register. -/
theorem byteBits_crc8Bit (c : UInt8) : byteBits (crc8Bit c) = feedback crcTaps (byteBits c) := by
  have hall : ∀ n < 256, byteBits (crc8Bit (UInt8.ofNat n)) =
      feedback crcTaps (byteBits (UInt8.ofNat n)) := by
    decide +kernel
  have hc := hall c.toNat c.toNat_lt
  rwa [UInt8.ofNat_toNat] at hc

theorem byteBits_injective {a b : UInt8} (h : byteBits a = byteBits b) : a = b := by
  apply UInt8.toNat_inj.mp
  apply Nat.eq_of_testBit_eq
  intro i
  by_cases hi : i < 8
  · simp only [byteBits, List.map_cons, List.map_nil, List.cons.injEq, and_true] at h
    obtain ⟨h7, h6, h5, h4, h3, h2, h1, h0⟩ := h
    interval_cases i <;> assumption
  · have hpow : 2 ^ 8 ≤ 2 ^ i := Nat.pow_le_pow_right (by decide) (Nat.not_lt.mp hi)
    rw [Nat.testBit_lt_two_pow (a.toNat_lt.trans_le hpow),
      Nat.testBit_lt_two_pow (b.toNat_lt.trans_le hpow)]

theorem byteBits_crc8 (data : List UInt8) :
    byteBits (crc8 data) = remainder crcTaps (data.map byteBits) := by
  have hrepeat : ∀ n c, byteBits (Nat.repeat crc8Bit n c) =
      Nat.repeat (feedback crcTaps) n (byteBits c) := by
    intro n c
    induction n with
    | zero => rfl
    | succ n ih => rw [Nat.repeat, Nat.repeat, byteBits_crc8Bit, ih]
  have hfold : ∀ c, byteBits (data.foldl (fun crc b => Nat.repeat crc8Bit 8 (crc ^^^ b)) c) =
      (data.map byteBits).foldl
        (fun r b => Nat.repeat (feedback crcTaps) crcTaps.length (xorBits r b)) (byteBits c) := by
    induction data with
    | nil => exact fun c => rfl
    | cons b data ih =>
      intro c
      rw [List.foldl_cons, ih, hrepeat, byteBits_xor]
      rfl
  exact hfold 0

theorem crcPoly_eq : crcPoly = X ^ crcTaps.length + bitPoly crcTaps := by
  have htaps : crcTaps = [false, false, false, false, false, true, true, true] := by decide
  rw [crcPoly, htaps]
  simp [bitPoly]
  ring

/-- A CRC is right if and only if the generator divides the bits of the data with the CRC. -/
theorem crc8_eq_iff (data : List UInt8) (crc : UInt8) :
    crc8 data = crc ↔ crcPoly ∣ bitPoly (bitsOf (data ++ [crc])) := by
  have hblocks : ∀ b ∈ data.map byteBits, b.length = crcTaps.length := by
    intro b hb
    obtain ⟨x, -, rfl⟩ := List.mem_map.mp hb
    rfl
  have hiff := remainder_eq_iff crcPoly_eq hblocks (show (byteBits crc).length = _ from rfl)
  rw [← byteBits_crc8] at hiff
  have hlast : bitsOf [crc] = byteBits crc := List.append_nil _
  rw [bitsOf_append, hlast]
  exact Iff.trans ⟨fun h => congrArg byteBits h, byteBits_injective⟩ hiff

/-! ### Corrupted frames -/

/-- Bytes with an error pattern added. -/
def xorBytes : List UInt8 → List UInt8 → List UInt8 := List.zipWith (· ^^^ ·)

/-- The bytes of a frame with an error pattern added from the command to the CRC. -/
def SerialFrame.corrupt (f : SerialFrame) (e : List UInt8) : List UInt8 :=
  f.bytes.take 3 ++ xorBytes (f.bytes.drop 3) e

/-- An odd number of bits are flipped, or all flipped bits lie within eight consecutive ones. -/
def Detected (e : List UInt8) : Prop :=
  Odd ((bitsOf e).count true) ∨ ∃ i, Within 8 i (bitsOf e)

theorem bitsOf_xor {a b : List UInt8} (h : a.length = b.length) :
    bitsOf (xorBytes a b) = xorBits (bitsOf a) (bitsOf b) := by
  induction a generalizing b with
  | nil =>
    cases List.eq_nil_of_length_eq_zero h.symm
    rfl
  | cons x a ih =>
    cases b with
    | nil => cases h
    | cons y b =>
      have hrec : bitsOf (xorBytes a b) = xorBits (bitsOf a) (bitsOf b) := ih (Nat.succ.inj h)
      have hcons : ∀ (x : UInt8) (a : List UInt8), bitsOf (x :: a) = byteBits x ++ bitsOf a :=
        fun _ _ => rfl
      have hxor : xorBytes (x :: a) (y :: b) = (x ^^^ y) :: xorBytes a b := rfl
      rw [hxor, hcons, hcons, hcons, hrec, byteBits_xor]
      exact (List.zipWith_append (by rw [byteBits_length, byteBits_length])).symm

theorem bitsOf_length (bs : List UInt8) : (bitsOf bs).length = 8 * bs.length := by
  induction bs with
  | nil => rfl
  | cons b bs ih =>
    have hcons : bitsOf (b :: bs) = byteBits b ++ bitsOf bs := rfl
    rw [hcons, List.length_append, ih, byteBits_length, List.length_cons]
    omega

theorem true_mem_bitsOf {e : List UInt8} (h : ∃ b ∈ e, b ≠ 0) : true ∈ bitsOf e := by
  obtain ⟨b, hb, hne⟩ := h
  by_contra hnone
  apply hne
  apply byteBits_injective
  have hfalse : ∀ x ∈ byteBits b, x = false := by
    intro x hx
    apply Bool.eq_false_iff.mpr
    rintro rfl
    exact hnone (List.mem_flatten_of_mem (List.mem_map_of_mem hb) hx)
  exact List.eq_replicate_of_mem hfalse

theorem crcPoly_natDegree : crcPoly.natDegree = 8 := by
  rw [crcPoly]
  compute_degree!

/-- The generator divides no error pattern that is detected. -/
theorem not_dvd_detected {e : List UInt8} (hne : ∃ b ∈ e, b ≠ 0) (h : Detected e) :
    ¬ crcPoly ∣ bitPoly (bitsOf e) := by
  rcases h with hodd | ⟨i, hburst⟩
  · apply not_dvd_of_odd _ hodd
    have hfour : crcPoly.eval 1 = ((4 : Nat) : ZMod 2) := by
      simp [crcPoly]
      norm_num
    rw [hfour]
    rfl
  · rw [← crcPoly_natDegree] at hburst
    apply not_dvd_of_burst _ (true_mem_bitsOf hne) hburst
    simp [crcPoly]

/-- An error pattern that is detected makes the CRC wrong, whatever the message is. -/
theorem crc8_corrupt {data e : List UInt8} (hlen : e.length = data.length + 1)
    (hne : ∃ b ∈ e, b ≠ 0) (hdet : Detected e) (len : UInt8) {data' : List UInt8} {crc' : UInt8}
    (h : xorBytes (data ++ [crc8 (len :: data)]) e = data' ++ [crc']) :
    crc8 (len :: data') ≠ crc' := by
  have hright := (crc8_eq_iff (len :: data) _).mp rfl
  intro hcrc
  have hwrong := (crc8_eq_iff (len :: data') crc').mp hcrc
  have heq : (data ++ [crc8 (len :: data)]).length = e.length := by
    rw [hlen, List.length_append]
    rfl
  have hcons : ∀ bs, bitsOf (len :: bs) = byteBits len ++ bitsOf bs := fun _ => rfl
  have hbits : (bitsOf (data ++ [crc8 (len :: data)])).length = (bitsOf e).length := by
    rw [bitsOf_length, bitsOf_length, heq]
  rw [List.cons_append, hcons, bitPoly_append, hbits] at hright
  rw [List.cons_append, ← h, hcons, bitsOf_xor heq, bitPoly_append, bitPoly_xor hbits,
    xorBits_length hbits, ← add_assoc] at hwrong
  exact not_dvd_detected hne hdet ((dvd_add_right hright).mp hwrong)

/-- The comparison of `crcCalc` with `crcRecv` at `off` fails. -/
def CrcFails (rxBuf : List UInt8) (off : Nat) : Prop :=
  ∃ len data crcRecv, rxBuf[off + 2]? = some len ∧
    slice rxBuf (off + 2) (len.toNat + 4 - 3) = some data ∧
    rxBuf[off + (len.toNat + 4) - 1]? = some crcRecv ∧ crc8 data ≠ crcRecv

/-- A loop that comes to the start bytes of a whole frame with a wrong CRC skips one byte. -/
theorem crc_fails {rxBuf body after : List UInt8} {off : Nat} {len crc : UInt8}
    (hdrop : rxBuf.drop off = sof1 :: sof2 :: len :: (body ++ crc :: after))
    (hlen : body.length = len.toNat) (hpos : 0 < len.toNat) (hcrc : crc8 (len :: body) ≠ crc) :
    CrcFails rxBuf off ∧ serialScanner.verdict (rxBuf.drop off) = .skip := by
  have hget : ∀ k, rxBuf[off + k]? = (rxBuf.drop off)[k]? := fun k => by rw [List.getElem?_drop]
  have hlast : (body ++ crc :: after)[len.toNat]? = some crc := by
    rw [← hlen, List.getElem?_append_right (Nat.le_refl _), Nat.sub_self]
    rfl
  have htake : (body ++ crc :: after).take len.toNat = body := by
    rw [← hlen, List.take_left]
  refine ⟨⟨len, len :: body, crc, ?_, ?_, ?_, hcrc⟩, ?_⟩
  · rw [hget, hdrop]
    rfl
  · have hfit := congrArg List.length hdrop
    simp only [List.length_drop, List.length_cons, List.length_append] at hfit
    rw [slice, if_pos (by omega), ← List.drop_drop, hdrop,
      show len.toNat + 4 - 3 = len.toNat + 1 by omega, List.drop_succ_cons, List.drop_succ_cons,
      List.drop_zero, List.take_succ_cons, htake]
  · rw [show off + (len.toNat + 4) - 1 = off + (len.toNat + 3) by omega, hget, hdrop,
      List.getElem?_cons_succ, List.getElem?_cons_succ, List.getElem?_cons_succ, hlast]
  · obtain ⟨b3, b4, more, hmore⟩ : ∃ b3 b4 more, body ++ crc :: after = b3 :: b4 :: more := by
      rcases body with _ | ⟨b3, _ | ⟨b4, body⟩⟩
      · exact absurd hlen (Nat.ne_of_lt hpos)
      · exact ⟨_, _, _, rfl⟩
      · exact ⟨_, _, _, rfl⟩
    rw [hdrop, serialScanner_verdict]
    rw [hmore] at hlast htake ⊢
    simp [serialVerdict, hlast, htake, hcrc]

theorem xorBytes_length {a b : List UInt8} (h : b.length = a.length) :
    (xorBytes a b).length = a.length := by
  rw [xorBytes, List.length_zipWith, h, Nat.min_self]

/-- A corrupted frame still has its start bytes and its length, and a CRC that is wrong. -/
theorem SerialFrame.corrupt_wrong (f : SerialFrame) {e : List UInt8}
    (hlen : e.length = f.payload.length + 2) (hne : ∃ b ∈ e, b ≠ 0) (hdet : Detected e) :
    ∃ data' crc', f.corrupt e = sof1 :: sof2 :: (f.payloadLen + 1) :: (data' ++ [crc']) ∧
      data'.length = (f.payloadLen + 1).toNat ∧ crc8 ((f.payloadLen + 1) :: data') ≠ crc' := by
  generalize hbytes :
    (f.cmd :: f.payload) ++ [crc8 ((f.payloadLen + 1) :: f.cmd :: f.payload)] = bytes
  have hlength : bytes.length = f.payload.length + 2 := by
    rw [← hbytes]
    simp
  have hxor := xorBytes_length (hlen.trans hlength.symm)
  obtain ⟨data', crc', hsplit⟩ : ∃ data' crc', xorBytes bytes e = data' ++ [crc'] := by
    refine ⟨_, _, (List.dropLast_concat_getLast ?_).symm⟩
    apply List.ne_nil_of_length_pos
    omega
  refine ⟨data', crc', ?_, ?_, ?_⟩
  · rw [SerialFrame.corrupt, f.bytes_eq, ← hsplit, ← hbytes]
    rfl
  · rw [hsplit, List.length_append, hlength] at hxor
    rw [f.len_toNat]
    exact Nat.succ.inj hxor
  · rw [← hbytes] at hsplit
    exact crc8_corrupt (by simp [hlen]) hne hdet (f.payloadLen + 1) hsplit

/-- A frame that is corrupted by an error pattern that is detected, wherever it lies in a stream,
fails the comparison of its CRC, and no run of `poll` accepts a frame there. -/
theorem corrupted_rejected (f : SerialFrame) {e : List UInt8}
    (hlen : e.length = f.payload.length + 2) (hne : ∃ b ∈ e, b ≠ 0) (hdet : Detected e)
    (before after : List UInt8) :
    CrcFails (before ++ f.corrupt e ++ after) before.length ∧
      (∀ size, scanStep size (before ++ f.corrupt e ++ after) before.length = some .skip) ∧
      ∀ rs fd, rs.flatMap ReadResult.bytes = before ++ f.corrupt e ++ after →
        ∃ log s', pollRun rs (listening fd) 0 = some (log, s') ∧
          ∀ d ∈ log, d.1 ≠ before.length := by
  obtain ⟨data', crc', hcorrupt, hdata', hcrc⟩ := f.corrupt_wrong hlen hne hdet
  have hpos : 0 < (f.payloadLen + 1).toNat := by
    rw [f.len_toNat]
    exact Nat.succ_pos _
  have hdrop : (before ++ f.corrupt e ++ after).drop before.length =
      sof1 :: sof2 :: (f.payloadLen + 1) :: (data' ++ crc' :: after) := by
    rw [hcorrupt, List.append_assoc, List.drop_left]
    simp
  obtain ⟨hfails, hskip⟩ := crc_fails hdrop hdata' hpos hcrc
  refine ⟨hfails, fun size => ?_, ?_⟩
  · rw [scanStep_eq size (by simp), hskip]
    rfl
  intro rs fd hrs
  obtain ⟨log, s', hrun, -, hcalls⟩ := pollRun_listening rs fd
  refine ⟨log, s', hrun, ?_⟩
  intro d hd hd'
  obtain ⟨x, hx, hcall⟩ := forall₂_mem_left hcalls.flip hd
  obtain ⟨t, ht, -, n, htake⟩ := (serialScanner.mem_located 0).mp hx
  rw [show t = before.length by rw [← hd', hcall.position, ht, Nat.zero_add], hrs, hskip] at htake
  cases htake

/-- A speed command with the burst 01 80 in its payload. -/
theorem corrupted_rejected_speed :
    CrcFails ([] ++ SerialFrame.corrupt ⟨0x11, some [100, 0], by decide⟩ [0, 1, 0x80, 0] ++ [])
        0 ∧
      (∀ size, scanStep size
        ([] ++ SerialFrame.corrupt ⟨0x11, some [100, 0], by decide⟩ [0, 1, 0x80, 0] ++ []) 0 =
          some .skip) ∧
      ∀ rs fd, rs.flatMap ReadResult.bytes =
          [] ++ SerialFrame.corrupt ⟨0x11, some [100, 0], by decide⟩ [0, 1, 0x80, 0] ++ [] →
        ∃ log s', pollRun rs (listening fd) 0 = some (log, s') ∧ ∀ d ∈ log, d.1 ≠ 0 := by
  apply corrupted_rejected ⟨0x11, some [100, 0], by decide⟩ rfl ⟨1, by simp, by decide⟩
  refine .inr ⟨15, ?_⟩
  intro j hj
  have hall : ∀ j < 32, (bitsOf [0, 1, 0x80, 0])[j]? = some true → 15 ≤ j ∧ j < 15 + 8 := by decide
  exact hall j (List.getElem?_eq_some_iff.mp hj).1 hj

end Patrol.Serial
