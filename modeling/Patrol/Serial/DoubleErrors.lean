import Mathlib.GroupTheory.OrderOfElement
import Mathlib.Tactic.NormNum.Prime
import Patrol.Serial.ErrorDetection
import Patrol.Serial.Sending

/-! What the CRC misses.  `X` has the order 127 modulo the generator, so two flipped bits are missed
exactly if their distance is a multiple of 127: in a frame with at most thirteen bytes of payload none
are, and in every longer one some are. -/

namespace Patrol.Serial

open ProofKit Polynomial

theorem crcPoly_coeff_zero : crcPoly.coeff 0 ≠ 0 := by
  simp [crcPoly]

/-- Where the register comes back to its start after some steps, so does `X`. -/
theorem root_pow_of_cycle {n : Nat}
    (h : Nat.repeat (feedback crcTaps) n (byteBits 1) = byteBits 1) :
    AdjoinRoot.root crcPoly ^ n = 1 := by
  have hone : bitPoly (byteBits 1) = 1 := by
    have hbits : byteBits 1 = [false, false, false, false, false, false, false, true] := by decide
    rw [hbits]
    simp [bitPoly]
  have hmk := (mk_repeat_feedback crcPoly_eq n (show (byteBits 1).length = _ from rfl)).2
  rw [h, hone, mul_one, map_one, map_pow, AdjoinRoot.mk_X] at hmk
  exact hmk.symm

theorem root_ne_one : AdjoinRoot.root crcPoly ≠ 1 := by
  intro hroot
  have hdvd : crcPoly ∣ X - C 1 := by
    rw [← AdjoinRoot.mk_eq_mk, AdjoinRoot.mk_X, hroot, map_one, map_one]
  have hle := natDegree_le_of_dvd hdvd (X_sub_C_ne_zero 1)
  rw [crcPoly_natDegree, natDegree_X_sub_C] at hle
  exact absurd hle (by decide)

theorem orderOf_root : orderOf (AdjoinRoot.root crcPoly) = 127 := by
  have : Fact (Nat.Prime 127) := ⟨by norm_num⟩
  exact orderOf_eq_prime (root_pow_of_cycle (by decide +kernel)) root_ne_one

/-- Two flipped bits are missed if and only if their distance is a multiple of 127. -/
theorem dvd_setTwice_iff {i j : Nat} {e : List Bool} (h : SetTwice i j e) :
    crcPoly ∣ bitPoly e ↔ 127 ∣ j - i := by
  rw [dvd_twice_iff crcPoly_coeff_zero h, orderOf_root]

/-! ### Corrupted frames -/

/-- An error pattern makes the CRC wrong if and only if the generator does not divide it. -/
theorem crc8_corrupt_iff {data e : List UInt8} (hlen : e.length = data.length + 1) (len : UInt8)
    {data' : List UInt8} {crc' : UInt8}
    (h : xorBytes (data ++ [crc8 (len :: data)]) e = data' ++ [crc']) :
    crc8 (len :: data') = crc' ↔ crcPoly ∣ bitPoly (bitsOf e) := by
  have hright := (crc8_eq_iff (len :: data) _).mp rfl
  have heq : (data ++ [crc8 (len :: data)]).length = e.length := by
    rw [hlen, List.length_append]
    rfl
  have hcons : ∀ bs, bitsOf (len :: bs) = byteBits len ++ bitsOf bs := fun _ => rfl
  have hbits : (bitsOf (data ++ [crc8 (len :: data)])).length = (bitsOf e).length := by
    rw [bitsOf_length, bitsOf_length, heq]
  rw [List.cons_append, hcons, bitPoly_append, hbits] at hright
  rw [crc8_eq_iff, List.cons_append, ← h, hcons, bitsOf_xor heq, bitPoly_append, bitPoly_xor hbits,
    xorBits_length hbits, ← add_assoc]
  exact dvd_add_right hright

/-- A corrupted frame has its start bytes and its length, and a CRC that is right exactly if the
generator divides the error pattern. -/
theorem SerialFrame.corrupt_split (f : SerialFrame) {e : List UInt8}
    (hlen : e.length = f.payload.length + 2) :
    ∃ data' crc', f.corrupt e = sof1 :: sof2 :: (f.payloadLen + 1) :: (data' ++ [crc']) ∧
      data'.length = (f.payloadLen + 1).toNat ∧
      (crc8 ((f.payloadLen + 1) :: data') = crc' ↔ crcPoly ∣ bitPoly (bitsOf e)) := by
  generalize hbytes :
    (f.cmd :: f.payload) ++ [crc8 ((f.payloadLen + 1) :: f.cmd :: f.payload)] = bytes
  have hlength : bytes.length = f.payload.length + 2 := by
    rw [← hbytes]
    simp
  have hxor := xorBytes_length (hlen.trans hlength.symm)
  obtain ⟨data', crc', hsplit⟩ : ∃ data' crc', xorBytes bytes e = data' ++ [crc'] := by
    refine ⟨_, _, (List.dropLast_concat_getLast ?_).symm⟩
    apply List.ne_nil_of_length_pos
    omega
  refine ⟨data', crc', ?_, ?_, ?_⟩
  · rw [SerialFrame.corrupt, f.bytes_eq, ← hsplit, ← hbytes]
    rfl
  · rw [hsplit, List.length_append, hlength] at hxor
    rw [f.len_toNat]
    exact Nat.succ.inj hxor
  · rw [← hbytes] at hsplit
    exact crc8_corrupt_iff (by simp [hlen]) (f.payloadLen + 1) hsplit

/-- No run of `poll` accepts a frame at a position of a stream. -/
def RejectedAt (pos : Nat) (stream : List UInt8) : Prop :=
  ∀ rs fd, rs.flatMap ReadResult.bytes = stream →
    ∃ log s', pollRun rs (listening fd) 0 = some (log, s') ∧ ∀ d ∈ log, d.1 ≠ pos

/-- A stream is delivered as one frame. -/
def DeliveredAs (f : SerialFrame) (stream : List UInt8) : Prop :=
  ∀ rs fd, rs.flatMap ReadResult.bytes = stream →
    ∃ d s', pollRun rs (listening fd) 0 = some ([d], s') ∧ d.1 = 0 ∧ d.2.view = f.view

/-- An error pattern that the generator does not divide is rejected wherever the frame lies. -/
theorem SerialFrame.rejected_of_not_dvd (f : SerialFrame) {e : List UInt8}
    (hlen : e.length = f.payload.length + 2) (hdvd : ¬ crcPoly ∣ bitPoly (bitsOf e))
    (before after : List UInt8) :
    RejectedAt before.length (before ++ f.corrupt e ++ after) := by
  obtain ⟨data', crc', hcorrupt, hdata', hcrc⟩ := f.corrupt_split hlen
  have hpos : 0 < (f.payloadLen + 1).toNat := by
    rw [f.len_toNat]
    exact Nat.succ_pos _
  have hdrop : (before ++ f.corrupt e ++ after).drop before.length =
      sof1 :: sof2 :: (f.payloadLen + 1) :: (data' ++ crc' :: after) := by
    rw [hcorrupt, List.append_assoc, List.drop_left]
    simp
  obtain ⟨-, hskip⟩ := crc_fails hdrop hdata' hpos (mt hcrc.mp hdvd)
  intro rs fd hrs
  obtain ⟨log, s', hrun, -, hcalls⟩ := pollRun_listening rs fd
  refine ⟨log, s', hrun, ?_⟩
  intro d hd hd'
  obtain ⟨x, hx, hcall⟩ := forall₂_mem_left hcalls.flip hd
  obtain ⟨t, ht, -, n, htake⟩ := (serialScanner.mem_located 0).mp hx
  rw [show t = before.length by rw [← hd', hcall.position, ht, Nat.zero_add], hrs, hskip] at htake
  cases htake

theorem eq_zero_of_xorBytes {a e : List UInt8} (hlen : e.length = a.length)
    (h : xorBytes a e = a) : ∀ b ∈ e, b = 0 := by
  induction a generalizing e with
  | nil =>
    rw [List.eq_nil_of_length_eq_zero hlen]
    nofun
  | cons x a ih =>
    cases e with
    | nil => nofun
    | cons y e =>
      rw [xorBytes, List.zipWith_cons_cons, List.cons.injEq] at h
      have hy : y = 0 := by
        apply (UInt8.xor_right_inj x).mp
        rw [h.1, UInt8.xor_zero]
      exact List.forall_mem_cons.mpr ⟨hy, ih (Nat.succ.inj hlen) h.2⟩

/-- Frames with the same command and payload have the same bytes. -/
theorem SerialFrame.bytes_of_view {f f' : SerialFrame} (h : f'.view = f.view) :
    f'.bytes = f.bytes := by
  obtain ⟨hcmd, hrest⟩ := Prod.mk.inj h
  have hpayload : f'.payload = f.payload := Option.some.inj (Prod.mk.inj hrest).1
  rw [f.bytes_eq, f'.bytes_eq, SerialFrame.payloadLen, SerialFrame.payloadLen, hpayload, hcmd]

/-- One that it divides makes the frame another frame, with as many bytes. -/
theorem SerialFrame.frame_of_dvd (f : SerialFrame) {e : List UInt8}
    (hlen : e.length = f.payload.length + 2) (hne : ∃ b ∈ e, b ≠ 0)
    (hdvd : crcPoly ∣ bitPoly (bitsOf e)) :
    ∃ f' : SerialFrame, f'.bytes = f.corrupt e ∧ f'.payload.length = f.payload.length ∧
      f'.view ≠ f.view := by
  obtain ⟨data', crc', hcorrupt, hdata', hcrc⟩ := f.corrupt_split hlen
  rw [f.len_toNat] at hdata'
  obtain ⟨cmd, payload, rfl⟩ := List.exists_cons_of_length_eq_add_one hdata'
  have hpayload : payload.length = f.payload.length := Nat.succ.inj hdata'
  have hmax : payload.length ≤ 254 := hpayload ▸ f.le_max
  obtain ⟨f', hcmd, hptr⟩ : ∃ f' : SerialFrame, f'.cmd = cmd ∧ f'.payload = payload :=
    ⟨⟨cmd, some payload, hmax⟩, rfl, rfl⟩
  have hbytes : f'.bytes = f.corrupt e := by
    rw [f'.bytes_eq, SerialFrame.payloadLen, hptr, hpayload, hcmd, hcorrupt, ← hcrc.mpr hdvd]
    rfl
  refine ⟨f', hbytes, hptr ▸ hpayload, ?_⟩
  intro hview
  have hsame := SerialFrame.bytes_of_view hview
  rw [hbytes, SerialFrame.corrupt] at hsame
  have hdrop : xorBytes (f.bytes.drop 3) e = f.bytes.drop 3 := by
    rw [← List.append_right_inj (f.bytes.take 3), hsame, List.take_append_drop]
  have hlen3 : e.length = (f.bytes.drop 3).length := by
    rw [hlen, List.length_drop, f.bytes_length, f.len_toNat]
    omega
  obtain ⟨b, hb, hb0⟩ := hne
  exact hb0 (eq_zero_of_xorBytes hlen3 hdrop b hb)

/-- The bytes of one frame are delivered as it. -/
theorem SerialFrame.deliveredAs (f : SerialFrame) : DeliveredAs f f.bytes := by
  intro rs fd hrs
  have hstarts := f.startsFrame []
  rw [List.append_nil] at hstarts
  have htake := hstarts.verdict
  have hlocated : located 0 (serialScanner.scan f.bytes).1 =
      [(0, ⟨f.payloadLen + 1, f.cmd, f.payload⟩)] := by
    rw [serialScanner.scan_next (by simp [htake]), htake, Verdict.width_take, ← f.bytes_length,
      List.drop_length, serialScanner.scan_wait serialScanner.verdict_nil]
    rfl
  obtain ⟨log, s', hrun, -, hcalls⟩ := pollRun_listening rs fd
  rw [hrs, hlocated] at hcalls
  obtain ⟨d, rest, hcall, hrest, rfl⟩ := List.forall₂_cons_left_iff.mp hcalls
  rw [List.forall₂_nil_left_iff.mp hrest] at hrun
  have hlen : f.payloadLen + 1 ≠ 0 := by
    intro h0
    have hone := f.len_toNat
    rw [h0] at hone
    cases hone
  refine ⟨d, s', hrun, hcall.position, ?_⟩
  rw [hcall.view, Received.view, if_neg hlen]
  rfl

theorem DeliveredAs.not_rejected {f : SerialFrame} {stream : List UInt8}
    (h : DeliveredAs f stream) : ¬ RejectedAt 0 stream := by
  intro hrejected
  have hrs := readsOf_bytes stream
  obtain ⟨d, s', hrun, hpos, -⟩ := h (readsOf stream) 0 hrs
  obtain ⟨log, s'', hrun', hnone⟩ := hrejected (readsOf stream) 0 hrs
  rw [hrun] at hrun'
  cases hrun'
  exact hnone d List.mem_cons_self hpos

theorem true_mem_of_setTwice {i j : Nat} {e : List UInt8} (h : SetTwice i j (bitsOf e)) :
    ∃ b ∈ e, b ≠ 0 := by
  by_contra hzero
  have hbits : ∀ x ∈ bitsOf e, x = false := by
    intro x hx
    obtain ⟨l, hl, hxl⟩ := List.mem_flatten.mp hx
    obtain ⟨b, hb, rfl⟩ := List.mem_map.mp hl
    obtain rfl : b = 0 := by
      by_contra hne
      exact hzero ⟨b, hb, hne⟩
    have hfalse : byteBits 0 = List.replicate 8 false := by decide
    rw [hfalse] at hxl
    exact List.eq_of_mem_replicate hxl
  have hmem := List.mem_of_getElem? ((h.iff i).mpr (.inl rfl))
  exact absurd (hbits true hmem) (by decide)

/-- A pattern that flips at most three bits of a short frame is not divided. -/
theorem not_dvd_of_count {e : List UInt8} (hne : ∃ b ∈ e, b ≠ 0) (hlen : e.length ≤ 15)
    (hcount : (bitsOf e).count true ≤ 3) : ¬ crcPoly ∣ bitPoly (bitsOf e) := by
  have hpos := List.count_pos_iff.mpr (true_mem_bitsOf hne)
  by_cases htwo : (bitsOf e).count true = 2
  · obtain ⟨i, j, h⟩ := setTwice_of_count htwo
    rw [dvd_setTwice_iff h]
    have hlt := h.lt
    have hbits := h.lt_length
    rw [bitsOf_length] at hbits
    omega
  · apply not_dvd_detected hne
    refine .inl (Nat.odd_iff.mpr ?_)
    omega

/-- The first bit and the bit 127 after it. -/
def farPair (n : Nat) : List UInt8 := 0x80 :: List.replicate 14 0 ++ 1 :: List.replicate n 0

theorem bitsOf_farPair (n : Nat) :
    bitsOf (farPair n) =
      bitsOf (0x80 :: List.replicate 14 0 ++ [1]) ++ bitsOf (List.replicate n 0) := by
  rw [← bitsOf_append]
  simp [farPair]

theorem not_mem_bitsOf_zeros (n : Nat) : true ∉ bitsOf (List.replicate n 0) := by
  intro hmem
  obtain ⟨l, hl, hxl⟩ := List.mem_flatten.mp hmem
  obtain ⟨b, hb, rfl⟩ := List.mem_map.mp hl
  rw [List.eq_of_mem_replicate hb] at hxl
  exact absurd hxl (by decide)

theorem farPair_count (n : Nat) : (bitsOf (farPair n)).count true = 2 := by
  rw [bitsOf_farPair, List.count_append, List.count_eq_zero.mpr (not_mem_bitsOf_zeros n)]
  decide +kernel

theorem farPair_set (n : Nat) : SetTwice 0 127 (bitsOf (farPair n)) := by
  have hlength : (bitsOf (0x80 :: List.replicate 14 0 ++ [1])).length = 128 := by decide +kernel
  refine ⟨by decide, fun k => ?_⟩
  rw [bitsOf_farPair]
  by_cases hk : k < 128
  · rw [List.getElem?_append_left (hlength ▸ hk)]
    have hall : ∀ k < 128, (bitsOf (0x80 :: List.replicate 14 0 ++ [1]))[k]? = some true ↔
        k = 0 ∨ k = 127 := by decide +kernel
    exact hall k hk
  · rw [List.getElem?_append_right (hlength ▸ Nat.le_of_not_lt hk)]
    constructor
    · intro h
      exact absurd (List.mem_of_getElem? h) (not_mem_bitsOf_zeros n)
    · omega

/-- Two flipped bits, anywhere from the command to the CRC of a frame, are missed exactly if their
distance is a multiple of 127 bits: then `poll` delivers another frame of the same length in place of
the one that was sent, and otherwise it accepts no frame there, whatever comes before and after.  So
every error of up to three bits is rejected if and only if the payload has at most thirteen bytes. -/
theorem double_errors (f : SerialFrame) :
    (∀ e i j, e.length = f.payload.length + 2 → SetTwice i j (bitsOf e) →
      (127 ∣ j - i → ∃ f' : SerialFrame, f'.view ≠ f.view ∧
        f'.payload.length = f.payload.length ∧ DeliveredAs f' (f.corrupt e)) ∧
      (¬ 127 ∣ j - i → ∀ before after,
        RejectedAt before.length (before ++ f.corrupt e ++ after))) ∧
    ((∀ e : List UInt8, e.length = f.payload.length + 2 → (∃ b ∈ e, b ≠ 0) →
        (bitsOf e).count true ≤ 3 → ∀ before after,
        RejectedAt before.length (before ++ f.corrupt e ++ after)) ↔
      f.payload.length ≤ 13) := by
  have hmissed : ∀ e i j, e.length = f.payload.length + 2 → SetTwice i j (bitsOf e) →
      127 ∣ j - i → ∃ f' : SerialFrame, f'.view ≠ f.view ∧
        f'.payload.length = f.payload.length ∧ DeliveredAs f' (f.corrupt e) := by
    intro e i j hlen h hdvd
    obtain ⟨f', hbytes, hlen', hview⟩ := f.frame_of_dvd hlen (true_mem_of_setTwice h)
      ((dvd_setTwice_iff h).mpr hdvd)
    exact ⟨f', hview, hlen', hbytes ▸ f'.deliveredAs⟩
  refine ⟨?_, ?_, ?_⟩
  · intro e i j hlen h
    refine ⟨hmissed e i j hlen h, fun hdvd before after => ?_⟩
    exact f.rejected_of_not_dvd hlen (mt (dvd_setTwice_iff h).mp hdvd) before after
  · intro hall
    by_contra hlong
    -- the pair of bits that the first long frame has room for
    have hset := farPair_set (f.payload.length - 14)
    have hlen : (farPair (f.payload.length - 14)).length = f.payload.length + 2 := by
      simp only [farPair, List.length_append, List.length_cons, List.length_replicate]
      omega
    have hcount := farPair_count (f.payload.length - 14)
    obtain ⟨f', -, -, hdelivered⟩ := hmissed _ 0 127 hlen hset (by decide)
    apply hdelivered.not_rejected
    have hrejected := hall _ hlen (true_mem_of_setTwice hset) (by omega) [] []
    rwa [List.nil_append, List.append_nil] at hrejected
  · intro hshort e hlen hne hcount before after
    exact f.rejected_of_not_dvd hlen (not_dvd_of_count hne (by omega) hcount) before after

end Patrol.Serial
