import Patrol.Camera.Operations

/-! Who has each buffer: the driver, the caller of `grabFrame`, or nobody. -/

namespace Patrol.Camera

open ProofKit

theorem toInt32_toInt {i : UInt32} (h : i.toNat < 2 ^ 31) : i.toInt32.toInt = i.toNat := by
  rw [← UInt32.toNat_toBitVec] at *
  show i.toBitVec.toInt = _
  rw [BitVec.toInt_eq_toNat_of_lt]
  omega

theorem toUInt32_eq_clamp {i : Int32} (h : 0 ≤ i) : i.toUInt32.toNat = i.toNatClampNeg := by
  show i.toBitVec.toNat = i.toBitVec.toInt.toNat
  rw [Int32.le_iff_toInt_le] at h
  change (0 : Int) ≤ i.toBitVec.toInt at h
  rw [BitVec.toInt_eq_toNat_of_msb, Int.toNat_natCast]
  rwa [BitVec.msb_eq_toInt, decide_eq_false_iff_not, Int.not_lt]

/-- The buffer that the caller of `grabFrame` has. -/
def CameraManager.lent (c : CameraManager) : Finset Nat :=
  if 0 ≤ c.lastIndex then {c.lastIndex.toNatClampNeg} else ∅

/-- What holds in every state: a closed device has nothing, an open one at least two buffers, and
only these can be queued or lent. -/
structure Sound (s : Video) : Prop where
  shut : s.camera.fd < 0 → Shut s
  count : 0 ≤ s.camera.fd → 2 ≤ s.camera.buffers.length
  size : s.camera.buffers.length < UInt32.size
  queued : ∀ k ∈ s.driver.queued, k < s.camera.buffers.length
  lent : ∀ k ∈ s.camera.lent, k < s.camera.buffers.length

theorem Sound.open_or_shut {s : Video} (h : Sound s) : 0 ≤ s.camera.fd ∨ Shut s := by
  by_cases hfd : s.camera.fd < 0
  · exact Or.inr (h.shut hfd)
  · exact Or.inl (Int.not_lt.mp hfd)

theorem sound_init : Sound {} where
  shut _ := ⟨by decide, rfl, rfl, rfl⟩
  count h := absurd h (by decide)
  size := by decide
  queued k hk := absurd hk (Finset.notMem_empty k)
  lent k hk := absurd hk (Finset.notMem_empty k)

theorem lent_none {c : CameraManager} (h : c.lastIndex = -1) : c.lent = ∅ := by
  rw [CameraManager.lent, h, if_neg (by decide)]

theorem mem_lent {c : CameraManager} {k : Nat} :
    k ∈ c.lent ↔ 0 ≤ c.lastIndex ∧ k = c.lastIndex.toUInt32.toNat := by
  rw [CameraManager.lent]
  split
  · next h => simp [h, toUInt32_eq_clamp h]
  · next h => simp [h]

namespace Video

/-- Giving the lent buffer back queues it, where it was not queued. -/
theorem giveBack_true {s s' : Video} {qbuf : Bool} (h : s.giveBack qbuf = (s', true)) :
    ∃ lastIndex, s'.camera = { s.camera with lastIndex } ∧ s'.camera.lent = ∅ ∧
      (∀ k ∈ s.camera.lent, k ∉ s.driver.queued) ∧
      ∀ k, k ∈ s'.driver.queued ↔ k ∈ s.driver.queued ∨ k ∈ s.camera.lent := by
  rw [giveBack] at h
  split at h
  · next hlast =>
    split at h
    · next s₁ hrequeue =>
      cases h
      obtain ⟨hcamera, -, hnew, hqueued⟩ := requeue_true hrequeue
      refine ⟨-1, by rw [hcamera], lent_none rfl, ?_, ?_⟩
      · intro k hk
        rwa [(mem_lent.mp hk).2]
      · intro k
        rw [hqueued, Finset.mem_insert, mem_lent, or_comm]
        simp [hlast]
    · cases h
  · next hlast =>
    cases h
    have hlent : ∀ k, k ∉ s.camera.lent := fun k hk => hlast (mem_lent.mp hk).1
    refine ⟨s.camera.lastIndex, rfl, Finset.eq_empty_of_forall_notMem hlent, ?_, ?_⟩
    · intro k hk
      exact absurd hk (hlent k)
    · intro k
      rw [or_iff_left (hlent k)]

theorem giveBack_false {s s' : Video} {qbuf : Bool} (h : s.giveBack qbuf = (s', false)) :
    s' = s := by
  rw [giveBack] at h
  split at h
  · split at h
    · cases h
    · next s₁ hrequeue =>
      cases h
      exact (requeue_false hrequeue).1
  · cases h

theorem takeFrame_some {s s' : Video} {filled : Option (UInt32 × UInt32)} {data : UInt64}
    {size : UInt32} (h : s.takeFrame filled = (s', some (data, size))) :
    ∃ index : UInt32, index.toNat ∈ s.driver.queued ∧
      s'.camera = { s.camera with lastIndex := index.toInt32 } ∧
      s'.driver.queued = s.driver.queued.erase index.toNat ∧
      data = (s.camera.buffers.getD index.toNat {}).start := by
  rw [takeFrame] at h
  split at h
  · cases h
  · next d index bytesused hdqbuf =>
    cases h
    obtain ⟨hmem, hqueued⟩ := Driver.dqbuf_some hdqbuf
    exact ⟨index, hmem, rfl, hqueued, rfl⟩

theorem takeFrame_none {s s' : Video} {filled : Option (UInt32 × UInt32)}
    (h : s.takeFrame filled = (s', none)) : s' = s := by
  rw [takeFrame] at h
  split at h
  · next d hdqbuf =>
    cases h
    rw [Driver.dqbuf_none hdqbuf]
    rfl
  · cases h

/-- `grabFrame` leaves everything as it is, or gives the lent buffer back and then takes a frame or
none. -/
theorem grabFrame_cases {s s' : Video} {o : GrabOutcome} {frame : Option (UInt64 × UInt32)}
    (h : s.grabFrame o = (s', frame)) :
    (s' = s ∧ frame = none) ∨
      0 ≤ s.camera.fd ∧ s.camera.streaming = true ∧
        ∃ s₁, s.giveBack o.qbuf = (s₁, true) ∧
          (s' = s₁ ∧ frame = none ∨ s₁.takeFrame o.dqbuf = (s', frame)) := by
  rw [grabFrame] at h
  split at h
  · cases h
    exact Or.inl ⟨rfl, rfl⟩
  · next hready =>
    simp only [Bool.or_eq_true, decide_eq_true_eq, Bool.not_eq_true', not_or,
      Bool.not_eq_false] at hready
    split at h
    · next s₁ hback =>
      cases h
      exact Or.inl ⟨giveBack_false hback, rfl⟩
    · next s₁ hback =>
      refine Or.inr ⟨Int.not_lt.mp hready.1, hready.2, s₁, hback, ?_⟩
      split at h
      · cases h
        exact Or.inl ⟨rfl, rfl⟩
      · split at h
        · cases h
          exact Or.inl ⟨rfl, rfl⟩
        · exact Or.inr h

/-- `grabFrame` changes nothing of the camera but which buffer was taken last. -/
theorem grabFrame_camera (s : Video) (o : GrabOutcome) :
    ∃ lastIndex, (s.grabFrame o).1.camera = { s.camera with lastIndex } := by
  rcases hgrab : s.grabFrame o with ⟨s', frame⟩
  rcases grabFrame_cases hgrab with ⟨rfl, -⟩ | ⟨-, -, s₁, hback, htake⟩
  · exact ⟨s'.camera.lastIndex, rfl⟩
  · obtain ⟨lastIndex, hcamera, -⟩ := giveBack_true hback
    rcases htake with ⟨rfl, -⟩ | htake
    · exact ⟨lastIndex, hcamera⟩
    · cases frame with
      | none =>
        rw [takeFrame_none htake]
        exact ⟨lastIndex, hcamera⟩
      | some frame =>
        obtain ⟨index, -, htaken, -⟩ := takeFrame_some htake
        refine ⟨index.toInt32, ?_⟩
        show s'.camera = _
        rw [htaken, hcamera]

end Video

/-! ### Every state -/

theorem Sound.of_shut {s : Video} (h : Shut s) (hlast : s.camera.lastIndex = -1) : Sound s where
  shut _ := h
  count hfd := absurd h.fd (Int.not_lt.mpr hfd)
  size := by
    rw [h.buffers]
    exact Nat.succ_pos _
  queued k hk := by
    rw [h.queued] at hk
    exact absurd hk (Finset.notMem_empty k)
  lent k hk := by
    rw [lent_none hlast] at hk
    exact absurd hk (Finset.notMem_empty k)

/-- What a state keeps whose device is open, and whose buffers are as many as before. -/
theorem Sound.keep {s s' : Video} (h : Sound s) (hfd : 0 ≤ s.camera.fd)
    (hfd' : s'.camera.fd = s.camera.fd) (hbuffers : s'.camera.buffers = s.camera.buffers)
    (hqueued : ∀ k ∈ s'.driver.queued, k < s.camera.buffers.length)
    (hlent : ∀ k ∈ s'.camera.lent, k < s.camera.buffers.length) : Sound s' where
  shut hneg := by
    rw [hfd'] at hneg
    exact absurd hneg (Int.not_lt.mpr hfd)
  count _ := by
    rw [hbuffers]
    exact h.count hfd
  size := by
    rw [hbuffers]
    exact h.size
  queued := by rwa [hbuffers]
  lent := by rwa [hbuffers]

theorem not_lent {c : CameraManager} (h : c.lastIndex = -1) (n : Nat) : ∀ k ∈ c.lent, k < n := by
  intro k hk
  rw [lent_none h] at hk
  exact absurd hk (Finset.notMem_empty k)

theorem Sound.open_step {s : Video} (h : Sound s) (streamOff : Bool) (device : List UInt8)
    (width height fps : Int32) (o : OpenOutcome) :
    Sound (s.open streamOff device width height fps o).1 := by
  rcases hopen : s.open streamOff device width height fps o with ⟨s', ok⟩
  obtain ⟨hlast, hstream, hqueued, ⟨-, hshut⟩ | ⟨-, hfd, count, -, hcount, hbuffers⟩⟩ :=
    Video.open_cases h.open_or_shut hopen
  · exact Sound.of_shut hshut hlast
  · refine ⟨fun hneg => absurd hneg (Int.not_lt.mpr hfd), fun _ => ?_, ?_, ?_, not_lent hlast _⟩
    · rwa [hbuffers]
    · rw [hbuffers]
      exact count.toNat_lt_size
    · intro k hk
      rw [hqueued] at hk
      exact absurd hk (Finset.notMem_empty k)

theorem Sound.start_step {s : Video} (h : Sound s) (o : StartOutcome) :
    Sound (s.startStreaming o).1 := by
  by_cases hbusy : s.camera.fd < 0 ∨ s.camera.streaming = true
  · rwa [Video.startStreaming_busy hbusy]
  · simp only [not_or, Int.not_lt, Bool.not_eq_true] at hbusy
    obtain ⟨hfd, hidle⟩ := hbusy
    rcases hstart : s.startStreaming o with ⟨s', ok⟩
    cases ok with
    | true =>
      obtain ⟨hcamera, -, -, hqueued⟩ := Video.startStreaming_true h.size.le hidle hstart
      apply h.keep hfd (by rw [hcamera]) (by rw [hcamera])
      · intro k hk
        exact ((hqueued k).mp hk).elim (h.queued k) id
      · exact not_lent (by rw [hcamera]) _
    | false =>
      obtain ⟨hcamera, -, hqueued, -, -⟩ := Video.startStreaming_false h.size.le hfd hstart
      apply h.keep hfd (by rw [hcamera]) (by rw [hcamera])
      · intro k hk
        exact (hqueued k hk).elim (h.queued k) id
      · rw [hcamera]
        exact h.lent

theorem Sound.grab_step {s : Video} (h : Sound s) (o : GrabOutcome) :
    Sound (s.grabFrame o).1 := by
  rcases hgrab : s.grabFrame o with ⟨s', frame⟩
  rcases Video.grabFrame_cases hgrab with ⟨rfl, -⟩ | ⟨hfd, -, s₁, hback, htake⟩
  · exact h
  · obtain ⟨lastIndex, hcamera, hlent, -, hqueued⟩ := Video.giveBack_true hback
    have hsound : Sound s₁ := by
      apply h.keep hfd (by rw [hcamera]) (by rw [hcamera])
      · intro k hk
        exact ((hqueued k).mp hk).elim (h.queued k) (h.lent k)
      · intro k hk
        rw [hlent] at hk
        exact absurd hk (Finset.notMem_empty k)
    rcases htake with ⟨rfl, -⟩ | htake
    · exact hsound
    · cases frame with
      | none => rwa [Video.takeFrame_none htake]
      | some frame =>
        obtain ⟨index, hmem, htaken, herase, -⟩ := Video.takeFrame_some htake
        apply hsound.keep (by rwa [hcamera]) (by rw [htaken]) (by rw [htaken])
        · intro k hk
          rw [herase] at hk
          exact hsound.queued k (Finset.mem_of_mem_erase hk)
        · intro k hk
          rw [(mem_lent.mp hk).2, htaken, UInt32.toUInt32_toInt32]
          exact hsound.queued _ hmem

theorem Sound.stop_step {s : Video} (h : Sound s) (streamOff : Bool) :
    Sound (s.stopStreaming streamOff) := by
  by_cases hidle : s.camera.fd < 0 ∨ s.camera.streaming = false
  · rwa [Video.stopStreaming_of_idle hidle]
  · simp only [not_or, Int.not_lt, Bool.not_eq_false] at hidle
    obtain ⟨hfd, hstream⟩ := hidle
    rw [Video.stopStreaming_of_streaming hfd hstream]
    refine h.keep hfd ?_ ?_ ?_ ?_
    · rfl
    · rfl
    · intro k hk
      cases streamOff with
      | true => exact absurd hk (Finset.notMem_empty k)
      | false => exact h.queued k hk
    · exact not_lent rfl _

/-- Every state of every history is sound. -/
theorem sound_run (ops : List Op) : Sound (machine.run ops) := by
  apply machine.run_invariant sound_init
  intro s op h
  match op with
  | .open streamOff device width height fps o =>
    exact h.open_step streamOff device width height fps o
  | .startStreaming o => exact h.start_step o
  | .grabFrame o => exact h.grab_step o
  | .stopStreaming streamOff => exact h.stop_step streamOff
  | .close streamOff =>
    apply Sound.of_shut
    · exact Video.close_shut h.open_or_shut streamOff
    · exact Video.close_lastIndex s streamOff

/-! ### While streaming -/

/-- Each buffer is with the driver or with the caller, and none with both. -/
structure Partition (s : Video) : Prop where
  disjoint : Disjoint s.driver.queued s.camera.lent
  cover : s.driver.queued ∪ s.camera.lent = Finset.range s.camera.buffers.length

/-- The caller has the frame at `data`, and the driver does not have its buffer. -/
def HasFrame (s : Video) (data : UInt64) : Prop :=
  ∃ i b, s.camera.buffers[i]? = some b ∧ b.start = data ∧ s.camera.lent = {i} ∧
    i ∉ s.driver.queued

/-- The driver allots no more buffers than an `int` can index.  Its interface knows at most 32. -/
def Op.IndexesFit : Op → Prop
  | .open _ _ _ _ _ o => ∀ count, o.reqBufs = some count → count.toNat ≤ 2 ^ 31
  | _ => True

/-- What holds in every state with such a driver. -/
structure Owned (s : Video) : Prop where
  sound : Sound s
  fit : s.camera.buffers.length ≤ 2 ^ 31
  partition : s.camera.streaming = true → Partition s

theorem Owned.open_step {s : Video} (h : Owned s) {streamOff : Bool} {device : List UInt8}
    {width height fps : Int32} {o : OpenOutcome}
    (hfit : Op.IndexesFit (.open streamOff device width height fps o)) :
    Owned (s.open streamOff device width height fps o).1 := by
  have hsound := h.sound.open_step streamOff device width height fps o
  rcases hopen : s.open streamOff device width height fps o with ⟨s', ok⟩
  rw [hopen] at hsound
  obtain ⟨-, hstream, -, hbuffers⟩ := Video.open_cases h.sound.open_or_shut hopen
  refine ⟨hsound, ?_, fun hstream' => ?_⟩
  · rcases hbuffers with ⟨-, hshut⟩ | ⟨-, -, count, hcount, -, hbuffers⟩
    · rw [hshut.buffers]
      exact Nat.zero_le _
    · rw [hbuffers]
      exact hfit count hcount
  · rw [hstream] at hstream'
    cases hstream'

/-- Where all buffers are queued and none is lent, each is with somebody. -/
theorem Partition.of_all {s : Video} (hlent : s.camera.lent = ∅)
    (hqueued : ∀ k, k ∈ s.driver.queued ↔ k < s.camera.buffers.length) : Partition s := by
  refine ⟨?_, ?_⟩
  · rw [hlent]
    exact Finset.disjoint_empty_right _
  · rw [hlent, Finset.union_empty]
    ext k
    rw [hqueued, Finset.mem_range]

theorem Partition.mem_iff {s : Video} (h : Partition s) (k : Nat) :
    k ∈ s.driver.queued ∨ k ∈ s.camera.lent ↔ k < s.camera.buffers.length := by
  rw [← Finset.mem_union, h.cover, Finset.mem_range]

theorem Owned.start_step {s : Video} (h : Owned s) (o : StartOutcome) :
    Owned (s.startStreaming o).1 := by
  have hsound := h.sound.start_step o
  by_cases hbusy : s.camera.fd < 0 ∨ s.camera.streaming = true
  · rwa [Video.startStreaming_busy hbusy]
  · simp only [not_or, Int.not_lt, Bool.not_eq_true] at hbusy
    obtain ⟨hfd, hidle⟩ := hbusy
    rcases hstart : s.startStreaming o with ⟨s', ok⟩
    rw [hstart] at hsound
    cases ok with
    | true =>
      obtain ⟨hcamera, -, -, hqueued⟩ := Video.startStreaming_true h.sound.size.le hidle hstart
      refine ⟨hsound, ?_, fun _ => Partition.of_all (lent_none (by rw [hcamera])) ?_⟩
      · rw [hcamera]
        exact h.fit
      · intro k
        rw [hqueued, hcamera]
        exact ⟨fun hk => hk.elim (h.sound.queued k) id, Or.inr⟩
    | false =>
      obtain ⟨hcamera, -⟩ := Video.startStreaming_false h.sound.size.le hfd hstart
      refine ⟨hsound, ?_, fun hstream => ?_⟩
      · rw [hcamera]
        exact h.fit
      · rw [hcamera, hidle] at hstream
        cases hstream

/-- Giving the lent buffer back queues all buffers. -/
theorem Partition.giveBack {s s' : Video} (h : Partition s) {qbuf : Bool}
    (hback : s.giveBack qbuf = (s', true)) :
    s'.camera.lent = ∅ ∧ ∀ k, k ∈ s'.driver.queued ↔ k < s'.camera.buffers.length := by
  obtain ⟨lastIndex, hcamera, hlent, -, hqueued⟩ := Video.giveBack_true hback
  refine ⟨hlent, fun k => ?_⟩
  rw [hqueued, h.mem_iff, hcamera]

/-- A frame that is taken is lent, if an `int` can hold the index of its buffer. -/
theorem lent_take {c : CameraManager} {index : UInt32} (hindex : index.toNat < 2 ^ 31) :
    ({ c with lastIndex := index.toInt32 } : CameraManager).lent = {index.toNat} := by
  have hnonneg : 0 ≤ index.toInt32 := by
    rw [Int32.le_iff_toInt_le, toInt32_toInt hindex]
    exact Int.natCast_nonneg _
  ext k
  rw [mem_lent, UInt32.toUInt32_toInt32, Finset.mem_singleton]
  exact and_iff_right hnonneg

/-- Taking a frame moves its buffer from the driver to the caller. -/
theorem Partition.take {s s' : Video} {filled : Option (UInt32 × UInt32)} {data : UInt64}
    {size : UInt32} (hfit : s.camera.buffers.length ≤ 2 ^ 31)
    (hqueued : ∀ k, k ∈ s.driver.queued ↔ k < s.camera.buffers.length)
    (htake : s.takeFrame filled = (s', some (data, size))) :
    Partition s' ∧ HasFrame s' data := by
  obtain ⟨index, hmem, htaken, herase, hdata⟩ := Video.takeFrame_some htake
  have hlt := (hqueued _).mp hmem
  have hbuffers : s'.camera.buffers = s.camera.buffers := by rw [htaken]
  have hlent : s'.camera.lent = {index.toNat} := by
    rw [htaken]
    exact lent_take (hlt.trans_le hfit)
  have hnot : index.toNat ∉ s'.driver.queued := by
    rw [herase]
    exact Finset.notMem_erase _ _
  refine ⟨⟨?_, ?_⟩, index.toNat, s.camera.buffers[index.toNat], ?_, ?_, hlent, hnot⟩
  · rwa [hlent, Finset.disjoint_singleton_right]
  · rw [hlent, herase, hbuffers]
    ext k
    rw [Finset.mem_union, Finset.mem_erase, Finset.mem_singleton, Finset.mem_range, hqueued]
    omega
  · rw [hbuffers, List.getElem?_eq_getElem hlt]
  · rw [hdata, List.getD_eq_getElem?_getD, List.getElem?_eq_getElem hlt]
    rfl

theorem Owned.grab_step {s : Video} (h : Owned s) (o : GrabOutcome) :
    Owned (s.grabFrame o).1 := by
  have hsound := h.sound.grab_step o
  rcases hgrab : s.grabFrame o with ⟨s', frame⟩
  rw [hgrab] at hsound
  rcases Video.grabFrame_cases hgrab with ⟨rfl, -⟩ | ⟨-, hstream, s₁, hback, htake⟩
  · exact h
  · obtain ⟨hlent, hqueued⟩ := (h.partition hstream).giveBack hback
    obtain ⟨lastIndex, hcamera, -⟩ := Video.giveBack_true hback
    have hfit : s₁.camera.buffers.length ≤ 2 ^ 31 := by
      rw [hcamera]
      exact h.fit
    rcases htake with ⟨rfl, -⟩ | htake
    · exact ⟨hsound, hfit, fun _ => Partition.of_all hlent hqueued⟩
    · cases frame with
      | none =>
        rw [Video.takeFrame_none htake] at hsound ⊢
        exact ⟨hsound, hfit, fun _ => Partition.of_all hlent hqueued⟩
      | some frame =>
        obtain ⟨index, -, htaken, -⟩ := Video.takeFrame_some htake
        refine ⟨hsound, ?_, fun _ => (Partition.take hfit hqueued htake).1⟩
        rw [htaken]
        exact hfit

/-- After `stopStreaming` nothing is streamed, whatever becomes of `STREAMOFF`. -/
theorem Owned.stop_step {s : Video} (h : Owned s) (streamOff : Bool) :
    Owned (s.stopStreaming streamOff) := by
  have hsound := h.sound.stop_step streamOff
  by_cases hidle : s.camera.fd < 0 ∨ s.camera.streaming = false
  · rwa [Video.stopStreaming_of_idle hidle]
  · simp only [not_or, Int.not_lt, Bool.not_eq_false] at hidle
    rw [Video.stopStreaming_of_streaming hidle.1 hidle.2] at hsound ⊢
    exact ⟨hsound, h.fit, nofun⟩

theorem Owned.close_step {s : Video} (h : Owned s) (streamOff : Bool) :
    Owned (s.close streamOff) := by
  have hshut := Video.close_shut h.sound.open_or_shut streamOff
  refine ⟨Sound.of_shut hshut (Video.close_lastIndex s streamOff), ?_, fun hstream => ?_⟩
  · rw [hshut.buffers]
    exact Nat.zero_le _
  · rw [hshut.streaming] at hstream
    cases hstream

theorem owned_run {ops : List Op} (hfit : ∀ op ∈ ops, op.IndexesFit) : Owned (machine.run ops) := by
  apply machine.run_invariant_of_legal (L := Op.IndexesFit) _ _ hfit
  · exact ⟨sound_init, by decide, nofun⟩
  · intro s op hop h
    match op with
    | .open streamOff device width height fps o => exact h.open_step hop
    | .startStreaming o => exact h.start_step o
    | .grabFrame o => exact h.grab_step o
    | .stopStreaming streamOff => exact h.stop_step streamOff
    | .close streamOff => exact h.close_step streamOff

/-- An operation after which the last frame is still the caller's. -/
def Op.KeepsFrame : Op → Prop
  | .startStreaming _ => True
  | _ => False

/-- Who owns the buffers in a history: while streaming each has one owner, a frame stays with the
caller as long as he may use it, and `grabFrame` queues no buffer that is queued. -/
structure Ownership (ops : List Op) : Prop where
  partition : (machine.run ops).camera.streaming = true →
    Disjoint (machine.run ops).driver.queued (machine.run ops).camera.lent ∧
      (machine.run ops).driver.queued ∪ (machine.run ops).camera.lent =
        Finset.range (machine.run ops).camera.buffers.length
  frame : ∀ before o after data size, ops = before ++ .grabFrame o :: after →
    (∀ op ∈ after, op.KeepsFrame) →
    ((machine.run before).grabFrame o).2 = some (data, size) → HasFrame (machine.run ops) data
  requeue : ∀ before o after, ops = before ++ .grabFrame o :: after →
    (machine.run before).camera.streaming = true → 0 ≤ (machine.run before).camera.lastIndex →
    (machine.run before).camera.lastIndex.toUInt32.toNat ∉ (machine.run before).driver.queued

theorem keepsFrame_run {ops : List Op} (hops : ∀ op ∈ ops, op.KeepsFrame) {s : Video}
    (hstream : s.camera.streaming = true) : ops.foldl machine.step s = s := by
  induction ops with
  | nil => rfl
  | cons op ops ih =>
    have hstep : machine.step s op = s := by
      have hkeep := hops op List.mem_cons_self
      cases op with
      | startStreaming o => exact congrArg Prod.fst (Video.startStreaming_busy (Or.inr hstream) o)
      | _ => exact hkeep.elim
    rw [List.foldl_cons, hstep]
    exact ih fun op hop => hops op (List.mem_cons_of_mem _ hop)

/-- Where `grabFrame` returns a frame, the caller has it. -/
theorem Owned.grab_frame {s : Video} (h : Owned s) {o : GrabOutcome} {data : UInt64}
    {size : UInt32} (hframe : (s.grabFrame o).2 = some (data, size)) :
    HasFrame (s.grabFrame o).1 data ∧ (s.grabFrame o).1.camera.streaming = true := by
  rcases hgrab : s.grabFrame o with ⟨s', frame⟩
  rw [hgrab] at hframe
  rcases Video.grabFrame_cases hgrab with ⟨-, rfl⟩ | ⟨-, hstream, s₁, hback, ⟨-, rfl⟩ | htake⟩
  · cases hframe
  · cases hframe
  · obtain ⟨hlent, hqueued⟩ := (h.partition hstream).giveBack hback
    obtain ⟨lastIndex, hcamera, -⟩ := Video.giveBack_true hback
    have hfit : s₁.camera.buffers.length ≤ 2 ^ 31 := by
      rw [hcamera]
      exact h.fit
    obtain rfl : frame = some (data, size) := hframe
    refine ⟨(Partition.take hfit hqueued htake).2, ?_⟩
    obtain ⟨lastIndex', hcamera'⟩ := s.grabFrame_camera o
    rw [← hgrab, hcamera']
    exact hstream

theorem buffers_owned {ops : List Op} (hfit : ∀ op ∈ ops, op.IndexesFit) : Ownership ops := by
  refine ⟨?_, ?_, ?_⟩
  · intro hstream
    have hpartition := (owned_run hfit).partition hstream
    exact ⟨hpartition.disjoint, hpartition.cover⟩
  · rintro before o after data size rfl hkeep hframe
    have howned := owned_run fun op hop => hfit op (List.mem_append_left _ hop)
    obtain ⟨hhas, hstream⟩ := howned.grab_frame hframe
    rw [Machine.run_append, List.foldl_cons, keepsFrame_run hkeep]
    · exact hhas
    · exact hstream
  · rintro before o after rfl hstream hlast
    have howned := owned_run fun op hop => hfit op (List.mem_append_left _ hop)
    have hlent := mem_lent.mpr ⟨hlast, rfl⟩
    exact Finset.disjoint_right.mp (howned.partition hstream).disjoint hlent

/-- A device with two buffers, of one page each. -/
def twoBuffers : OpenOutcome where
  fd := 3
  queryCap := some (capVideoCapture ||| capStreaming)
  setFmt := some (640, 480, pixFmtMjpeg)
  getParm := none
  setParm := none
  reqBufs := some 2
  queryBuf _ := some 4096
  mmap i := UInt64.ofNat (4096 * (i + 1))

/-- The camera is opened, and three frames are grabbed, the second without success. -/
def threeGrabs : List Op :=
  [.open true [] 640 480 30 twoBuffers, .startStreaming ⟨fun _ => true, true⟩,
    .grabFrame ⟨true, 1, some (1, 900)⟩, .grabFrame ⟨true, 0, none⟩,
    .grabFrame ⟨true, 1, some (0, 800)⟩]

theorem buffers_owned_grabs : Ownership threeGrabs := by
  apply buffers_owned
  simp [threeGrabs, Op.IndexesFit, twoBuffers]

end Patrol.Camera
