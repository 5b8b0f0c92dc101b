import Mathlib.Data.Set.Basic
import Mathlib.Data.UInt
import Patrol.Camera.CameraManager

/-! What each operation of the camera does to the manager and to the queue of the driver. -/

namespace Patrol.Camera

namespace Driver

@[simp] theorem record_queued (d : Driver) (c : Call) : (d.record c).queued = d.queued := rfl

@[simp] theorem close_queued (d : Driver) (fd : Int) : (d.close fd).queued = ∅ := rfl

theorem unmapped_queued (bs : List MappedBuffer) (d : Driver) :
    (bs.foldl (fun d b => d.record (.unmapped b)) d).queued = d.queued := by
  induction bs generalizing d with
  | nil => rfl
  | cons b bs ih => exact ih _

theorem qbuf_true {d d' : Driver} {ok : Bool} {index : Nat} (h : d.qbuf ok index = (d', true)) :
    ok = true ∧ index ∉ d.queued ∧ d'.queued = insert index d.queued := by
  rw [qbuf] at h
  split at h
  · next hok =>
    cases h
    simp only [Bool.and_eq_true, decide_eq_true_eq] at hok
    exact ⟨hok.1, hok.2, rfl⟩
  · cases h

theorem qbuf_false {d d' : Driver} {ok : Bool} {index : Nat} (h : d.qbuf ok index = (d', false)) :
    d' = d ∧ (ok = true → index ∈ d.queued) := by
  rw [qbuf] at h
  split at h
  · cases h
  · next hok =>
    cases h
    refine ⟨rfl, ?_⟩
    intro hok'
    simpa [hok'] using hok

theorem dqbuf_some {d d' : Driver} {filled : Option (UInt32 × UInt32)} {index bytesused : UInt32}
    (h : d.dqbuf filled = (d', some (index, bytesused))) :
    index.toNat ∈ d.queued ∧ d'.queued = d.queued.erase index.toNat := by
  rcases filled with - | ⟨i, n⟩
  · cases h
  · simp only [dqbuf] at h
    split at h
    · next hmem =>
      cases h
      exact ⟨hmem, rfl⟩
    · cases h

theorem dqbuf_none {d d' : Driver} {filled : Option (UInt32 × UInt32)}
    (h : d.dqbuf filled = (d', none)) : d' = d := by
  rcases filled with - | ⟨i, n⟩
  · cases h
    rfl
  · simp only [dqbuf] at h
    split at h <;> cases h
    rfl

end Driver

/-- The device is closed: there is no buffer, and no streaming. -/
structure Shut (s : Video) : Prop where
  fd : s.camera.fd < 0
  buffers : s.camera.buffers = []
  streaming : s.camera.streaming = false
  queued : s.driver.queued = ∅

/-- Neither the descriptor changes, nor what is streamed, lent and queued. -/
structure SameStream (s s' : Video) : Prop where
  fd : s'.camera.fd = s.camera.fd
  streaming : s'.camera.streaming = s.camera.streaming
  lastIndex : s'.camera.lastIndex = s.camera.lastIndex
  queued : s'.driver.queued = s.driver.queued

theorem SameStream.refl (s : Video) : SameStream s s := ⟨rfl, rfl, rfl, rfl⟩

theorem SameStream.trans {s s' s'' : Video} (h : SameStream s s') (h' : SameStream s' s'') :
    SameStream s s'' :=
  ⟨h'.fd.trans h.fd, h'.streaming.trans h.streaming, h'.lastIndex.trans h.lastIndex,
    h'.queued.trans h.queued⟩

namespace Video

theorem stopStreaming_of_idle {s : Video} (h : s.camera.fd < 0 ∨ s.camera.streaming = false)
    (streamOff : Bool) : s.stopStreaming streamOff = s := by
  rw [stopStreaming, if_pos]
  simpa using h

theorem stopStreaming_of_streaming {s : Video} (hfd : 0 ≤ s.camera.fd)
    (hstream : s.camera.streaming = true) (streamOff : Bool) :
    s.stopStreaming streamOff =
      { camera := { s.camera with streaming := false, lastIndex := -1 }
        driver := s.driver.streamOff streamOff } := by
  rw [stopStreaming, if_neg]
  simp only [hstream, Bool.not_true, Bool.or_false, decide_eq_true_eq]
  omega

theorem unmapBuffers_camera (s : Video) :
    s.unmapBuffers.camera = { s.camera with buffers := [] } := rfl

theorem unmapBuffers_queued (s : Video) : s.unmapBuffers.driver.queued = s.driver.queued :=
  Driver.unmapped_queued _ _

/-- After `close` the device is closed, whether it was open or closed before. -/
theorem close_shut {s : Video} (h : 0 ≤ s.camera.fd ∨ Shut s) (streamOff : Bool) :
    Shut (s.close streamOff) := by
  rcases h with hfd | hshut
  · have hcamera : ∃ lastIndex, (if s.camera.streaming then s.stopStreaming streamOff else s).camera =
        { s.camera with streaming := false, lastIndex } := by
      cases hstream : s.camera.streaming with
      | true =>
        rw [if_pos rfl, stopStreaming_of_streaming hfd hstream]
        exact ⟨-1, rfl⟩
      | false =>
        rw [if_neg (by decide), ← hstream]
        exact ⟨s.camera.lastIndex, rfl⟩
    obtain ⟨lastIndex, hcamera⟩ := hcamera
    simp only [close, unmapBuffers_camera, hcamera, if_pos hfd]
    exact ⟨Int.negSucc_lt_zero 0, rfl, rfl, rfl⟩
  · have hfd : ¬ 0 ≤ s.camera.fd := Int.not_le.mpr hshut.fd
    simp only [close, hshut.streaming, Bool.false_eq_true, if_false, unmapBuffers_camera, if_neg hfd]
    exact ⟨hshut.fd, rfl, rfl, by rw [unmapBuffers_queued, hshut.queued]⟩

theorem close_lastIndex (s : Video) (streamOff : Bool) :
    (s.close streamOff).camera.lastIndex = -1 := rfl

/-- A `requeue` leaves the manager as it is. -/
theorem requeue_camera (s : Video) (ok : Bool) (index : Int32) :
    (s.requeue ok index).1.camera = s.camera := rfl

theorem requeue_qbuf {s s' : Video} {ok result : Bool} {index : Int32}
    (h : s.requeue ok index = (s', result)) :
    s'.camera = s.camera ∧ s.driver.qbuf ok index.toUInt32.toNat = (s'.driver, result) := by
  have hcamera := requeue_camera s ok index
  have hdriver : (s.requeue ok index).1.driver = s'.driver := by rw [h]
  have hresult : (s.requeue ok index).2 = result := by rw [h]
  rw [h] at hcamera
  exact ⟨hcamera, Prod.ext hdriver hresult⟩

theorem requeue_true {s s' : Video} {ok : Bool} {index : Int32}
    (h : s.requeue ok index = (s', true)) :
    s'.camera = s.camera ∧ ok = true ∧ index.toUInt32.toNat ∉ s.driver.queued ∧
      s'.driver.queued = insert index.toUInt32.toNat s.driver.queued := by
  obtain ⟨hcamera, hqbuf⟩ := requeue_qbuf h
  exact ⟨hcamera, Driver.qbuf_true hqbuf⟩

theorem requeue_false {s s' : Video} {ok : Bool} {index : Int32}
    (h : s.requeue ok index = (s', false)) :
    s' = s ∧ (ok = true → index.toUInt32.toNat ∈ s.driver.queued) := by
  obtain ⟨hcamera, hqbuf⟩ := requeue_qbuf h
  obtain ⟨hdriver, hqueued⟩ := Driver.qbuf_false hqbuf
  cases s
  cases s'
  cases hcamera
  cases hdriver
  exact ⟨rfl, hqueued⟩

/-- The index of a buffer comes back from the driver's word as it was. -/
theorem index_toNat {i : Nat} (h : i < UInt32.size) : (Int32.ofNat i).toUInt32.toNat = i := by
  rw [Int32.toUInt32_ofNat']
  exact UInt32.toNat_ofNat_of_lt' h

/-- Where the loop of `startStreaming` succeeds, it queues each of its buffers, none of which was
queued. -/
theorem requeueFrom_true {s s' : Video} {qbuf : Nat → Bool} {i n : Nat}
    (hsize : i + n ≤ UInt32.size) (h : s.requeueFrom qbuf i n = (s', true)) :
    s'.camera = s.camera ∧
      (∀ k, i ≤ k → k < i + n → qbuf k = true ∧ k ∉ s.driver.queued) ∧
      ∀ k, k ∈ s'.driver.queued ↔ k ∈ s.driver.queued ∨ i ≤ k ∧ k < i + n := by
  induction n generalizing s i with
  | zero =>
    cases h
    refine ⟨rfl, fun k _ _ => by omega, fun k => ?_⟩
    rw [or_iff_left (by omega)]
  | succ n ih =>
    rw [requeueFrom] at h
    split at h
    · next s₁ hfirst =>
      obtain ⟨hcamera₁, hok, hnew, hqueued₁⟩ := requeue_true hfirst
      rw [index_toNat (by omega)] at hnew hqueued₁
      obtain ⟨hcamera, heach, hqueued⟩ := ih (by omega) h
      refine ⟨hcamera.trans hcamera₁, ?_, ?_⟩
      · intro k hik hkn
        rcases Nat.eq_or_lt_of_le hik with rfl | hik
        · exact ⟨hok, hnew⟩
        · obtain ⟨hqk, hk⟩ := heach k hik (by omega)
          rw [hqueued₁, Finset.mem_insert, not_or] at hk
          exact ⟨hqk, hk.2⟩
      · intro k
        rw [hqueued, hqueued₁, Finset.mem_insert]
        grind
    · cases h

/-- Where the loop of `startStreaming` fails, it has queued some of its buffers, and its first one
unless that could not be queued. -/
theorem requeueFrom_false {s s' : Video} {qbuf : Nat → Bool} {i n : Nat}
    (hsize : i + n ≤ UInt32.size) (h : s.requeueFrom qbuf i n = (s', false)) :
    s'.camera = s.camera ∧
      (∃ k, i ≤ k ∧ k < i + n ∧ (qbuf k = true → k ∈ s.driver.queued)) ∧
      s.driver.queued ⊆ s'.driver.queued ∧
      (∀ k ∈ s'.driver.queued, k ∈ s.driver.queued ∨ i ≤ k ∧ k < i + n) ∧
      (qbuf i = true → i ∈ s'.driver.queued) ∧
      (qbuf i = false → s' = s) := by
  induction n generalizing s i with
  | zero => cases h
  | succ n ih =>
    rw [requeueFrom] at h
    split at h
    · next s₁ hfirst =>
      obtain ⟨hcamera₁, hok, hnew, hqueued₁⟩ := requeue_true hfirst
      rw [index_toNat (by omega)] at hnew hqueued₁
      obtain ⟨hcamera, ⟨k, hik, hkn, hk⟩, hkeep, hwithin, -, -⟩ := ih (by omega) h
      rw [hqueued₁] at hk hkeep hwithin
      simp only [Finset.mem_insert] at hk hwithin
      refine ⟨hcamera.trans hcamera₁, ⟨k, by omega, by omega, fun hq => ?_⟩, ?_, ?_, ?_, ?_⟩
      · exact (hk hq).resolve_left (by omega)
      · exact (Finset.subset_insert _ _).trans hkeep
      · intro j hj
        rcases hwithin j hj with (rfl | hj) | hj
        · exact Or.inr ⟨le_rfl, by omega⟩
        · exact Or.inl hj
        · exact Or.inr ⟨by omega, by omega⟩
      · intro _
        exact hkeep (Finset.mem_insert_self _ _)
      · intro hfail
        rw [hok] at hfail
        cases hfail
    · next s₁ hfirst =>
      cases h
      obtain ⟨rfl, hqueued⟩ := requeue_false hfirst
      rw [index_toNat (by omega)] at hqueued
      exact ⟨rfl, ⟨i, by omega, by omega, hqueued⟩, Finset.Subset.refl _, fun k hk => Or.inl hk,
        hqueued, fun _ => rfl⟩

theorem startStreaming_busy {s : Video} (h : s.camera.fd < 0 ∨ s.camera.streaming = true)
    (o : StartOutcome) : s.startStreaming o = (s, s.camera.streaming) := by
  rw [startStreaming, if_pos]
  simpa using h

/-- Where it begins the streaming, `startStreaming` has queued every buffer, and none was queued
before. -/
theorem startStreaming_true {s s' : Video} {o : StartOutcome}
    (hsize : s.camera.buffers.length ≤ UInt32.size) (hidle : s.camera.streaming = false)
    (h : s.startStreaming o = (s', true)) :
    s'.camera = { s.camera with streaming := true, lastIndex := -1 } ∧
      (∀ k < s.camera.buffers.length, o.qbuf k = true ∧ k ∉ s.driver.queued) ∧
      o.streamOn = true ∧
      ∀ k, k ∈ s'.driver.queued ↔ k ∈ s.driver.queued ∨ k < s.camera.buffers.length := by
  rw [startStreaming] at h
  split at h
  · rw [hidle] at h
    cases h
  · split at h
    · cases h
    · next s₁ hloop =>
      obtain ⟨hcamera, heach, hqueued⟩ := requeueFrom_true (by omega) hloop
      split at h
      · cases h
      · next hon =>
        cases h
        refine ⟨?_, fun k hk => heach k (Nat.zero_le k) (by omega), by simpa using hon, ?_⟩
        · rw [hcamera]
        · intro k
          rw [hqueued]
          simp

/-- Where it fails with an open device, `startStreaming` leaves the manager as it is, and queued what
its loop queued. -/
theorem startStreaming_false {s s' : Video} {o : StartOutcome}
    (hsize : s.camera.buffers.length ≤ UInt32.size) (hfd : 0 ≤ s.camera.fd)
    (h : s.startStreaming o = (s', false)) :
    s'.camera = s.camera ∧
      (o.streamOn = true →
        ∃ k < s.camera.buffers.length, o.qbuf k = true → k ∈ s.driver.queued) ∧
      (∀ k ∈ s'.driver.queued, k ∈ s.driver.queued ∨ k < s.camera.buffers.length) ∧
      (0 < s.camera.buffers.length → o.qbuf 0 = true → 0 ∈ s'.driver.queued) ∧
      (0 < s.camera.buffers.length → o.qbuf 0 = false → s' = s) := by
  rw [startStreaming] at h
  split at h
  · next hbusy =>
    cases hstream : s.camera.streaming with
    | true => rw [hstream] at h; cases h
    | false =>
      simp only [hstream, Bool.or_false, decide_eq_true_eq] at hbusy
      omega
  · split at h
    · next s₁ hloop =>
      cases h
      obtain ⟨hcamera, ⟨k, -, hk, hqueued⟩, -, hwithin, hfirst, hnone⟩ :=
        requeueFrom_false (by omega) hloop
      refine ⟨hcamera, fun _ => ⟨k, by omega, hqueued⟩, ?_, fun _ => hfirst, fun _ => hnone⟩
      intro j hj
      exact (hwithin j hj).imp_right fun hj => by omega
    · next s₁ hloop =>
      obtain ⟨hcamera, heach, hqueued⟩ := requeueFrom_true (by omega) hloop
      split at h
      · next hoff =>
        cases h
        refine ⟨hcamera, ?_, ?_, ?_, ?_⟩
        · intro hon
          simp [hon] at hoff
        · intro j hj
          exact ((hqueued j).mp hj).imp_right fun hj => by omega
        · intro hpos _
          exact (hqueued 0).mpr (Or.inr ⟨le_rfl, by omega⟩)
        · intro hpos hfail
          have hok := (heach 0 le_rfl (by omega)).1
          rw [hok] at hfail
          cases hfail
      · cases h

theorem mapBuffers_keeps (s : Video) (o : OpenOutcome) (i n : Nat) :
    SameStream s (s.mapBuffers o i n).1 ∧
      (s.mapBuffers o i n).1.camera.buffers.length = s.camera.buffers.length := by
  induction n generalizing s i with
  | zero => exact ⟨SameStream.refl s, rfl⟩
  | succ n ih =>
    rw [mapBuffers]
    split
    · exact ⟨SameStream.refl s, rfl⟩
    · next length hlength =>
      dsimp only
      split
      · exact ⟨SameStream.refl s, rfl⟩
      · obtain ⟨⟨hfd, hstream, hlast, hqueued⟩, hbuffers⟩ :=
          ih { camera := { s.camera with buffers := s.camera.buffers.set i ⟨o.mmap i, length⟩ }
               driver := s.driver.record (.mapped ⟨o.mmap i, length⟩) } (i + 1)
        refine ⟨⟨hfd, hstream, hlast, hqueued⟩, ?_⟩
        rw [hbuffers, List.length_set]

/-- The first part of `setUp` fails and leaves the buffers and the driver as they are, or it goes on to
the loop, with as many buffers as the driver allots, at least two. -/
theorem setUp_parts (s : Video) (fps : Int32) (o : OpenOutcome) :
    ∃ s₁, SameStream s s₁ ∧ s₁.driver = s.driver ∧
      (s.setUp fps o = (s₁, false) ∧ s₁.camera.buffers = s.camera.buffers ∨
        ∃ count : UInt32, o.reqBufs = some count ∧ 2 ≤ count.toNat ∧
          s₁.camera.buffers = List.replicate count.toNat {} ∧
            s.setUp fps o = s₁.mapBuffers o 0 count.toNat) := by
  rw [setUp]
  split
  · exact ⟨s, SameStream.refl s, rfl, .inl ⟨rfl, rfl⟩⟩
  · split
    · exact ⟨s, SameStream.refl s, rfl, .inl ⟨rfl, rfl⟩⟩
    · split
      · exact ⟨s, SameStream.refl s, rfl, .inl ⟨rfl, rfl⟩⟩
      · split
        · exact ⟨s, SameStream.refl s, rfl, .inl ⟨rfl, rfl⟩⟩
        · dsimp only
          split
          · refine ⟨_, ?_, ?_, .inl ⟨rfl, rfl⟩⟩
            · exact ⟨rfl, rfl, rfl, rfl⟩
            · rfl
          · next count hcount =>
            split
            · refine ⟨_, ?_, ?_, .inl ⟨rfl, rfl⟩⟩
              · exact ⟨rfl, rfl, rfl, rfl⟩
              · rfl
            · next hmany =>
              rw [UInt32.lt_iff_toNat_lt] at hmany
              refine ⟨_, ?_, ?_, .inr ⟨count, hcount, Nat.not_lt.mp hmany, ?_, rfl⟩⟩
              · exact ⟨rfl, rfl, rfl, rfl⟩
              · rfl
              · rfl

/-- Where setting up succeeds, there are as many buffers as the driver allots, at least two. -/
theorem setUp_cases {s s' : Video} {fps : Int32} {o : OpenOutcome} {ok : Bool}
    (h : s.setUp fps o = (s', ok)) :
    SameStream s s' ∧ (ok = true → ∃ count : UInt32, o.reqBufs = some count ∧ 2 ≤ count.toNat ∧
      s'.camera.buffers.length = count.toNat) := by
  obtain ⟨s₁, hsame, -, ⟨hfail, -⟩ | ⟨count, hcount, hmany, hbuffers, hloop⟩⟩ := setUp_parts s fps o
  · rw [hfail] at h
    cases h
    exact ⟨hsame, fun hok => absurd hok Bool.false_ne_true⟩
  · obtain ⟨hmap, hlength⟩ := mapBuffers_keeps s₁ o 0 count.toNat
    rw [← hloop, h] at hmap hlength
    refine ⟨hsame.trans hmap, fun _ => ⟨count, hcount, hmany, ?_⟩⟩
    rw [hlength, hbuffers, List.length_replicate]

/-- `open` leaves a closed device, or one whose buffers are there and are with nobody. -/
theorem open_cases {s s' : Video} (h : 0 ≤ s.camera.fd ∨ Shut s) {streamOff ok : Bool}
    {device : List UInt8} {width height fps : Int32} {o : OpenOutcome}
    (hopen : s.open streamOff device width height fps o = (s', ok)) :
    s'.camera.lastIndex = -1 ∧ s'.camera.streaming = false ∧ s'.driver.queued = ∅ ∧
      (ok = false ∧ Shut s' ∨
        ok = true ∧ 0 ≤ s'.camera.fd ∧ ∃ count : UInt32, o.reqBufs = some count ∧
          2 ≤ count.toNat ∧ s'.camera.buffers.length = count.toNat) := by
  have hclose := close_shut h streamOff
  simp only [Video.open] at hopen
  split at hopen
  · next hneg =>
    cases hopen
    exact ⟨rfl, hclose.streaming, hclose.queued,
      Or.inl ⟨rfl, hneg, hclose.buffers, hclose.streaming, hclose.queued⟩⟩
  · next hopened =>
    split at hopen
    · next s₁ hsetUp =>
      cases hopen
      obtain ⟨⟨hfd, hstream, hlast, hqueued⟩, hsome⟩ := setUp_cases hsetUp
      exact ⟨hlast, hstream.trans hclose.streaming, hqueued.trans hclose.queued,
        Or.inr ⟨rfl, by rw [hfd]; exact Int.not_lt.mp hopened, hsome rfl⟩⟩
    · next s₁ hsetUp =>
      cases hopen
      obtain ⟨⟨hfd, -, -, -⟩, -⟩ := setUp_cases hsetUp
      have hshut : Shut (s₁.close streamOff) := by
        apply close_shut
        rw [hfd]
        exact Or.inl (Int.not_lt.mp hopened)
      exact ⟨rfl, hshut.streaming, hshut.queued, Or.inl ⟨rfl, hshut⟩⟩

end Video

end Patrol.Camera
