import Patrol.Camera.Streaming

/-! Starting the stream again after a start that failed. -/

namespace Patrol.Camera

open ProofKit

/-- No `STREAMOFF` of the operation fails. -/
def Op.StreamsOff : Op → Prop
  | .open streamOff _ _ _ _ _ => streamOff = true
  | .stopStreaming streamOff => streamOff = true
  | .close streamOff => streamOff = true
  | _ => True

/-- In an open camera that does not stream no buffer is queued, and a start of the stream whose
calls do not fail of their own succeeds. -/
def Startable (s : Video) : Prop :=
  0 ≤ s.camera.fd → s.camera.streaming = false →
    s.driver.queued = ∅ ∧
      ∀ o : StartOutcome, (∀ k, o.qbuf k = true) → o.streamOn = true →
        (s.startStreaming o).2 = true

/-- A start of the stream, in an open camera that does not stream, in which all calls succeed, or
already the first one fails. -/
def StartsWhole (before : List Op) (op : Op) : Prop :=
  ∀ o, op = .startStreaming o → 0 ≤ (machine.run before).camera.fd →
    (machine.run before).camera.streaming = false →
    o.qbuf 0 = false ∨
      (∀ k < (machine.run before).camera.buffers.length, o.qbuf k = true) ∧ o.streamOn = true

/-- An open camera that does not stream can start if and only if no buffer is queued. -/
theorem startable_iff_empty {s : Video} (h : Sound s) :
    Startable s ↔ (0 ≤ s.camera.fd → s.camera.streaming = false → s.driver.queued = ∅) := by
  constructor
  · intro hstart hfd hidle
    exact (hstart hfd hidle).1
  · intro hempty hfd hidle
    refine ⟨hempty hfd hidle, fun o hqbuf hon => ?_⟩
    rcases hstart : s.startStreaming o with ⟨s', ok⟩
    cases ok with
    | true => rfl
    | false =>
      obtain ⟨-, hfail, -⟩ := Video.startStreaming_false h.size.le hfd hstart
      obtain ⟨k, -, hk⟩ := hfail hon
      have hmem := hk (hqbuf k)
      rw [hempty hfd hidle] at hmem
      exact absurd hmem (Finset.notMem_empty k)

theorem startable_of_empty {s : Video} (h : Sound s) (hempty : s.driver.queued = ∅) :
    Startable s :=
  (startable_iff_empty h).mpr fun _ _ => hempty

/-- A start of the stream leaves a camera that can start if and only if all its calls succeed, or
already the first one fails. -/
theorem startable_start {s : Video} (h : Sound s) (hs : Startable s) (hfd : 0 ≤ s.camera.fd)
    (hidle : s.camera.streaming = false) (o : StartOutcome) :
    Startable (s.startStreaming o).1 ↔
      o.qbuf 0 = false ∨
        (∀ k < s.camera.buffers.length, o.qbuf k = true) ∧ o.streamOn = true := by
  have hsound := h.start_step o
  have hpos : 0 < s.camera.buffers.length := by
    have hcount := h.count hfd
    omega
  rw [startable_iff_empty hsound]
  rcases hstart : s.startStreaming o with ⟨s', ok⟩
  cases ok with
  | true =>
    obtain ⟨hcamera, heach, hon, -⟩ := Video.startStreaming_true h.size.le hidle hstart
    apply iff_of_true
    · intro _ hidle'
      rw [hcamera] at hidle'
      cases hidle'
    · exact Or.inr ⟨fun k hk => (heach k hk).1, hon⟩
  | false =>
    obtain ⟨hcamera, hfail, -, hfirst, hnone⟩ := Video.startStreaming_false h.size.le hfd hstart
    have hempty := (hs hfd hidle).1
    show (0 ≤ s'.camera.fd → s'.camera.streaming = false → s'.driver.queued = ∅) ↔ _
    rw [hcamera]
    constructor
    · intro hempty'
      left
      by_contra hok
      have hmem := hfirst hpos (Bool.eq_true_of_not_eq_false hok)
      rw [hempty' hfd hidle] at hmem
      exact Finset.notMem_empty 0 hmem
    · rintro (hok | ⟨hqbuf, hon⟩) _ _
      · rw [hnone hpos hok]
        exact hempty
      · obtain ⟨k, hk, hqueued⟩ := hfail hon
        have hmem := hqueued (hqbuf k hk)
        rw [hempty] at hmem
        exact absurd hmem (Finset.notMem_empty k)

/-- `grabFrame` leaves a camera that can start. -/
theorem startable_grab {s : Video} (hs : Startable s) (o : GrabOutcome) :
    Startable (s.grabFrame o).1 := by
  rcases hgrab : s.grabFrame o with ⟨s', frame⟩
  rcases Video.grabFrame_cases hgrab with ⟨rfl, -⟩ | ⟨-, hstream, -⟩
  · exact hs
  · obtain ⟨lastIndex, hcamera⟩ := s.grabFrame_camera o
    rw [hgrab] at hcamera
    intro _ hidle
    rw [hcamera, hstream] at hidle
    cases hidle

theorem startable_stop {s : Video} (h : Sound s) (hs : Startable s) :
    Startable (s.stopStreaming true) := by
  by_cases hidle : s.camera.fd < 0 ∨ s.camera.streaming = false
  · rwa [Video.stopStreaming_of_idle hidle]
  · simp only [not_or, Int.not_lt, Bool.not_eq_false] at hidle
    apply startable_of_empty (h.stop_step true)
    rw [Video.stopStreaming_of_streaming hidle.1 hidle.2]
    rfl

theorem startable_step {before : List Op} {op : Op} (hop : op.StreamsOff)
    (hs : Startable (machine.run before)) :
    Startable (machine.run (before ++ [op])) ↔ StartsWhole before op := by
  have h := sound_run before
  have hsound := sound_run (before ++ [op])
  rw [Machine.run_concat] at hsound ⊢
  match op with
  | .startStreaming o =>
    by_cases hbusy : (machine.run before).camera.fd < 0 ∨
        (machine.run before).camera.streaming = true
    · apply iff_of_true
      · show Startable ((machine.run before).startStreaming o).1
        rwa [Video.startStreaming_busy hbusy]
      · intro o' _ hfd hidle
        rcases hbusy with hneg | hstream
        · exact absurd hneg (Int.not_lt.mpr hfd)
        · rw [hidle] at hstream
          cases hstream
    · simp only [not_or, Int.not_lt, Bool.not_eq_true] at hbusy
      apply (startable_start h hs hbusy.1 hbusy.2 o).trans
      constructor
      · rintro hwhole o' heq - -
        cases heq
        exact hwhole
      · intro hwhole
        exact hwhole o rfl hbusy.1 hbusy.2
  | .open streamOff device width height fps o =>
    apply iff_of_true _ nofun
    apply startable_of_empty hsound
    rcases hopen : (machine.run before).open streamOff device width height fps o with ⟨s', ok⟩
    show ((machine.run before).open streamOff device width height fps o).1.driver.queued = ∅
    rw [hopen]
    exact (Video.open_cases h.open_or_shut hopen).2.2.1
  | .grabFrame o => exact iff_of_true (startable_grab hs o) nofun
  | .stopStreaming streamOff =>
    obtain rfl : streamOff = true := hop
    exact iff_of_true (startable_stop h hs) nofun
  | .close streamOff =>
    apply iff_of_true _ nofun
    apply startable_of_empty hsound
    exact (Video.close_shut h.open_or_shut streamOff).queued

/-- Where no `STREAMOFF` fails, the camera can always start again if and only if each start of the
stream goes through or fails at its first call. -/
theorem restartable_iff {ops : List Op} (hoff : ∀ op ∈ ops, op.StreamsOff) :
    Always (fun before => Startable (machine.run before)) ops ↔ EachOp StartsWhole ops := by
  apply always_iff_of_legal (L := Op.StreamsOff) _ _ hoff
  · exact startable_of_empty sound_init rfl
  · intro before op hop hbefore
    exact startable_step hop hbefore.last

/-- The camera is opened, and the driver fails once to queue the second of its two buffers. -/
def failedStart : List Op :=
  [.open true [] 640 480 30 twoBuffers, .startStreaming ⟨fun i => i != 1, true⟩]

theorem restartable_iff_failed :
    Always (fun before => Startable (machine.run before)) failedStart ↔
      EachOp StartsWhole failedStart := by
  apply restartable_iff
  simp [failedStart, Op.StreamsOff]

/-- After a start that failed half-way no later start succeeds. -/
theorem failed_start_sticks :
    ¬ (∀ ops : List Op, (∀ op ∈ ops, op.StreamsOff) → Startable (machine.run ops)) ∧
      ((machine.run failedStart).startStreaming ⟨fun _ => true, true⟩).2 = false := by
  have hfails : ((machine.run failedStart).startStreaming ⟨fun _ => true, true⟩).2 = false := by
    decide
  refine ⟨fun h => ?_, hfails⟩
  have hstart := h failedStart (by simp [failedStart, Op.StreamsOff]) (by decide) (by decide)
  rw [hstart.2 ⟨fun _ => true, true⟩ (fun _ => rfl) rfl] at hfails
  cases hfails

end Patrol.Camera
