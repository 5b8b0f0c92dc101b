import Patrol.ProofKit.Machine
import Patrol.Serial.Sessions

/-! A run of `sendCmd` calls on an open port, and what `poll` makes of the bytes on the other side.
`sendCmd` writes once, so a short write leaves a part of a frame on the wire. -/

namespace Patrol.Serial

open ProofKit

/-- A call of `sendCmd` and what its `write` returns. -/
structure SendCall where
  frame : SerialFrame
  result : WriteResult Unit

/-- The bytes written so far, and the frames that were reported as sent, each with the position of
its first byte. -/
structure Wire where
  bytes : List UInt8 := []
  reported : List (Nat × SerialFrame) := []

def SendCall.send (c : SendCall) (s : SerialManager) : Bool × List UInt8 :=
  s.sendCmd c.frame.cmd c.frame.ptr c.frame.payloadLen c.result

/-- Successive calls of `sendCmd` on a port. -/
def sending (s : SerialManager) : Machine Wire SendCall where
  init := {}
  step w c :=
    let (ok, bytes) := c.send s
    { bytes := w.bytes ++ bytes
      reported := if ok then w.reported ++ [(w.bytes.length, c.frame)] else w.reported }

/-- What the callback shows of a command. -/
def SerialFrame.view (f : SerialFrame) : UInt8 × Option (List UInt8) × Nat :=
  (f.cmd, some f.payload, f.payload.length)

/-- A peer that has read all bytes has delivered the frames that were reported as sent, in order. -/
def Delivered (w : Wire) : Prop :=
  ∀ (rs : List ReadResult) (fd : Nat), rs.flatMap ReadResult.bytes = w.bytes →
    ∃ log s', pollRun rs (listening fd) 0 = some (log, s') ∧
      (w.reported.map fun x => (x.1, x.2.view)).Sublist (log.map fun d => (d.1, d.2.view))

/-- The write takes the whole frame. -/
def SendCall.Whole (c : SendCall) : Prop :=
  ∃ n, c.result = .wrote n ∧ c.frame.bytes.length ≤ n

/-- The write takes a part of the frame. -/
def SendCall.Short (c : SendCall) : Prop :=
  ∃ n, c.result = .wrote n ∧ 0 < n ∧ n < c.frame.bytes.length

/-- If the frame is written whole, then the scan of what the peer has left of the earlier bytes, with
the frame behind, comes to stand at the first byte of the frame. -/
def Reaches (s : SerialManager) (before : List SendCall) (c : SendCall) : Prop :=
  c.Whole →
    serialScanner.Point (serialScanner.rest ((sending s).run before).bytes ++ c.frame.bytes)
      (serialScanner.rest ((sending s).run before).bytes).length

theorem send_whole {s : SerialManager} (hfd : 0 ≤ s.fd) {c : SendCall} (h : c.Whole) :
    c.send s = (true, c.frame.bytes) := by
  obtain ⟨n, hresult, hn⟩ := h
  rw [SendCall.send, SerialManager.sendCmd, if_neg (Int.not_lt.mpr hfd), hresult]
  show (min n c.frame.bytes.length == c.frame.bytes.length, c.frame.bytes.take n) = _
  rw [Nat.min_eq_right hn, List.take_of_length_le hn, beq_self_eq_true]

theorem send_not_whole {s : SerialManager} (hfd : 0 ≤ s.fd) {c : SendCall} (h : ¬ c.Whole) :
    (c.send s).1 = false ∧ (¬ c.Short → (c.send s).2 = []) := by
  rw [SendCall.send, SerialManager.sendCmd, if_neg (Int.not_lt.mpr hfd)]
  cases hresult : c.result with
  | failed e => exact ⟨rfl, fun _ => rfl⟩
  | wrote n =>
    have hlt : n < c.frame.bytes.length := by
      by_contra hle
      exact h ⟨n, hresult, Nat.not_lt.mp hle⟩
    refine ⟨?_, fun hshort => ?_⟩
    · show (min n c.frame.bytes.length == c.frame.bytes.length) = false
      rw [Nat.min_eq_left hlt.le, beq_eq_false_iff_ne]
      omega
    · have hzero : n = 0 := by
        by_contra hpos
        exact hshort ⟨n, hresult, Nat.pos_of_ne_zero hpos, hlt⟩
      show c.frame.bytes.take n = []
      rw [hzero, List.take_zero]

/-- The frames of a stream with their positions, as the callback shows them. -/
def viewsAt (b : List UInt8) : List (Nat × UInt8 × Option (List UInt8) × Nat) :=
  (located 0 (serialScanner.scan b).1).map fun x => (x.1, x.2.view)

/-- All that is reported is among the frames of the stream, in order. -/
theorem delivered_iff {w : Wire} :
    Delivered w ↔ (w.reported.map fun x => (x.1, x.2.view)).Sublist (viewsAt w.bytes) := by
  have hlog : ∀ (rs : List ReadResult) (fd : Nat), rs.flatMap ReadResult.bytes = w.bytes →
      ∃ log s', pollRun rs (listening fd) 0 = some (log, s') ∧
        log.map (fun d => (d.1, d.2.view)) = viewsAt w.bytes := by
    intro rs fd hrs
    obtain ⟨log, s', hrun, -, hcalls⟩ := pollRun_listening rs fd
    refine ⟨log, s', hrun, ?_⟩
    rw [hrs] at hcalls
    rw [viewsAt, ← List.forall₂_eq_eq_eq, List.forall₂_map_left_iff, List.forall₂_map_right_iff]
    apply hcalls.flip.imp
    intro d x hcall
    exact Prod.ext hcall.position hcall.view
  constructor
  · intro h
    have hrs := readsOf_bytes w.bytes
    obtain ⟨log, s', hrun, hsub⟩ := h (readsOf w.bytes) 0 hrs
    obtain ⟨log', s'', hrun', hviews⟩ := hlog (readsOf w.bytes) 0 hrs
    rw [hrun] at hrun'
    cases hrun'
    rwa [← hviews]
  · intro hsub rs fd hrs
    obtain ⟨log, s', hrun, hviews⟩ := hlog rs fd hrs
    exact ⟨log, s', hrun, by rwa [hviews]⟩

/-- The frames of a stream in two parts: those of the first part, and those of what it leaves with the
second part. -/
theorem viewsAt_append (b c : List UInt8) :
    viewsAt (b ++ c) = viewsAt b ++ (viewsAt (serialScanner.rest b ++ c)).map fun x =>
      (serialScanner.consumed b + x.1, x.2) := by
  rw [viewsAt, serialScanner.located_scan_append, List.map_append, Nat.zero_add,
    located_shift (serialScanner.consumed b), List.map_map, viewsAt, viewsAt, List.map_map]
  rfl

/-- A frame that is a part of a stream is delivered at its place if and only if the scan comes to
stand there. -/
theorem mem_viewsAt (b : List UInt8) (f : SerialFrame) :
    (b.length, f.view) ∈ viewsAt (b ++ f.bytes) ↔ serialScanner.Point (b ++ f.bytes) b.length := by
  constructor
  · intro h
    obtain ⟨x, hx, heq⟩ := List.mem_map.mp h
    obtain ⟨t, ht, hp, -⟩ := (serialScanner.mem_located 0).mp hx
    have hpos : x.1 = b.length := congrArg Prod.fst heq
    rwa [← hpos, ht, Nat.zero_add]
  · intro hp
    have hstarts := f.startsFrame []
    rw [List.append_nil] at hstarts
    have htake := hstarts.verdict
    rw [← @List.drop_left _ b f.bytes] at htake
    have hx := (serialScanner.mem_located 0).mpr ⟨b.length, (Nat.zero_add _).symm, hp, _, htake⟩
    refine List.mem_map.mpr ⟨_, hx, ?_⟩
    have hlen : f.payloadLen + 1 ≠ 0 := by
      intro h0
      have hone := f.len_toNat
      rw [h0] at hone
      cases hone
    show (b.length, Received.view _) = _
    rw [Received.view, if_neg hlen]
    rfl

theorem viewsAt_lt {b : List UInt8} {x : Nat × UInt8 × Option (List UInt8) × Nat}
    (h : x ∈ viewsAt b) : x.1 < b.length := by
  obtain ⟨y, hy, rfl⟩ := List.mem_map.mp h
  obtain ⟨t, ht, -, n, htake⟩ := (serialScanner.mem_located 0).mp hy
  have hle := serialScanner.take_le htake
  have hpos := serialScanner.take_pos htake
  rw [List.length_drop] at hle
  show y.1 < b.length
  omega

theorem consumed_add_rest (b : List UInt8) :
    serialScanner.consumed b + (serialScanner.rest b).length = b.length := by
  rw [serialScanner.consumed_eq]
  exact serialScanner.scan_length b

/-- Bytes that are written behind leave what was delivered. -/
theorem Delivered.append {w : Wire} (h : Delivered w) (bytes : List UInt8) :
    Delivered { w with bytes := w.bytes ++ bytes } := by
  rw [delivered_iff] at h ⊢
  rw [viewsAt_append]
  exact h.trans (List.sublist_append_left _ _)

/-- A whole frame that is written behind is delivered if and only if the scan of what the peer has
left reaches it. -/
theorem delivered_frame {w : Wire} (h : Delivered w) (f : SerialFrame) :
    Delivered ⟨w.bytes ++ f.bytes, w.reported ++ [(w.bytes.length, f)]⟩ ↔
      serialScanner.Point (serialScanner.rest w.bytes ++ f.bytes)
        (serialScanner.rest w.bytes).length := by
  have hlength := consumed_add_rest w.bytes
  rw [delivered_iff] at h ⊢
  rw [← mem_viewsAt, viewsAt_append, List.map_append]
  constructor
  · intro hsub
    have hmem : (w.bytes.length, f.view) ∈ viewsAt w.bytes ++
        (viewsAt (serialScanner.rest w.bytes ++ f.bytes)).map fun x =>
          (serialScanner.consumed w.bytes + x.1, x.2) :=
      hsub.subset (List.mem_append_right _ List.mem_cons_self)
    rcases List.mem_append.mp hmem with hmem | hmem
    · exact absurd (viewsAt_lt hmem) (Nat.lt_irrefl _)
    · obtain ⟨x, hx, heq⟩ := List.mem_map.mp hmem
      have hpos : serialScanner.consumed w.bytes + x.1 = w.bytes.length := congrArg Prod.fst heq
      have hview : x.2 = f.view := congrArg Prod.snd heq
      have hx' : x = ((serialScanner.rest w.bytes).length, f.view) := Prod.ext (by omega) hview
      rwa [hx'] at hx
  · intro hmem
    apply h.append
    rw [List.map_singleton, List.singleton_sublist, List.mem_map]
    exact ⟨_, hmem, by rw [hlength]⟩

/-- What a call of `sendCmd` does to the wire. -/
theorem sending_step (s : SerialManager) (w : Wire) (c : SendCall) :
    (sending s).step w c = ⟨w.bytes ++ (c.send s).2,
      if (c.send s).1 then w.reported ++ [(w.bytes.length, c.frame)] else w.reported⟩ := rfl

theorem delivered_step {s : SerialManager} (hfd : 0 ≤ s.fd) {before : List SendCall}
    (h : Delivered ((sending s).run before)) (c : SendCall) :
    Delivered ((sending s).run (before ++ [c])) ↔ Reaches s before c := by
  rw [Machine.run_concat, sending_step]
  by_cases hwhole : c.Whole
  · rw [send_whole hfd hwhole, if_pos rfl, delivered_frame h, Reaches]
    exact (imp_iff_right hwhole).symm
  · rw [(send_not_whole hfd hwhole).1, if_neg Bool.false_ne_true]
    apply iff_of_true
    · exact h.append _
    · intro hwhole'
      exact absurd hwhole' hwhole

/-- No whole frame is written after a part of one. -/
def WholeBeforeShort (calls : List SendCall) : Prop :=
  ∀ before c after, calls = before ++ c :: after → c.Short → ∀ c' ∈ after, ¬ c'.Whole

/-- As long as nothing was cut, the wire holds whole frames. -/
theorem bytes_of_whole {s : SerialManager} (hfd : 0 ≤ s.fd) {calls : List SendCall}
    (h : ∀ c ∈ calls, ¬ c.Short) :
    ∃ frames : List SerialFrame,
      ((sending s).run calls).bytes = frames.flatMap SerialFrame.bytes := by
  induction calls using List.reverseRecOn with
  | nil => exact ⟨[], rfl⟩
  | append_singleton calls c ih =>
    simp only [List.forall_mem_append, List.forall_mem_singleton] at h
    obtain ⟨frames, hframes⟩ := ih h.1
    rw [Machine.run_concat, sending_step]
    by_cases hwhole : c.Whole
    · refine ⟨frames ++ [c.frame], ?_⟩
      rw [send_whole hfd hwhole, List.flatMap_append, hframes]
      simp
    · refine ⟨frames, ?_⟩
      rw [(send_not_whole hfd hwhole).2 h.2, hframes, List.append_nil]

theorem reaches_of_whole {s : SerialManager} (hfd : 0 ≤ s.fd) {calls : List SendCall}
    (h : WholeBeforeShort calls) : EachOp (Reaches s) calls := by
  rintro before c ⟨after, rfl⟩ hwhole
  have hnone : ∀ c₀ ∈ before, ¬ c₀.Short := by
    intro c₀ hmem hshort
    obtain ⟨a, b, rfl⟩ := List.append_of_mem hmem
    exact h a c₀ (b ++ [c] ++ after) (by simp) hshort c (by simp) hwhole
  obtain ⟨frames, hframes⟩ := bytes_of_whole hfd hnone
  rw [hframes, (scan_frames frames).2]
  exact Scanner.Point.start

/-- What is reported as sent is always delivered if and only if each whole frame is reached by the
scan of what the peer has left; and this is so if no whole frame follows a part of one. -/
theorem reported_delivered_iff {s : SerialManager} (hfd : 0 ≤ s.fd) (calls : List SendCall) :
    (Always (fun before => Delivered ((sending s).run before)) calls ↔
        EachOp (Reaches s) calls) ∧
      (WholeBeforeShort calls → Always (fun before => Delivered ((sending s).run before)) calls) := by
  have hiff : Always (fun before => Delivered ((sending s).run before)) calls ↔
      EachOp (Reaches s) calls := by
    apply always_iff
    · exact delivered_iff.mpr (List.nil_sublist _)
    · intro before c hbefore
      exact delivered_step hfd hbefore.last c
  exact ⟨hiff, fun h => hiff.mpr (reaches_of_whole hfd h)⟩

/-- The first two bytes of a speed command, and then a whole stop command. -/
def cutSpeed : List SendCall :=
  [⟨⟨0x13, some [100, 0], by decide⟩, .wrote 2⟩, ⟨⟨0x17, none, by decide⟩, .wrote 5⟩]

theorem reported_delivered_iff_cut :
    (Always (fun before => Delivered ((sending (listening 3)).run before)) cutSpeed ↔
        EachOp (Reaches (listening 3)) cutSpeed) ∧
      (WholeBeforeShort cutSpeed →
        Always (fun before => Delivered ((sending (listening 3)).run before)) cutSpeed) :=
  reported_delivered_iff (by decide) cutSpeed

/-- The stop command is reported as sent, and the peer delivers nothing: it waits for the 170 bytes of
a frame whose LEN is the first byte of the command. -/
theorem cut_speed_swallows :
    (¬ ∀ calls : List SendCall, Delivered ((sending (listening 3)).run calls)) ∧
      ((sending (listening 3)).run cutSpeed).reported.map (fun x => x.2.cmd) = [0x17] ∧
      ∀ rs fd, rs.flatMap ReadResult.bytes = ((sending (listening 3)).run cutSpeed).bytes →
        ∃ s', pollRun rs (listening fd) 0 = some ([], s') := by
  have hnone : viewsAt ((sending (listening 3)).run cutSpeed).bytes = [] := by
    have hwait : serialScanner.verdict ((sending (listening 3)).run cutSpeed).bytes = .wait := by
      decide +kernel
    rw [viewsAt, serialScanner.scan_wait hwait]
    rfl
  refine ⟨fun h => ?_, by decide +kernel, fun rs fd hrs => ?_⟩
  · have hsub := delivered_iff.mp (h cutSpeed)
    rw [hnone] at hsub
    have hlength := hsub.length_le
    revert hlength
    decide +kernel
  · obtain ⟨log, s', hrun, -, hcalls⟩ := pollRun_listening rs fd
    rw [hrs] at hcalls
    have hlog : log = [] := by
      rw [viewsAt, List.map_eq_nil_iff] at hnone
      rw [hnone] at hcalls
      cases hcalls
      rfl
    exact ⟨s', by rw [hrun, hlog]⟩

end Patrol.Serial
