import Patrol.Serial.SerialManager

/-! The frames that successive `poll` calls deliver from the bytes of the port.  The calls of
`rxCb_` in a run are those of the scan of the whole stream, however it was cut into reads. -/

namespace Patrol.Serial

open ProofKit

/-- Successive polls of a manager that has erased `base` bytes of its stream: the calls of `rxCb_`,
each with the position of its frame in the stream, and the manager left. -/
def pollRunWith (size : SizeSub) :
    List ReadResult → SerialManager → Nat → Option (List (Nat × RxCall) × SerialManager)
  | [], s, _ => some ([], s)
  | r :: rs, s, base => do
    let o ← s.pollWith size r
    let (calls, s') ← pollRunWith size rs o.manager (base + o.off)
    some (o.calls.map (fun c => (base + c.off, c)) ++ calls, s')

def pollRun : List ReadResult → SerialManager → Nat →
    Option (List (Nat × RxCall) × SerialManager) :=
  pollRunWith wrapping

/-- The call `d` of `rxCb_` is the one for the frame `x`, at the same position of the stream. -/
structure CallFor (size : SizeSub) (x : Nat × Received) (d : Nat × RxCall) : Prop where
  position : d.1 = x.1
  short : d.2.rxBuf.length < 515
  taken : ∃ n, serialScanner.verdict (d.2.rxBuf.drop d.2.off) = .take n x.2
  cmd_eq : d.2.cmd = x.2.cmd
  pl_eq : d.2.pl = d.2.off + 4
  plLen_eq : size.sub x.2.len.toNat 1 = some d.2.plLen

theorem callFor_shift {size : SizeSub} {x : Nat × Received} {c : RxCall} {rxBuf : List UInt8}
    (hshort : rxBuf.length < 515)
    (hx : ∃ n, serialScanner.verdict (rxBuf.drop x.1) = .take n x.2)
    (hc : rxCall size rxBuf x.1 x.2 = some c) (base : Nat) :
    CallFor size (base + x.1, x.2) (base + c.off, c) := by
  rw [rxCall, Option.map_eq_some_iff] at hc
  obtain ⟨plLen, hlen, rfl⟩ := hc
  exact ⟨rfl, hshort, hx, rfl, rfl, hlen⟩

/-- The calls of one poll are those for the frames of its scan. -/
theorem pollWith_calls {size : SizeSub} {s : SerialManager} (hs : s.Ready) (hcb : s.rxCb = true)
    {r : ReadResult} {o : PollOut} (h : s.pollWith size r = some o) (base : Nat) :
    o.off = serialScanner.consumed (s.rxBuf ++ r.bytes) ∧
      List.Forall₂ (CallFor size) (located base (serialScanner.scan (s.rxBuf ++ r.bytes)).1)
        (o.calls.map fun c => (base + c.off, c)) := by
  rw [pollWith_eq size hs, Option.map_eq_some_iff] at h
  obtain ⟨calls, hcalls, rfl⟩ := h
  refine ⟨rfl, ?_⟩
  have hshort : (s.rxBuf ++ r.bytes).length < 515 := by
    have := length_of_wait hs.waits
    have := r.bytes_length_le
    rw [List.length_append]
    omega
  have htaken : ∀ x ∈ located 0 (serialScanner.scan (s.rxBuf ++ r.bytes)).1,
      ∃ n, serialScanner.verdict ((s.rxBuf ++ r.bytes).drop x.1) = .take n x.2 := by
    intro x hx
    obtain ⟨t, ht, -, n, htake⟩ := (serialScanner.mem_located 0).mp hx
    rw [ht, Nat.zero_add]
    exact ⟨n, htake⟩
  rw [located_shift, List.forall₂_map_left_iff, List.forall₂_map_right_iff]
  simp only [hcb, if_true]
  have hboth := (List.forall₂_and_left _ _).mpr ⟨htaken, mapM_forall₂ hcalls⟩
  exact hboth.imp fun x d hx => callFor_shift hshort hx.1 hx.2 base

/-- A run leaves in its buffer what the scan of its stream leaves. -/
theorem pollRunWith_manager {size : SizeSub} {rs : List ReadResult} {s : SerialManager}
    (hs : s.Ready) {base : Nat} {log : List (Nat × RxCall)} {s' : SerialManager}
    (h : pollRunWith size rs s base = some (log, s')) :
    s' = { s with rxBuf := serialScanner.rest (s.rxBuf ++ rs.flatMap ReadResult.bytes) } := by
  induction rs generalizing s base log s' with
  | nil =>
    cases h
    rw [List.flatMap_nil, List.append_nil, serialScanner.rest_wait hs.waits]
  | cons r rs ih =>
    obtain ⟨o, ho, h⟩ := Option.bind_eq_some_iff.mp h
    obtain ⟨⟨calls, s''⟩, hrun, h⟩ := Option.bind_eq_some_iff.mp h
    cases h
    rw [List.flatMap_cons, ← List.append_assoc, serialScanner.rest_append,
      ih (pollWith_ready hs ho) hrun, pollWith_manager hs ho]

/-- The calls of a run are those for the frames of the scan of its stream. -/
theorem pollRunWith_calls {size : SizeSub} {rs : List ReadResult} {s : SerialManager}
    (hs : s.Ready) (hcb : s.rxCb = true) {base : Nat} {log : List (Nat × RxCall)}
    {s' : SerialManager} (h : pollRunWith size rs s base = some (log, s')) :
    s' = { s with rxBuf := serialScanner.rest (s.rxBuf ++ rs.flatMap ReadResult.bytes) } ∧
      List.Forall₂ (CallFor size)
        (located base (serialScanner.scan (s.rxBuf ++ rs.flatMap ReadResult.bytes)).1) log := by
  refine ⟨pollRunWith_manager hs h, ?_⟩
  induction rs generalizing s base log s' with
  | nil =>
    cases h
    rw [List.flatMap_nil, List.append_nil, serialScanner.scan_wait hs.waits]
    exact .nil
  | cons r rs ih =>
    obtain ⟨o, ho, h⟩ := Option.bind_eq_some_iff.mp h
    obtain ⟨⟨calls, s''⟩, hrun, h⟩ := Option.bind_eq_some_iff.mp h
    cases h
    obtain ⟨hoff, hcalls⟩ := pollWith_calls hs hcb ho base
    have hmanager := pollWith_manager hs ho
    have hmore := ih (pollWith_ready hs ho) (by rw [hmanager]; exact hcb) hrun
    rw [hmanager, hoff] at hmore
    rw [List.flatMap_cons, ← List.append_assoc, serialScanner.located_scan_append]
    exact List.rel_append hcalls hmore

/-- A run faults only where the length of a payload does. -/
theorem pollRunWith_isSome {size : SizeSub} {rs : List ReadResult} {s : SerialManager}
    (hs : s.Ready) (base : Nat) :
    (pollRunWith size rs s base).isSome ↔
      ∀ e ∈ serialScanner.items (s.rxBuf ++ rs.flatMap ReadResult.bytes),
        (size.sub e.len.toNat 1).isSome := by
  induction rs generalizing s base with
  | nil => simp [pollRunWith, serialScanner.items_wait hs.waits]
  | cons r rs ih =>
    rw [List.flatMap_cons, ← List.append_assoc, serialScanner.items_append, List.forall_mem_append,
      ← pollWith_isSome size hs, pollRunWith, Option.bind_eq_bind]
    cases ho : s.pollWith size r with
    | none => simp
    | some o =>
      have ih := ih (pollWith_ready hs ho) (base + o.off)
      rw [pollWith_manager hs ho] at ih
      rw [Option.bind_some, ← ih, pollWith_manager hs ho]
      cases pollRunWith size rs _ (base + o.off) <;> simp

/-! ### What the callback is given -/

/-- What a call of `rxCb_` shows: the command, the payload, `none` where it is not inside the
buffer, and its length. -/
def RxCall.view (c : RxCall) : UInt8 × Option (List UInt8) × Nat :=
  (c.cmd, slice c.rxBuf c.pl c.plLen, c.plLen)

/-- What the call for a frame shows.  The length of a payload without a command wraps. -/
def Received.view (e : Received) : UInt8 × Option (List UInt8) × Nat :=
  if e.len = 0 then (e.cmd, none, 2 ^ 64 - 1) else (e.cmd, some e.payload, e.payload.length)

/-- The payload of a frame with a command lies between the command and the CRC. -/
structure RxCall.Inside (c : RxCall) (len : UInt8) (body : List UInt8) : Prop where
  accepted : StartsFrame len body (c.rxBuf.drop c.off)
  len_pos : 1 ≤ len.toNat
  cmd_eq : c.rxBuf[c.off + 3]? = some c.cmd
  cmd_before_crc : c.off + 3 < c.off + (len.toNat + 3)
  pl_eq : c.pl = c.off + 4
  plLen_eq : c.plLen = len.toNat - 1
  end_le : c.pl + c.plLen ≤ c.off + (len.toNat + 3)
  crc_inside : c.off + (len.toNat + 3) < c.rxBuf.length

theorem StartsFrame.drop_four {len cmd : UInt8} {payload b : List UInt8}
    (h : StartsFrame len (cmd :: payload) b) : payload <+: b.drop 4 := by
  obtain ⟨-, c, rfl⟩ := h
  refine ⟨crc8 (len :: cmd :: payload) :: c, ?_⟩
  simp

theorem CallFor.inside {size : SizeSub} {x : Nat × Received} {d : Nat × RxCall}
    (h : CallFor size x d) (hlen : x.2.len ≠ 0) :
    d.2.Inside x.2.len (x.2.cmd :: x.2.payload) := by
  obtain ⟨-, -, ⟨n, htake⟩, hcmd, hpl, hplLen⟩ := h
  have hpos : 1 ≤ x.2.len.toNat := Nat.pos_of_ne_zero fun h0 => hlen (UInt8.toNat_inj.mp h0)
  rw [size.exact hpos, Option.some_inj] at hplLen
  obtain ⟨-, body, hstarts, rfl | ⟨rfl, -⟩⟩ := serialVerdict_take htake
  · have hle := hstarts.length_le
    rw [List.length_drop] at hle
    obtain ⟨c, hc⟩ := hstarts.starts
    have hbyte : d.2.rxBuf[d.2.off + 3]? = some d.2.cmd := by
      rw [hcmd, ← List.getElem?_drop, ← hc]
      rfl
    exact ⟨hstarts, hpos, hbyte, by omega, hpl, by omega, by omega, by omega⟩
  · have hzero := hstarts.length_eq
    rw [List.length_nil] at hzero
    omega

theorem CallFor.view {x : Nat × Received} {d : Nat × RxCall} (h : CallFor wrapping x d) :
    d.2.view = x.2.view := by
  by_cases hlen : x.2.len = 0
  · have hplLen := h.plLen_eq
    rw [hlen] at hplLen
    have hwrap : d.2.plLen = 2 ^ 64 - 1 := (Option.some.inj hplLen).symm
    have hshort := h.short
    rw [RxCall.view, Received.view, if_pos hlen, slice, if_neg (by omega), hwrap, h.cmd_eq]
  · have hin := h.inside hlen
    have hbody := hin.accepted.length_eq
    have hplLen : d.2.plLen = x.2.payload.length := by
      rw [hin.plLen_eq, ← hbody]
      rfl
    obtain ⟨c, hc⟩ := hin.accepted.drop_four
    rw [List.drop_drop, ← h.pl_eq] at hc
    have hend := hin.end_le
    have hcrc := hin.crc_inside
    rw [RxCall.view, Received.view, if_neg hlen, slice, if_pos (by omega), ← hc, hplLen,
      List.take_left, h.cmd_eq]

/-- An open manager with a callback and an empty buffer. -/
def listening (fd : Nat) : SerialManager := { fd := fd, rxCb := true }

theorem listening_ready (fd : Nat) : (listening fd).Ready := ⟨Int.natCast_nonneg fd, rfl⟩

theorem pollRun_isSome (rs : List ReadResult) {s : SerialManager} (hs : s.Ready) (base : Nat) :
    (pollRun rs s base).isSome := by
  apply (pollRunWith_isSome hs base).mpr
  intro e _
  rfl

/-- A run from an empty buffer delivers the frames of its stream at their positions. -/
theorem pollRun_listening (rs : List ReadResult) (fd : Nat) :
    ∃ log s', pollRun rs (listening fd) 0 = some (log, s') ∧
      s'.rxBuf = serialScanner.rest (rs.flatMap ReadResult.bytes) ∧
      List.Forall₂ (CallFor wrapping)
        (located 0 (serialScanner.scan (rs.flatMap ReadResult.bytes)).1) log := by
  have hs := listening_ready fd
  obtain ⟨⟨log, s'⟩, hrun⟩ := Option.isSome_iff_exists.mp (pollRun_isSome rs hs 0)
  obtain ⟨rfl, hcalls⟩ := pollRunWith_calls hs rfl hrun
  exact ⟨log, _, hrun, rfl, hcalls⟩

theorem views_eq {b : List UInt8} {off : Nat} {log : List (Nat × RxCall)}
    (h : List.Forall₂ (CallFor wrapping) (located off (serialScanner.scan b).1) log) :
    log.map (fun d => d.2.view) = (serialScanner.items b).map Received.view := by
  rw [Scanner.items, ← located_items off, List.map_map, ← List.forall₂_eq_eq_eq,
    List.forall₂_map_left_iff, List.forall₂_map_right_iff]
  exact h.flip.imp fun _ _ hx => hx.view

/-! ### Payloads inside their frames -/

/-- In a run from an empty buffer every payload lies inside its frame and no subtraction wraps
exactly when the scan of the stream stands at no frame without a command. -/
theorem payloads_inside_iff (rs : List ReadResult) (fd : Nat) :
    ((∃ log s', pollRun rs (listening fd) 0 = some (log, s') ∧
        ∀ d ∈ log, ∃ len body, d.2.Inside len body) ∧
      (pollRunWith checked rs (listening fd) 0).isSome) ↔
    ∀ s, serialScanner.Point (rs.flatMap ReadResult.bytes) s →
      ¬ StartsEmpty ((rs.flatMap ReadResult.bytes).drop s) := by
  have hchecked : (pollRunWith checked rs (listening fd) 0).isSome ↔
      ∀ e ∈ serialScanner.items (rs.flatMap ReadResult.bytes),
        (checked.sub e.len.toNat 1).isSome := pollRunWith_isSome (listening_ready fd) 0
  rw [hchecked]
  constructor
  · rintro ⟨-, hsub⟩ s hp hempty
    obtain ⟨n, e, htake, hzero⟩ := take_len_zero.mpr hempty
    have he := hsub e (serialScanner.mem_items.mpr ⟨s, hp, n, htake⟩)
    rw [hzero] at he
    cases he
  · intro hnone
    have hlen : ∀ e ∈ serialScanner.items (rs.flatMap ReadResult.bytes), e.len ≠ 0 := by
      intro e he hzero
      obtain ⟨s, hp, n, htake⟩ := serialScanner.mem_items.mp he
      exact hnone s hp (take_len_zero.mp ⟨n, e, htake, hzero⟩)
    constructor
    · obtain ⟨log, s', hrun, -, hcalls⟩ := pollRun_listening rs fd
      refine ⟨log, s', hrun, ?_⟩
      intro d hd
      obtain ⟨x, hx, hcall⟩ := forall₂_mem_left hcalls.flip hd
      refine ⟨_, _, hcall.inside (hlen x.2 ?_)⟩
      rw [Scanner.items, ← located_items 0]
      exact List.mem_map_of_mem hx
    · intro e he
      have hpos := Nat.pos_of_ne_zero fun h0 => hlen e he (UInt8.toNat_inj.mp h0)
      exact checked_sub_isSome.mpr hpos

/-- The five bytes AA 55 00 00 00, whose CRC is right. -/
def emptyFrameRead : ReadResult := .data ⟨[0xAA, 0x55, 0, 0, 0], by decide, by decide⟩

/-- A frame without a command is delivered with a payload length that wraps. -/
theorem empty_frame_outside :
    ¬ ((∃ log s', pollRun [emptyFrameRead] (listening 3) 0 = some (log, s') ∧
        ∀ d ∈ log, ∃ len body, d.2.Inside len body) ∧
      (pollRunWith checked [emptyFrameRead] (listening 3) 0).isSome) := by
  rintro ⟨-, h⟩
  have hfault : pollRunWith checked [emptyFrameRead] (listening 3) 0 = none := by decide +kernel
  rw [hfault] at h
  cases h

/-! ### Round trip -/

theorem scan_frames (frames : List SerialFrame) :
    serialScanner.items (frames.flatMap SerialFrame.bytes) =
        frames.map (fun f => ⟨f.payloadLen + 1, f.cmd, f.payload⟩) ∧
      serialScanner.rest (frames.flatMap SerialFrame.bytes) = [] := by
  induction frames with
  | nil =>
    exact ⟨serialScanner.items_wait serialScanner.verdict_nil,
      serialScanner.rest_wait serialScanner.verdict_nil⟩
  | cons f frames ih =>
    have htake := (f.startsFrame (frames.flatMap SerialFrame.bytes)).verdict
    rw [List.flatMap_cons, serialScanner.items_take htake, serialScanner.rest_take htake,
      ← f.bytes_length, List.drop_left, ih.1, ih.2]
    exact ⟨rfl, rfl⟩

/-- Frames that `buildFrame` writes, cut into reads in any way, are delivered once each and in
order, and nothing is left in the buffer. -/
theorem frames_round_trip {frames : List SerialFrame} {rs : List ReadResult} (fd : Nat)
    (hbytes : rs.flatMap ReadResult.bytes = frames.flatMap SerialFrame.bytes) :
    ∃ log s', pollRun rs (listening fd) 0 = some (log, s') ∧
      log.map (fun d => d.2.view) =
        frames.map (fun f => (f.cmd, some f.payload, f.payload.length)) ∧
      s'.rxBuf = [] := by
  obtain ⟨log, s', hrun, hrest, hcalls⟩ := pollRun_listening rs fd
  obtain ⟨hitems, hnil⟩ := scan_frames frames
  refine ⟨log, s', hrun, ?_, by rw [hrest, hbytes, hnil]⟩
  rw [views_eq hcalls, hbytes, hitems, List.map_map]
  apply List.map_congr_left
  intro f _
  have hlen : f.payloadLen + 1 ≠ 0 := by
    intro h0
    have := f.len_toNat
    rw [h0] at this
    cases this
  rw [Function.comp_apply, Received.view, if_neg hlen]

/-- A stop command and a speed command, the first with a null payload, cut inside both. -/
theorem frames_round_trip_speed :
    ∃ log s', pollRun [.data ⟨[0xAA, 0x55, 1], by decide, by decide⟩, .nothing,
        .data ⟨[0x17, crc8 [1, 0x17], 0xAA, 0x55, 3, 0x13], by decide, by decide⟩,
        .data ⟨[0xAA, 0x55, crc8 [3, 0x13, 0xAA, 0x55]], by decide, by decide⟩]
        (listening 3) 0 = some (log, s') ∧
      log.map (fun d => d.2.view) =
        ([⟨0x17, none, by decide⟩, ⟨0x13, some [0xAA, 0x55], by decide⟩] : List SerialFrame).map
          (fun f => (f.cmd, some f.payload, f.payload.length)) ∧
      s'.rxBuf = [] :=
  frames_round_trip 3 (by decide +kernel)

/-! ### What `buildFrame` builds -/

/-- A frame is consistent: LEN counts the bytes between it and the CRC and is at least one, the
frame has LEN and four bytes, and a run of `poll` that reads it accepts it as one frame with its
command. -/
structure Consistent (cmd : UInt8) (frame : List UInt8) : Prop where
  counted : ∃ len body crc, frame = [sof1, sof2, len] ++ body ++ [crc] ∧
    body.length = len.toNat ∧ 1 ≤ len.toNat ∧ frame.length = len.toNat + 4
  accepted : ∀ rs fd, rs.flatMap ReadResult.bytes = frame →
    ∃ d s', pollRun rs (listening fd) 0 = some ([d], s') ∧ d.1 = 0 ∧ d.2.cmd = cmd ∧ s'.rxBuf = []

theorem SerialFrame.consistent (f : SerialFrame) : Consistent f.cmd f.bytes := by
  refine ⟨⟨f.payloadLen + 1, f.cmd :: f.payload, _, f.bytes_eq, f.len_toNat.symm, ?_,
    f.bytes_length⟩, ?_⟩
  · rw [f.len_toNat]
    exact Nat.le_add_left 1 _
  · intro rs fd hrs
    have hstarts := f.startsFrame []
    rw [List.append_nil] at hstarts
    have htake := hstarts.verdict
    have hlocated : located 0 (serialScanner.scan f.bytes).1 =
        [(0, ⟨f.payloadLen + 1, f.cmd, f.payload⟩)] := by
      rw [serialScanner.scan_next (by simp [htake]), htake, Verdict.width_take, ← f.bytes_length,
        List.drop_length, serialScanner.scan_wait serialScanner.verdict_nil]
      rfl
    obtain ⟨log, s', hrun, hrest, hcalls⟩ := pollRun_listening rs fd
    rw [hrs, hlocated] at hcalls
    obtain ⟨d, log', hcall, hnil, rfl⟩ := List.forall₂_cons_left_iff.mp hcalls
    obtain rfl := List.forall₂_nil_left_iff.mp hnil
    refine ⟨d, s', hrun, hcall.position, hcall.cmd_eq, ?_⟩
    have hone := (scan_frames [f]).2
    rw [List.flatMap_singleton] at hone
    rw [hrest, hrs, hone]

/-- The bytes that `buildFrame` puts between LEN and the CRC. -/
theorem buildFrame_length (cmd : UInt8) {ptr : Option (List UInt8)} {payloadLen : UInt8}
    (hptr : ∀ p ∈ ptr, payloadLen.toNat ≤ p.length) :
    (buildFrame cmd ptr payloadLen).length =
      5 + if ptr = none then 0 else payloadLen.toNat := by
  cases ptr with
  | none => rfl
  | some p =>
    have hlen := hptr p rfl
    by_cases h0 : 0 < payloadLen
    · simp [buildFrame, h0, Nat.min_eq_left hlen]
      omega
    · have hzero : payloadLen.toNat = 0 := by
        rw [UInt8.lt_iff_toNat_lt] at h0
        exact Nat.eq_zero_of_not_pos h0
      simp [buildFrame, h0, hzero]

/-- A frame with a payload pointer and a length that fit is that of a command with its payload. -/
theorem buildFrame_eq_bytes (cmd : UInt8) {ptr : Option (List UInt8)} {payloadLen : UInt8}
    (hptr : ∀ p ∈ ptr, payloadLen.toNat ≤ p.length) (hle : payloadLen.toNat ≤ 254)
    (hnull : ptr = none → payloadLen = 0) :
    ∃ f : SerialFrame, f.cmd = cmd ∧ f.bytes = buildFrame cmd ptr payloadLen := by
  cases ptr with
  | none =>
    obtain rfl := hnull rfl
    exact ⟨⟨cmd, none, Nat.zero_le _⟩, rfl, rfl⟩
  | some p =>
    have htake : (p.take payloadLen.toNat).length = payloadLen.toNat :=
      List.length_take_of_le (hptr p rfl)
    have hpayload : (p.take payloadLen.toNat).length ≤ 254 := by omega
    refine ⟨⟨cmd, some (p.take payloadLen.toNat), hpayload⟩, rfl, ?_⟩
    have hlen : UInt8.ofNat (p.take payloadLen.toNat).length = payloadLen := by
      rw [htake, UInt8.ofNat_toNat]
    show buildFrame cmd (some (p.take payloadLen.toNat))
      (UInt8.ofNat (p.take payloadLen.toNat).length) = _
    rw [hlen, buildFrame, buildFrame, List.take_take, Nat.min_self]

theorem sendCmd_reported {s : SerialManager} {cmd : UInt8} {ptr : Option (List UInt8)}
    {payloadLen : UInt8} {w : WriteResult Unit} (h : (s.sendCmd cmd ptr payloadLen w).1 = true) :
    (s.sendCmd cmd ptr payloadLen w).2 = buildFrame cmd ptr payloadLen := by
  unfold SerialManager.sendCmd at h ⊢
  split at h
  · cases h
  · cases w with
    | failed e => cases h
    | wrote n =>
      rename_i hfd
      rw [if_neg hfd]
      have hall : min n (buildFrame cmd ptr payloadLen).length =
          (buildFrame cmd ptr payloadLen).length := beq_iff_eq.mp h
      exact List.take_of_length_le (by omega)

/-- The frame that `buildFrame` builds, and the bytes that `sendCmd` reports as sent, are consistent
exactly when the length is at most 254 and a null pointer comes with the length zero. -/
theorem frame_consistent_iff (cmd : UInt8) {ptr : Option (List UInt8)} {payloadLen : UInt8}
    (hptr : ∀ p ∈ ptr, payloadLen.toNat ≤ p.length) :
    (Consistent cmd (buildFrame cmd ptr payloadLen) ∧
        ∀ (s : SerialManager) w, (s.sendCmd cmd ptr payloadLen w).1 = true →
          Consistent cmd (s.sendCmd cmd ptr payloadLen w).2) ↔
      payloadLen.toNat ≤ 254 ∧ (ptr = none → payloadLen = 0) := by
  constructor
  · rintro ⟨⟨⟨len, body, crc, hframe, hbody, hpos, hlength⟩, -⟩, -⟩
    have hlen : len = payloadLen + 1 := by
      have hget := congrArg (fun b => b[2]?) hframe
      exact (Option.some.inj hget).symm
    have hlt := payloadLen.toNat_lt
    have hsucc : (payloadLen + 1).toNat = (payloadLen.toNat + 1) % 256 := UInt8.toNat_add _ _
    rw [buildFrame_length cmd hptr, hlen, hsucc] at hlength
    rw [hlen, hsucc] at hpos
    refine ⟨by omega, ?_⟩
    rintro rfl
    apply UInt8.toNat_inj.mp
    show payloadLen.toNat = 0
    rw [if_pos rfl] at hlength
    omega
  · rintro ⟨hle, hnull⟩
    obtain ⟨f, rfl, hbytes⟩ := buildFrame_eq_bytes cmd hptr hle hnull
    have hf := f.consistent
    rw [hbytes] at hf
    refine ⟨hf, ?_⟩
    intro s w hsent
    rwa [sendCmd_reported hsent]

/-- A servo command with its two bytes. -/
theorem frame_consistent_servo :
    (Consistent 0x12 (buildFrame 0x12 (some [220, 5]) 2) ∧
        ∀ (s : SerialManager) w, (s.sendCmd 0x12 (some [220, 5]) 2 w).1 = true →
          Consistent 0x12 (s.sendCmd 0x12 (some [220, 5]) 2 w).2) ↔
      (2 : UInt8).toNat ≤ 254 ∧ (some [(220 : UInt8), 5] = none → (2 : UInt8) = 0) := by
  apply frame_consistent_iff
  intro p hp
  cases hp
  decide

/-- A payload of 255 bytes wraps LEN to zero, and a null pointer with a length promises bytes that
are not there. -/
theorem frame_inconsistent :
    ¬ Consistent 0x13 (buildFrame 0x13 (some (List.replicate 255 0)) 255) ∧
      ¬ Consistent 0x13 (buildFrame 0x13 none 3) := by
  constructor
  · rintro ⟨⟨len, body, crc, hframe, hbody, hpos, -⟩, -⟩
    have hlen : len = 255 + 1 := (Option.some.inj (congrArg (fun b => b[2]?) hframe)).symm
    rw [hlen] at hpos
    revert hpos
    decide
  · rintro ⟨⟨len, body, crc, hframe, hbody, hpos, hlength⟩, -⟩
    have hlen : len = 3 + 1 := (Option.some.inj (congrArg (fun b => b[2]?) hframe)).symm
    rw [hlen] at hlength
    revert hlength
    decide

/-! ### Resynchronisation -/

/-- A frame with a command that starts in the stream with 258 bytes from there on is delivered,
unless an accepted frame starts before it and extends past its start. -/
theorem frame_delivered_or_overlapped {rs : List ReadResult} (fd : Nat) {s : Nat} {len cmd : UInt8}
    {payload : List UInt8}
    (hframe : StartsFrame len (cmd :: payload) ((rs.flatMap ReadResult.bytes).drop s))
    (hlong : s + 258 ≤ (rs.flatMap ReadResult.bytes).length) :
    ∃ log s', pollRun rs (listening fd) 0 = some (log, s') ∧
      ((∃ d ∈ log, d.1 = s ∧ d.2.view = (cmd, some payload, payload.length)) ∨
        ∃ d ∈ log, d.1 < s ∧ ∃ len' body',
          StartsFrame len' body' ((rs.flatMap ReadResult.bytes).drop d.1) ∧
            s < d.1 + (len'.toNat + 4)) := by
  obtain ⟨log, s', hrun, -, hcalls⟩ := pollRun_listening rs fd
  refine ⟨log, s', hrun, ?_⟩
  rcases serialScanner.point_or_passed (rs.flatMap ReadResult.bytes) s with
    hp | ⟨p, n, e, hlt, hp, htake, hpast⟩ | ⟨p, hlt, hp, hwait⟩
  · have hx := (serialScanner.mem_located 0).mpr ⟨s, rfl, hp, _, hframe.verdict⟩
    obtain ⟨d, hd, hcall⟩ := forall₂_mem_left hcalls hx
    have hlen : len ≠ 0 := by
      intro h0
      have := hframe.length_eq
      rw [h0] at this
      cases this
    refine .inl ⟨d, hd, by rw [hcall.position, Nat.zero_add], ?_⟩
    rw [hcall.view, Received.view, if_neg hlen]
  · have hx := (serialScanner.mem_located 0).mpr ⟨p, rfl, hp, _, htake⟩
    obtain ⟨d, hd, hcall⟩ := forall₂_mem_left hcalls hx
    obtain ⟨hn, body, hstarts, -⟩ := serialVerdict_take htake
    have hpos : d.1 = p := by rw [hcall.position, Nat.zero_add]
    rw [← hpos] at hlt hpast hstarts
    exact .inr ⟨d, hd, hlt, e.len, body, hstarts, by omega⟩
  · -- A scan waits for at most 258 bytes, and more than these follow `p`.
    have hshort := length_of_wait hwait
    rw [List.length_drop] at hshort
    omega

/-- A start byte, a stop command, and 253 zero bytes, in two reads. -/
def noisyReads : List ReadResult :=
  [.data ⟨[0xAA, 0xAA, 0x55, 1, 0x17], by decide, by decide⟩,
    .data ⟨crc8 [1, 0x17] :: List.replicate 253 0, List.cons_ne_nil _ _, by
      rw [List.length_cons, List.length_replicate]; decide⟩]

theorem frame_delivered_or_overlapped_noisy :
    ∃ log s', pollRun noisyReads (listening 3) 0 = some (log, s') ∧
      ((∃ d ∈ log, d.1 = 1 ∧ d.2.view = (0x17, some [], ([] : List UInt8).length)) ∨
        ∃ d ∈ log, d.1 < 1 ∧ ∃ len' body',
          StartsFrame len' body' ((noisyReads.flatMap ReadResult.bytes).drop d.1) ∧
            1 < d.1 + (len'.toNat + 4)) :=
  frame_delivered_or_overlapped 3 (show StartsFrame 1 [0x17] _ from
    ⟨rfl, by decide +kernel⟩) (by decide +kernel)

end Patrol.Serial
