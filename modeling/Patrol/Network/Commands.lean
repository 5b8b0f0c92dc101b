import Patrol.Network.ParseStream

/-! Connections: the commands that successive `pollCommands` calls deliver from the bytes of a peer,
against the frames that the reference receiver dispatches. -/

namespace Patrol.Network

open ProofKit

/-- The commands that the parser rules find in a stream. -/
def commandsIn (b : List UInt8) : List Command := (frameScanner.items b).filterMap commandOf

/-- Successive `pollCommands` calls that carry the buffer from one to the next and append to the same
commands. -/
def pollRun : List Reads → List UInt8 → List Command → Option (List UInt8 × List Command)
  | [], buf, out => some (buf, out)
  | r :: rs, buf, out => do
    let p ← pollCommands r buf out
    pollRun rs p.buf p.out

theorem commandsIn_wait {b : List UInt8} (h : frameScanner.verdict b = .wait) :
    commandsIn b = [] := by
  rw [commandsIn, frameScanner.items_wait h]
  rfl

theorem commandsIn_append (b c : List UInt8) :
    commandsIn (b ++ c) = commandsIn b ++ commandsIn (frameScanner.rest b ++ c) := by
  rw [commandsIn, frameScanner.items_append b c, List.filterMap_append]
  rfl

theorem pollRun_append (rs ss : List Reads) (buf : List UInt8) (out : List Command) :
    pollRun (rs ++ ss) buf out = (pollRun rs buf out).bind fun p => pollRun ss p.1 p.2 := by
  induction rs generalizing buf out with
  | nil => rfl
  | cons r rs ih =>
    simp only [List.cons_append, pollRun, Option.bind_eq_bind]
    cases pollCommands r buf out with
    | none => rfl
    | some p => exact ih p.buf p.out

/-- Calls that do not see the connection end scan what they receive behind the carried buffer. -/
theorem pollRun_eq {rs : List Reads} (hrs : ∀ r ∈ rs, r.last = .again) {buf : List UInt8}
    (hbuf : frameScanner.verdict buf = .wait) (out : List Command) :
    pollRun rs buf out =
      some (frameScanner.rest (buf ++ rs.flatMap Reads.bytes),
        out ++ commandsIn (buf ++ rs.flatMap Reads.bytes)) := by
  induction rs generalizing buf out with
  | nil => simp [pollRun, frameScanner.rest_wait hbuf, commandsIn_wait hbuf]
  | cons r rs ih =>
    have hr := hrs r (by simp)
    have ih := ih (fun s hs => hrs s (List.mem_cons_of_mem _ hs))
      (frameScanner.verdict_rest (buf ++ r.bytes)) (out ++ commandsIn (buf ++ r.bytes))
    rw [pollRun, pollCommands_again hr, Option.bind_eq_bind, Option.bind_some]
    refine ih.trans ?_
    rw [List.flatMap_cons, ← List.append_assoc, commandsIn_append (buf ++ r.bytes),
      frameScanner.rest_append (buf ++ r.bytes), List.append_assoc]

/-- The receiver that holds what a scan left, less the noise before its first start byte, takes the
frames of the scan of what it reads next. -/
theorem receive_eq {w : List UInt8} (hw : frameScanner.verdict w = .wait)
    (cs : List (Chunk UInt8 65536)) :
    receive (dropNoise w) cs =
      some (frameScanner.items (w ++ cs.flatMap Chunk.bytes),
        dropNoise (frameScanner.rest (w ++ cs.flatMap Chunk.bytes))) := by
  induction cs generalizing w with
  | nil => simp [receive, frameScanner.items_wait hw, frameScanner.rest_wait hw]
  | cons c cs ih =>
    obtain ⟨noise, hnoise, hsplit⟩ := dropNoise_split w
    have hc := scan_noise_append hnoise (dropNoise w ++ c.bytes)
    rw [← List.append_assoc, ← hsplit] at hc
    rw [receive, parseStream_eq, ← hc.1, ← hc.2, Option.bind_eq_bind, Option.bind_some]
    simp only [ih (frameScanner.verdict_rest (w ++ c.bytes)), Option.bind_some, List.flatMap_cons]
    rw [← List.append_assoc, frameScanner.items_append (w ++ c.bytes),
      frameScanner.rest_append (w ++ c.bytes)]

/-- The bytes of the command that stops the robot. -/
def estopBytes : List UInt8 := [0xA5, 0x40, 2, 0, 0, 0, 6, 1]

/-- A call that receives the first bytes of the stop command, and one that receives the others. -/
def estopFirst : Reads := ⟨[.data ⟨[0xA5, 0x40, 2], by decide, by decide⟩, .eintr], .again⟩
def estopSecond : Reads := ⟨[.data ⟨[0, 0, 0, 6, 1], by decide, by decide⟩], .again⟩

/-- A call that receives the stop command and then sees the connection end as `last` says. -/
def estopReads (last : RecvEnd) : Reads := ⟨[.data ⟨estopBytes, by decide, by decide⟩], last⟩

/-- A call that sees the connection end at once. -/
def closedReads : Reads := ⟨[], .closed⟩

theorem commandsIn_estop : commandsIn estopBytes = [⟨cmdEstop, 1⟩] := by
  have hv : frameScanner.verdict estopBytes = .take 8 (0x40, [6, 1]) := by decide
  have hnil : frameScanner.verdict (estopBytes.drop 8) = .wait := by decide
  rw [commandsIn, frameScanner.items_take hv, frameScanner.items_wait hnil]
  decide

/-! ### Cutting a stream -/

/-- The commands and the carried buffer depend on the bytes that were received, and not on how they
were cut into reads and calls. -/
theorem pollRun_chunking {rs ss : List Reads} (hrs : ∀ r ∈ rs, r.last = .again)
    (hss : ∀ r ∈ ss, r.last = .again)
    (hbytes : rs.flatMap Reads.bytes = ss.flatMap Reads.bytes) :
    ∃ buf out, pollRun rs [] [] = some (buf, out) ∧ pollRun ss [] [] = some (buf, out) ∧
      ∀ whole : Reads, whole.last = .again → whole.bytes = rs.flatMap Reads.bytes →
        pollRun [whole] [] [] = some (buf, out) := by
  refine ⟨_, _, pollRun_eq hrs frameScanner.verdict_nil [], ?_, ?_⟩
  · rw [hbytes]
    exact pollRun_eq hss frameScanner.verdict_nil []
  · intro whole hlast hwhole
    have hall : ∀ r ∈ [whole], r.last = .again := by simpa using hlast
    have h := pollRun_eq hall frameScanner.verdict_nil []
    rwa [List.flatMap_singleton, hwhole] at h

theorem pollRun_chunking_estop : ∃ buf out,
    pollRun [estopFirst, estopSecond] [] [] = some (buf, out) ∧
      pollRun [estopReads .again] [] [] = some (buf, out) ∧
      ∀ whole : Reads, whole.last = .again →
        whole.bytes = [estopFirst, estopSecond].flatMap Reads.bytes →
        pollRun [whole] [] [] = some (buf, out) :=
  pollRun_chunking (by simp [estopFirst, estopSecond]) (by simp [estopReads]) (by decide)

/-! ### The end of a connection -/

/-- When a call sees the connection end, every command in the bytes received has been delivered
exactly when the bytes of that call complete none. -/
theorem commands_delivered_iff {rs : List Reads} (hrs : ∀ r ∈ rs, r.last = .again) {r : Reads}
    (hr : r.last ≠ .again) :
    (∃ buf, pollRun (rs ++ [r]) [] [] =
      some (buf, commandsIn ((rs ++ [r]).flatMap Reads.bytes))) ↔
    ∀ carried out, pollRun rs [] [] = some (carried, out) →
      commandsIn (carried ++ r.bytes) = [] := by
  have hrun := pollRun_eq hrs frameScanner.verdict_nil []
  rw [List.nil_append, List.nil_append] at hrun
  obtain ⟨rc, -, hend⟩ := pollCommands_ended hr (frameScanner.rest (rs.flatMap Reads.bytes))
    (commandsIn (rs.flatMap Reads.bytes))
  have hlast : pollRun (rs ++ [r]) [] [] =
      some (frameScanner.rest (rs.flatMap Reads.bytes) ++ r.bytes,
        commandsIn (rs.flatMap Reads.bytes)) := by
    rw [pollRun_append, hrun, Option.bind_some, pollRun, hend]
    rfl
  have hall : commandsIn ((rs ++ [r]).flatMap Reads.bytes) =
      commandsIn (rs.flatMap Reads.bytes) ++
        commandsIn (frameScanner.rest (rs.flatMap Reads.bytes) ++ r.bytes) := by
    rw [List.flatMap_append, List.flatMap_singleton, commandsIn_append]
  rw [hlast, hall]
  constructor
  · rintro ⟨buf, h⟩ carried out hc
    rw [hrun] at hc
    cases hc
    have heq := (Prod.mk.inj (Option.some.inj h)).2
    exact List.append_right_eq_self.mp heq.symm
  · intro h
    rw [h _ _ hrun, List.append_nil]
    exact ⟨_, rfl⟩

theorem commands_delivered_closed :
    (∃ buf, pollRun ([estopFirst, estopSecond] ++ [closedReads]) [] [] =
      some (buf, commandsIn
        (([estopFirst, estopSecond] ++ [closedReads]).flatMap Reads.bytes))) ↔
    ∀ carried out, pollRun [estopFirst, estopSecond] [] [] = some (carried, out) →
      commandsIn (carried ++ closedReads.bytes) = [] :=
  commands_delivered_iff (by simp [estopFirst, estopSecond]) (by decide)

/-- A stop command that arrives together with the end of the connection is lost. -/
theorem estop_lost : ¬ ∃ buf, pollRun ([] ++ [estopReads .closed]) [] [] =
    some (buf, commandsIn (([] ++ [estopReads .closed]).flatMap Reads.bytes)) := by
  rintro ⟨buf, h⟩
  have hbytes : ([] ++ [estopReads .closed]).flatMap Reads.bytes = estopBytes := by decide
  have hrun : pollRun ([] ++ [estopReads .closed]) [] [] = some (estopBytes, []) := rfl
  rw [hbytes, commandsIn_estop, hrun] at h
  cases h

/-! ### The two parsers -/

/-- The calls and the reference receiver, given the same bytes, find the same commands, and the
receiver's buffer is that of the calls less the noise before its first start byte. -/
theorem pollRun_simulates {rs : List Reads} (hrs : ∀ r ∈ rs, r.last = .again)
    {cs : List (Chunk UInt8 65536)}
    (hbytes : rs.flatMap Reads.bytes = cs.flatMap Chunk.bytes) :
    ∃ frames kept buf out, receive [] cs = some (frames, kept) ∧
      pollRun rs [] [] = some (buf, out) ∧
      out = frames.filterMap commandOf ∧ kept = dropNoise buf := by
  refine ⟨_, _, _, _, receive_eq frameScanner.verdict_nil cs,
    pollRun_eq hrs frameScanner.verdict_nil [], ?_, ?_⟩
  · rw [hbytes]
    rfl
  · rw [hbytes]

theorem pollRun_simulates_estop : ∃ frames kept buf out,
    receive [] [⟨[0xA5, 0x40, 2], by decide, by decide⟩, ⟨[0, 0, 0, 6, 1], by decide, by decide⟩] =
        some (frames, kept) ∧
      pollRun [estopFirst, estopSecond] [] [] = some (buf, out) ∧
      out = frames.filterMap commandOf ∧ kept = dropNoise buf :=
  pollRun_simulates (by simp [estopFirst, estopSecond]) (by decide)

/-! ### Round trip -/

/-- Frames among noise, cut into reads in any way: `sendFrame` and `buildFrame` write the bytes of
each frame, the reference receiver dispatches the frames in order, and the calls deliver their
commands in order. -/
theorem frames_delivered {segments : List (List UInt8 × Frame)} {tail : List UInt8}
    (hnoise : ∀ s ∈ segments, llSof ∉ s.1) (htail : llSof ∉ tail)
    {cs : List (Chunk UInt8 65536)} (hcs : cs.flatMap Chunk.bytes = wire segments tail)
    {rs : List Reads} (hrs : ∀ r ∈ rs, r.last = .again)
    (hbytes : rs.flatMap Reads.bytes = wire segments tail) :
    (∀ s ∈ segments, buildFrame s.2.type (some s.2.payload) s.2.payload.length = s.2.bytes ∧
      ∀ sends, (sendFrame s.2.type s.2.payload sends).ret = some true →
        (sendFrame s.2.type s.2.payload sends).accepted = s.2.bytes) ∧
    (∃ kept, receive [] cs = some (segments.map fun s => (s.2.type, s.2.payload), kept)) ∧
    ∃ buf, pollRun rs [] [] =
      some (buf, segments.filterMap fun s => commandOf (s.2.type, s.2.payload)) := by
  obtain ⟨hitems, -⟩ := scan_wire hnoise htail
  refine ⟨fun s _ => ⟨s.2.buildFrame_eq, fun sends hok => sendFrame_complete hok⟩, ?_, ?_⟩
  · have h := receive_eq frameScanner.verdict_nil cs
    rw [List.nil_append, hcs, hitems] at h
    exact ⟨_, h⟩
  · have h := pollRun_eq hrs frameScanner.verdict_nil []
    rw [List.nil_append, List.nil_append, hbytes, commandsIn, hitems, List.filterMap_map] at h
    exact ⟨_, h⟩

/-- The stop command as a frame, and two noise bytes around it. -/
def estopSegments : List (List UInt8 × Frame) := [([0], ⟨0x40, [6, 1], by decide⟩)]

theorem frames_delivered_estop :
    (∀ s ∈ estopSegments,
      buildFrame s.2.type (some s.2.payload) s.2.payload.length = s.2.bytes ∧
      ∀ sends, (sendFrame s.2.type s.2.payload sends).ret = some true →
        (sendFrame s.2.type s.2.payload sends).accepted = s.2.bytes) ∧
    (∃ kept, receive [] [⟨[0, 0xA5, 0x40], by decide, by decide⟩,
      ⟨[2, 0, 0, 0, 6, 1, 7], by decide, by decide⟩] =
        some (estopSegments.map fun s => (s.2.type, s.2.payload), kept)) ∧
    ∃ buf, pollRun [⟨[.data ⟨[0, 0xA5, 0x40, 2, 0, 0], by decide, by decide⟩], .again⟩,
      ⟨[.data ⟨[0, 6, 1, 7], by decide, by decide⟩], .again⟩] [] [] =
        some (buf, estopSegments.filterMap fun s => commandOf (s.2.type, s.2.payload)) :=
  frames_delivered (by decide) (show llSof ∉ [7] by decide) (by decide) (by simp) (by decide)

end Patrol.Network
