import Patrol.Network.Commands
import Patrol.Network.Telemetry

/-! The receiver with what it counts (`dispatch` and `main` of `test/frame_parser_check.py`): the counts
and the verdict are those of the frames in the stream, however it is cut into reads. -/

namespace Patrol.Network

open ProofKit

/-- `FRAME_THERMAL` -/
def frameThermal : UInt8 := 0x20

/-- The dictionary `stats`. -/
structure Stats where
  text : Nat := 0
  sensor : Nat := 0
  video : Nat := 0
  thermal : Nat := 0
  bad : Nat := 0
deriving DecidableEq, Repr

/-- `payload[:2] == b"\xFF\xD8"` -/
def isJpeg (payload : List UInt8) : Bool := payload.take 2 == [0xFF, 0xD8]

/-- What the standard output can encode of what is printed: the line of `dispatch` for a frame, the line
of `main` before it connects, and its last two lines.  To print anything else raises
`UnicodeEncodeError`; on an output in UTF-8 nothing does, since `decode` replaces what is not UTF-8. -/
structure Stdout where
  line : UInt8 × List UInt8 → Bool := fun _ => true
  banner : Bool := true
  summary : Bool := true

/-- The `print` of `dispatch`. -/
def Stdout.print (out : Stdout) (ftype : UInt8) (payload : List UInt8) : Option Unit :=
  if out.line (ftype, payload) then some () else none

/-- `dispatch`; `none` is an exception. -/
def dispatch (out : Stdout) (ftype : UInt8) (payload : List UInt8) (stats : Stats) :
    Option Stats :=
  if ftype = frameText then do
    let stats := { stats with text := stats.text + 1 }
    out.print ftype payload
    some stats
  else if ftype = frameSensor then
    let stats := { stats with sensor := stats.sensor + 1 }
    if 40 ≤ payload.length then do
      let _ ← unpackI16 payload 4
      let _ ← unpackU16 payload 30
      out.print ftype payload
      some stats
    else do
      out.print ftype payload
      some { stats with bad := stats.bad + 1 }
  else if ftype = frameVideo then do
    let stats := { stats with video := stats.video + 1 }
    let stats := if isJpeg payload then stats else { stats with bad := stats.bad + 1 }
    out.print ftype payload
    some stats
  else if ftype = frameThermal then do
    let stats := { stats with thermal := stats.thermal + 1 }
    out.print ftype payload
    some stats
  else do
    out.print ftype payload
    some stats

/-- The loop of `parse_stream` from `off` on, which dispatches each frame as it finds it. -/
def parseInto (out : Stdout) (buf : List UInt8) : Nat → Nat → Stats → Option (Stats × List UInt8)
  | 0, _, _ => none
  | fuel + 1, off, stats =>
    match find buf off with
    | none => some (stats, [])
    | some sof =>
      if buf.length - sof < 6 then some (stats, buf.drop sof)
      else do
        let ftype ← buf[sof + 1]?
        let length ← unpackU32 buf (sof + 2)
        if length > 16 * 1024 * 1024 then parseInto out buf fuel (sof + 1) stats
        else if buf.length - sof < 6 + length then some (stats, buf.drop sof)
        else
          let payload := (buf.drop (sof + 6)).take length
          let stats ← dispatch out ftype payload stats
          parseInto out buf fuel (sof + (6 + length)) stats

/-- The loop of `main`, over the chunks that come before the end of the connection or the time. -/
def receiveInto (out : Stdout) :
    List (Chunk UInt8 65536) → List UInt8 → Stats → Option (Stats × List UInt8)
  | [], buf, stats => some (stats, buf)
  | c :: cs, buf, stats => do
    let (stats, buf) ← parseInto out (buf ++ c.bytes) ((buf ++ c.bytes).length + 1) 0 stats
    receiveInto out cs buf stats

/-- `stats["bad"] == 0 and (stats["video"] > 0 or stats["text"] > 0)` -/
def Stats.ok (stats : Stats) : Bool :=
  stats.bad == 0 && (decide (0 < stats.video) || decide (0 < stats.text))

/-- What `main` returns, if its connection succeeds and `recv` raises nothing but a timeout. -/
def checkMain (out : Stdout) (cs : List (Chunk UInt8 65536)) : Option Int :=
  if !out.banner then none
  else do
    let (stats, _) ← receiveInto out cs [] {}
    if !out.summary then none
    else if stats.ok then some 0 else some 1

/-- The bytes of frames, one after the other. -/
def framesBytes (fs : List (UInt8 × List UInt8)) : List UInt8 :=
  fs.flatMap fun f => frameBytes f.1 f.2

/-- A stream of frames within the limit scans to them. -/
theorem items_framesBytes {fs : List (UInt8 × List UInt8)}
    (h : ∀ f ∈ fs, f.2.length ≤ llMaxPayload.toNat) :
    frameScanner.items (framesBytes fs) = fs := by
  induction fs with
  | nil => exact frameScanner.items_wait frameScanner.verdict_nil
  | cons f fs ih =>
    rw [List.forall_mem_cons] at h
    have hbytes : framesBytes (f :: fs) = Frame.bytes ⟨f.1, f.2, h.1⟩ ++ framesBytes fs := rfl
    rw [hbytes, items_bytes, ih h.2]

/-! ### Counting frames -/

/-- A telemetry frame that is too short, or a video frame that is not JPEG. -/
def isBad (f : UInt8 × List UInt8) : Bool :=
  (f.1 == frameSensor && decide (f.2.length < 40)) || (f.1 == frameVideo && !isJpeg f.2)

/-- The counts with those of `fs` on top. -/
def Stats.tally (stats : Stats) (fs : List (UInt8 × List UInt8)) : Stats where
  text := stats.text + fs.countP (·.1 == frameText)
  sensor := stats.sensor + fs.countP (·.1 == frameSensor)
  video := stats.video + fs.countP (·.1 == frameVideo)
  thermal := stats.thermal + fs.countP (·.1 == frameThermal)
  bad := stats.bad + fs.countP isBad

theorem Stats.tally_cons (stats : Stats) (f : UInt8 × List UInt8) (fs : List (UInt8 × List UInt8)) :
    stats.tally (f :: fs) = (stats.tally [f]).tally fs := by
  simp only [tally, List.countP_cons, List.countP_nil, Nat.zero_add]
  simp only [Nat.add_assoc, Nat.add_comm, Nat.add_left_comm]

theorem Stats.tally_append (stats : Stats) (fs gs : List (UInt8 × List UInt8)) :
    stats.tally (fs ++ gs) = (stats.tally fs).tally gs := by
  simp only [tally, List.countP_append, Nat.add_assoc]

/-- A payload that is long enough is unpacked. -/
theorem unpack_isSome {payload : List UInt8} (h : 40 ≤ payload.length) :
    (unpackI16 payload 4).isSome ∧ (unpackU16 payload 30).isSome := by
  have hget : ∀ i, i < 40 → payload[i]? = some (payload[i]?.getD 0) := by
    intro i hi
    rw [List.getElem?_eq_getElem (show i < payload.length by omega)]
    rfl
  simp only [unpackI16, unpackU16, readI16, readU16]
  rw [hget 4 (by decide), hget (4 + 1) (by decide), hget 30 (by decide), hget (30 + 1) (by decide)]
  exact ⟨rfl, rfl⟩

/-- What `main` has after its loop has met frames, if their lines can be printed. -/
def Stdout.count (out : Stdout) (stats : Stats) (r : List (UInt8 × List UInt8) × List UInt8) :
    Option (Stats × List UInt8) :=
  if r.1.all out.line then some (stats.tally r.1, r.2) else none

theorem Stdout.count_cons (out : Stdout) (stats : Stats) (f : UInt8 × List UInt8)
    (r : List (UInt8 × List UInt8) × List UInt8) :
    out.count stats (f :: r.1, r.2) = if out.line f then out.count (stats.tally [f]) r else none := by
  rw [count, count, List.all_cons, Stats.tally_cons]
  cases out.line f <;> rfl

theorem Stdout.count_append (out : Stdout) (stats : Stats) (fs : List (UInt8 × List UInt8))
    (r : List (UInt8 × List UInt8) × List UInt8) :
    out.count stats (fs ++ r.1, r.2) =
      if fs.all out.line then out.count (stats.tally fs) r else none := by
  rw [count, count, List.all_append, Stats.tally_append]
  cases fs.all out.line <;> rfl

theorem Stdout.print_bind (out : Stdout) (ftype : UInt8) (payload : List UInt8) (stats : Stats) :
    ((out.print ftype payload).bind fun _ => some stats) =
      if out.line (ftype, payload) then some stats else none := by
  rw [print]
  split <;> rfl

/-- `dispatch` counts its frame, and throws only where it cannot print its line. -/
theorem dispatch_eq (out : Stdout) (ftype : UInt8) (payload : List UInt8) (stats : Stats) :
    dispatch out ftype payload stats =
      if out.line (ftype, payload) then some (stats.tally [(ftype, payload)]) else none := by
  unfold dispatch Stats.tally isBad
  simp only [List.countP_singleton, Option.bind_eq_bind]
  by_cases htext : ftype = frameText
  · subst htext
    simp [Stdout.print_bind, frameText, frameSensor, frameVideo, frameThermal]
  · rw [if_neg htext]
    by_cases hsensor : ftype = frameSensor
    · subst hsensor
      rw [if_pos rfl]
      by_cases hlen : 40 ≤ payload.length
      · obtain ⟨htemp, hvolt⟩ := unpack_isSome hlen
        obtain ⟨temp, htemp⟩ := Option.isSome_iff_exists.mp htemp
        obtain ⟨volt, hvolt⟩ := Option.isSome_iff_exists.mp hvolt
        simp [Stdout.print_bind, htemp, hvolt, hlen, Nat.not_lt.mpr hlen, frameText, frameSensor, frameVideo, frameThermal]
      · simp [Stdout.print_bind, hlen, Nat.not_le.mp hlen, frameText, frameSensor, frameVideo, frameThermal]
    · rw [if_neg hsensor]
      by_cases hvideo : ftype = frameVideo
      · subst hvideo
        rw [if_pos rfl]
        cases hjpeg : isJpeg payload <;>
          simp [Stdout.print_bind, frameText, frameSensor, frameVideo, frameThermal]
      · rw [if_neg hvideo]
        by_cases hthermal : ftype = frameThermal
        · subst hthermal
          simp [Stdout.print_bind, frameText, frameSensor, frameVideo, frameThermal]
        · simp [Stdout.print_bind, htext, hsensor, hvideo, hthermal]

/-- The loop that dispatches on the way dispatches what the parse loop finds. -/
theorem parseInto_eq (out : Stdout) (buf : List UInt8) (fuel off : Nat) (stats : Stats) :
    parseInto out buf fuel off stats = (parseStreamLoop buf fuel off).bind (out.count stats) := by
  induction fuel generalizing off stats with
  | zero => rfl
  | succ fuel ih =>
    unfold parseInto parseStreamLoop
    cases find buf off with
    | none => rfl
    | some sof =>
      dsimp only
      split_ifs
      · rfl
      · cases buf[sof + 1]? with
        | none => rfl
        | some ftype =>
          cases unpackU32 buf (sof + 2) with
          | none => rfl
          | some length =>
            simp only [Option.bind_eq_bind, Option.bind_some]
            split_ifs
            · exact ih (sof + 1) stats
            · rfl
            · rw [dispatch_eq]
              cases hloop : parseStreamLoop buf fuel (sof + (6 + length)) with
              | none =>
                split
                · rw [Option.bind_some, ih, hloop]
                  rfl
                · rfl
              | some r =>
                rw [Option.bind_some, Option.bind_some, Stdout.count_cons]
                split
                · rw [Option.bind_some, ih, hloop, Option.bind_some]
                · rfl

theorem receiveInto_eq (out : Stdout) (cs : List (Chunk UInt8 65536)) (buf : List UInt8)
    (stats : Stats) : receiveInto out cs buf stats = (receive buf cs).bind (out.count stats) := by
  induction cs generalizing buf stats with
  | nil => rfl
  | cons c cs ih =>
    rw [receiveInto, receive, parseInto_eq, ← parseStream]
    cases parseStream (buf ++ c.bytes) with
    | none => rfl
    | some r =>
      simp only [Option.bind_eq_bind, Option.bind_some]
      cases hmore : receive r.2 cs with
      | none =>
        rw [Stdout.count]
        split
        · rw [Option.bind_some, ih, hmore]
          rfl
        · rfl
      | some r' =>
        rw [Option.bind_some, Option.bind_some, Stdout.count_append, Stdout.count]
        split
        · rw [Option.bind_some, ih, hmore, Option.bind_some]
        · rfl

theorem tally_ok (fs : List (UInt8 × List UInt8)) :
    (Stats.tally {} fs).ok = true ↔
      (∀ f ∈ fs, ¬ isBad f) ∧ ∃ f ∈ fs, f.1 = frameVideo ∨ f.1 = frameText := by
  unfold Stats.ok Stats.tally
  simp only [Nat.zero_add, Bool.and_eq_true, beq_iff_eq, Bool.or_eq_true, decide_eq_true_eq,
    List.countP_eq_zero, List.countP_pos_iff]
  apply and_congr_right
  intro _
  constructor
  · rintro (⟨f, hf, hvideo⟩ | ⟨f, hf, htext⟩)
    · exact ⟨f, hf, Or.inl hvideo⟩
    · exact ⟨f, hf, Or.inr htext⟩
  · rintro ⟨f, hf, hvideo | htext⟩
    · exact Or.inl ⟨f, hf, hvideo⟩
    · exact Or.inr ⟨f, hf, htext⟩

/-- The loop of `main` counts the frames in the stream. -/
theorem receiveInto_items (out : Stdout) (cs : List (Chunk UInt8 65536)) :
    receiveInto out cs [] {} =
      out.count {} (frameScanner.items (cs.flatMap Chunk.bytes),
        dropNoise (frameScanner.rest (cs.flatMap Chunk.bytes))) := by
  have hreceive := receive_eq frameScanner.verdict_nil cs
  have hnoise : dropNoise [] = [] := rfl
  rw [List.nil_append, hnoise] at hreceive
  rw [receiveInto_eq, hreceive, Option.bind_some]

/-- All that is printed for frames can be. -/
def Stdout.Prints (out : Stdout) (fs : List (UInt8 × List UInt8)) : Prop :=
  out.banner ∧ (∀ f ∈ fs, out.line f) ∧ out.summary

instance (out : Stdout) (fs : List (UInt8 × List UInt8)) : Decidable (out.Prints fs) :=
  instDecidableAnd

theorem checkMain_items (out : Stdout) (cs : List (Chunk UInt8 65536)) :
    checkMain out cs = if out.Prints (frameScanner.items (cs.flatMap Chunk.bytes)) then
      some (if (Stats.tally {} (frameScanner.items (cs.flatMap Chunk.bytes))).ok then 0 else 1)
      else none := by
  rw [checkMain, receiveInto_items, Stdout.count]
  generalize frameScanner.items (cs.flatMap Chunk.bytes) = fs
  have hprints : out.Prints fs ↔ (out.banner && (fs.all out.line && out.summary)) = true := by
    simp [Stdout.Prints]
  rw [if_congr hprints rfl rfl]
  cases out.banner with
  | false => rfl
  | true =>
    cases fs.all out.line with
    | false => rfl
    | true =>
      cases out.summary with
      | false => rfl
      | true => exact (apply_ite some _ _ _).symm

end Patrol.Network
