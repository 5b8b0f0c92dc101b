import Patrol.App.WireIntegrity
import Patrol.Network.Receiver

/-! What the receiver takes from a session: the frames that the session sent whole, in their order, up to
where the connection is cut. -/

namespace Patrol.App

open Network ProofKit

/-- The sends of a log are sends of these frames, one of each, as far as they go. -/
def SendsOf : List (UInt8 × List UInt8) → List Sent → Prop :=
  List.Forall₂ fun f x => x.frame = frameBytes f.1 f.2 ∧ x.accepted <+: x.frame

/-- The frames that were sent whole. -/
def sentWhole : List (UInt8 × List UInt8) → List Sent → List (UInt8 × List UInt8)
  | f :: fs, x :: log => if x.accepted = x.frame then f :: sentWhole fs log else sentWhole fs log
  | _, _ => []

theorem sentWhole_sublist (fs : List (UInt8 × List UInt8)) (log : List Sent) :
    (sentWhole fs log).Sublist fs := by
  induction fs generalizing log with
  | nil => exact List.nil_sublist _
  | cons f fs ih =>
    cases log with
    | nil => exact List.nil_sublist _
    | cons x log =>
      rw [sentWhole]
      split
      · exact (ih log).cons_cons f
      · exact (ih log).cons f

theorem frameBytes_ne_nil (type : UInt8) (payload : List UInt8) : frameBytes type payload ≠ [] := by
  simp [frameBytes, buildHeader]

/-- No frame has been sent whole where no byte was accepted. -/
theorem sentWhole_silent {fs : List (UInt8 × List UInt8)} {log : List Sent} (h : SendsOf fs log)
    (hlog : ∀ x ∈ log, x.accepted = []) : sentWhole fs log = [] := by
  induction h with
  | nil => rfl
  | cons hx _ ih =>
    rw [List.forall_mem_cons] at hlog
    rw [sentWhole, if_neg, ih hlog.2]
    rw [hlog.1, hx.1]
    exact (frameBytes_ne_nil _ _).symm

/-- Frames that were not begun have not been sent whole. -/
theorem sentWhole_append {fs : List (UInt8 × List UInt8)} {log : List Sent} (h : SendsOf fs log)
    (more : List (UInt8 × List UInt8)) : sentWhole (fs ++ more) log = sentWhole fs log := by
  induction h with
  | nil => cases more <;> rfl
  | cons _ _ ih => rw [List.cons_append, sentWhole, sentWhole, ih]

/-- A part of a frame that is not all of it scans to nothing. -/
theorem items_part {f : Frame} {w : List UInt8} (h : w <+: f.bytes) (hne : w ≠ f.bytes) :
    frameScanner.items w = [] := by
  apply frameScanner.items_wait
  by_contra hwait
  obtain ⟨c, hc⟩ := h
  have hstable := frameScanner.stable c hwait
  have hwhole := verdict_bytes f []
  rw [List.append_nil] at hwhole
  rw [hc, hwhole] at hstable
  have hle := frameScanner.take_le hstable.symm
  exact hne (List.IsPrefix.eq_of_length_le ⟨c, hc⟩ hle)

/-- Of the bytes on the wire, up to wherever they are cut off, the frames are those sent whole. -/
theorem items_wire {fs : List (UInt8 × List UInt8)} {log : List Sent} (h : SendsOf fs log)
    (hle : ∀ f ∈ fs, f.2.length ≤ llMaxPayload.toNat)
    (hcut : log.Pairwise fun x y => x.Cut → y.accepted = []) {w : List UInt8} (hw : w <+: wire log) :
    frameScanner.items w <+: sentWhole fs log ∧
      (w = wire log → frameScanner.items w = sentWhole fs log) := by
  induction h generalizing w with
  | nil =>
    rw [List.prefix_nil.mp hw, frameScanner.items_wait frameScanner.verdict_nil]
    exact ⟨List.nil_prefix, fun _ => rfl⟩
  | @cons f x fs log hx hlog ih =>
    rw [List.forall_mem_cons] at hle
    obtain ⟨hxcut, hcut⟩ := List.pairwise_cons.mp hcut
    have hframe : x.frame = Frame.bytes ⟨f.1, f.2, hle.1⟩ := hx.1
    have hwire : wire (x :: log) = x.accepted ++ wire log := rfl
    rw [hwire] at hw ⊢
    by_cases hall : x.accepted = x.frame
    · rw [sentWhole, if_pos hall]
      rw [hall, hframe] at hw ⊢
      -- The frame has arrived whole, or the bytes end in it.
      by_cases hwhole : Frame.bytes ⟨f.1, f.2, hle.1⟩ <+: w
      · obtain ⟨w', rfl⟩ := hwhole
        obtain ⟨hpre, heq⟩ := ih hle.2 hcut ((List.prefix_append_right_inj _).mp hw)
        rw [items_bytes]
        refine ⟨List.cons_prefix_cons.mpr ⟨rfl, hpre⟩, fun h => ?_⟩
        rw [heq (List.append_cancel_left h)]
      · have hpart : w <+: Frame.bytes ⟨f.1, f.2, hle.1⟩ :=
          (List.prefix_or_prefix_of_prefix hw (List.prefix_append _ _)).resolve_right hwhole
        rw [items_part hpart fun h => hwhole (h ▸ List.prefix_rfl)]
        exact ⟨List.nil_prefix, fun h => absurd (h ▸ List.prefix_append _ _) hwhole⟩
    · rw [sentWhole, if_neg hall]
      by_cases hnone : x.accepted = []
      · rw [hnone, List.nil_append] at hw ⊢
        exact ih hle.2 hcut hw
      · have hsilent := fun y hy => hxcut y hy ⟨hnone, hall⟩
        rw [wire_silent hsilent, List.append_nil] at hw ⊢
        rw [sentWhole_silent hlog hsilent]
        have haccepted := hx.2
        rw [hframe] at haccepted
        have hne : w ≠ Frame.bytes ⟨f.1, f.2, hle.1⟩ := by
          intro h
          rw [h] at hw
          exact hall ((List.IsPrefix.eq_of_length_le haccepted hw.length_le).trans hframe.symm)
        rw [items_part (hw.trans haccepted) hne]
        exact ⟨List.nil_prefix, fun _ => rfl⟩

theorem sendSeq_sendsOf (fs : List (UInt8 × List UInt8)) (rs : List SendResult) :
    ∃ n, SendsOf (fs.take n) (sendSeq fs rs) := by
  induction fs generalizing rs with
  | nil => exact ⟨0, .nil⟩
  | cons f fs ih =>
    have hx : (sendFrame f.1 f.2 rs).accepted <+: frameBytes f.1 f.2 := by
      rw [sendFrame_eq]
      exact List.take_prefix _ _
    rw [sendSeq]
    split
    · obtain ⟨n, hn⟩ := ih (sendFrame f.1 f.2 rs).rest
      exact ⟨n + 1, .cons ⟨rfl, hx⟩ hn⟩
    · exact ⟨1, .cons ⟨rfl, hx⟩ .nil⟩

/-- The frames of a session, if all of them are sent. -/
def sessionFrames (cam : Camera) (turns : List Turn) : List (UInt8 × List UInt8) :=
  (frameText, readyText cam) :: plan 0 0 turns

/-- A session whose greeting is not cut short by a failed send. -/
theorem session_sends {cam : Camera} {turns : List Turn} {sends : List SendResult}
    (hgreeting : ¬ ((greeting cam sends).ok = some false ∧ 0 < (greeting cam sends).count)) :
    (∃ n, SendsOf ((sessionFrames cam turns).take n) (serveClient cam turns sends).2.log) ∧
      (serveClient cam turns sends).2.log.Pairwise fun x y => x.Cut → y.accepted = [] := by
  cases hstart : cam.started with
  | false =>
    have hlog : (serveClient cam turns sends).2.log = [] := by simp [serveClient, hstart]
    rw [hlog]
    exact ⟨⟨0, .nil⟩, .nil⟩
  | true =>
    rw [serveClient_log hstart]
    obtain ⟨n, hn⟩ := sendSeq_sendsOf (plan 0 0 turns) (greeting cam sends).rest
    have hx := List.take_prefix (greeting cam sends).count (frameBytes frameText (readyText cam))
    split
    · exact ⟨⟨1, .cons ⟨rfl, hx⟩ .nil⟩, List.pairwise_singleton _ _⟩
    · next hreturned =>
      refine ⟨⟨n + 1, .cons ⟨rfl, hx⟩ hn⟩, List.pairwise_cons.mpr ⟨?_, sendSeq_cut_last _ _⟩⟩
      intro y _ hcut
      obtain ⟨hpos, hok⟩ := (greeting_cut cam sends).mp hcut
      refine absurd ⟨?_, hpos⟩ hgreeting
      cases hret : (greeting cam sends).ok with
      | none => exact absurd hret hreturned
      | some ok =>
        cases ok with
        | true => exact absurd hret hok
        | false => rfl

/-- Of the bytes of a session, up to wherever they are cut off, the frames are those sent whole. -/
theorem items_session {cam : Camera} {turns : List Turn}
    (hgrab : ∀ t ∈ turns, ∀ data ∈ t.grab, data.length ≤ llMaxPayload.toNat)
    {sends : List SendResult}
    (hgreeting : ¬ ((greeting cam sends).ok = some false ∧ 0 < (greeting cam sends).count))
    {w : List UInt8} (hw : w <+: wire (serveClient cam turns sends).2.log) :
    let whole := sentWhole (sessionFrames cam turns) (serveClient cam turns sends).2.log
    whole.Sublist (sessionFrames cam turns) ∧ frameScanner.items w <+: whole ∧
      (w = wire (serveClient cam turns sends).2.log → frameScanner.items w = whole) := by
  dsimp only
  obtain ⟨⟨n, hsends⟩, hcut⟩ := @session_sends cam turns sends hgreeting
  have hle : ∀ f ∈ (sessionFrames cam turns).take n, f.2.length ≤ llMaxPayload.toNat := by
    intro f hf
    rcases List.mem_cons.mp (List.mem_of_mem_take hf) with rfl | hf
    · exact readyText_le cam
    · exact plan_le hgrab 0 0 f hf
  have hwhole := sentWhole_append hsends ((sessionFrames cam turns).drop n)
  rw [List.take_append_drop] at hwhole
  rw [hwhole]
  exact ⟨(sentWhole_sublist _ _).trans (List.take_sublist _ _), items_wire hsends hle hcut hw⟩

/-- However the bytes of a session arrive, and wherever they end, the receiver takes frames that the
session sent whole, in their order and none twice, and all of them if all bytes arrive. -/
theorem session_received (cam : Camera) {turns : List Turn}
    (hgrab : ∀ t ∈ turns, ∀ data ∈ t.grab, data.length ≤ llMaxPayload.toNat)
    {sends : List SendResult}
    (hgreeting : ¬ ((greeting cam sends).ok = some false ∧ 0 < (greeting cam sends).count))
    {cs : List (Chunk UInt8 65536)}
    (hcs : cs.flatMap Chunk.bytes <+: wire (serveClient cam turns sends).2.log) :
    let whole := sentWhole (sessionFrames cam turns) (serveClient cam turns sends).2.log
    whole.Sublist (sessionFrames cam turns) ∧
      ∃ frames kept, receive [] cs = some (frames, kept) ∧ frames <+: whole ∧
        (cs.flatMap Chunk.bytes = wire (serveClient cam turns sends).2.log → frames = whole) := by
  obtain ⟨hsub, hpre, hall⟩ := items_session hgrab hgreeting hcs
  have hreceive := receive_eq frameScanner.verdict_nil cs
  rw [List.nil_append] at hreceive
  exact ⟨hsub, _, _, hreceive, hpre, hall⟩

/-- The log of a session whose greeting is sent in two parts. -/
def smallLog : List Sent :=
  (serveClient smallCamera [smallTurn] [.wrote 3, .failed .eintr, .wrote 90, .wrote 90]).2.log

/-- The connection is cut after twenty bytes. -/
def smallChunk : Chunk UInt8 65536 where
  bytes := (wire smallLog).take 20
  nonempty := by decide +kernel
  le_cap := (List.length_take_le 20 _).trans (by decide)

theorem session_received_cut :
    (sentWhole (sessionFrames smallCamera [smallTurn]) smallLog).Sublist
        (sessionFrames smallCamera [smallTurn]) ∧
      ∃ frames kept, receive [] [smallChunk] = some (frames, kept) ∧
        frames <+: sentWhole (sessionFrames smallCamera [smallTurn]) smallLog ∧
        ([smallChunk].flatMap Chunk.bytes = wire smallLog →
          frames = sentWhole (sessionFrames smallCamera [smallTurn]) smallLog) := by
  refine session_received smallCamera (by decide) (by decide +kernel) ?_
  rw [List.flatMap_singleton]
  exact List.take_prefix 20 (wire smallLog)

end Patrol.App
