import Patrol.App.ServeClient

/-! What a session puts on the wire.  Apart from its greeting, a session sends the frames that its
turns ask for, in order, up to the first that is not sent in full. -/

namespace Patrol.App

open Network ProofKit

/-- The sends of a sequence of frames that stops at the first that is not sent in full. -/
def sendSeq : List (UInt8 × List UInt8) → List SendResult → List Sent
  | [], _ => []
  | (type, payload) :: fs, rs =>
    let o := sendFrame type payload rs
    ⟨frameBytes type payload, o.accepted⟩ :: if o.ret = some true then sendSeq fs o.rest else []

/-! The frames that a turn asks for, and the counters after it. -/

def grabFrames (t : Turn) : List (UInt8 × List UInt8) :=
  match t.grab with
  | some data => if 0 < data.length then [(frameVideo, data)] else []
  | none => []

def grabFails (grabFailCnt : UInt32) (t : Turn) : UInt32 :=
  match t.grab with
  | some _ => 0
  | none => grabFailCnt + 1

def sensorFrames (lastSensorMs : UInt32) (t : Turn) : List (UInt8 × List UInt8) :=
  if 1000 ≤ t.now - lastSensorMs then [(frameSensor, packSensor (sensorData t.now))] else []

def sensorMs (lastSensorMs : UInt32) (t : Turn) : UInt32 :=
  if 1000 ≤ t.now - lastSensorMs then t.now else lastSensorMs

/-- The frames that a session asks for if all of them are sent: those of its turns up to a stop
request, the fifth failed grab in a row, or the end of the connection. -/
def plan (grabFailCnt lastSensorMs : UInt32) : List Turn → List (UInt8 × List UInt8)
  | [] => []
  | t :: ts =>
    if !t.running then []
    else if 5 ≤ grabFails grabFailCnt t then []
    else
      grabFrames t ++ (sensorFrames lastSensorMs t ++
        if t.reads.last = .again
        then plan (grabFails grabFailCnt t) (sensorMs lastSensorMs t) ts else [])

/-- A part of a turn sends `fs`: it leaves the sends of what follows to the session it returns, or it
ends the session among the sends of `fs`. -/
def Sends (fs : List (UInt8 × List UInt8)) (s : Session) :
    Except (SessionEnd × Session) Session → Prop
  | .ok s' => ∀ more, s.log ++ sendSeq (fs ++ more) s.sends = s'.log ++ sendSeq more s'.sends
  | .error e => ∀ more, s.log ++ sendSeq (fs ++ more) s.sends = e.2.log

/-- What follows a part of a turn: the session goes on with `k`, or it has ended. -/
def andThen (k : Session → SessionEnd × Session) :
    Except (SessionEnd × Session) Session → SessionEnd × Session
  | .ok s => k s
  | .error e => e

theorem andThen_bind (k : Session → SessionEnd × Session)
    (r : Except (SessionEnd × Session) Session)
    (f : Session → Except (SessionEnd × Session) Session) :
    andThen k (r >>= f) = andThen (fun s => andThen k (f s)) r := by
  cases r <;> rfl

theorem Sends.andThen {fs more : List (UInt8 × List UInt8)} {s : Session}
    {r : Except (SessionEnd × Session) Session} (h : Sends fs s r)
    {k : Session → SessionEnd × Session}
    (hk : ∀ s', r = .ok s' → (k s').2.log = s'.log ++ sendSeq more s'.sends) :
    (App.andThen k r).2.log = s.log ++ sendSeq (fs ++ more) s.sends := by
  cases r with
  | error e => exact (h more).symm
  | ok s' => exact (hk s' rfl).trans (h more).symm

theorem sendOrBreak_sends (type : UInt8) (payload : List UInt8) (s : Session) :
    Sends [(type, payload)] s (sendOrBreak type payload s) ∧
      ∀ s', sendOrBreak type payload s = .ok s' →
        s'.grabFailCnt = s.grabFailCnt ∧ s'.lastSensorMs = s.lastSensorMs := by
  simp only [sendOrBreak, onSocket]
  cases h : (sendFrame type payload s.sends).ret with
  | none =>
    constructor
    · intro more
      simp [sendSeq, h]
    · intro s' hs
      cases hs
  | some ok =>
    cases ok with
    | true =>
      constructor
      · intro more
        simp [sendSeq, h]
      · intro s' hs
        cases hs
        exact ⟨rfl, rfl⟩
    | false =>
      constructor
      · intro more
        simp [sendSeq, h]
      · intro s' hs
        cases hs

theorem serveGrab_sends {t : Turn} {s : Session} (h : ¬ 5 ≤ grabFails s.grabFailCnt t) :
    Sends (grabFrames t) s (serveGrab t s) ∧
      ∀ s', serveGrab t s = .ok s' →
        s'.grabFailCnt = grabFails s.grabFailCnt t ∧ s'.lastSensorMs = s.lastSensorMs := by
  unfold grabFails at h ⊢
  unfold grabFrames serveGrab
  cases hgrab : t.grab with
  | some data =>
    simp only
    split
    · exact sendOrBreak_sends frameVideo data { s with grabFailCnt := 0 }
    · refine ⟨fun more => rfl, ?_⟩
      intro s' hs
      cases hs
      exact ⟨rfl, rfl⟩
  | none =>
    rw [hgrab] at h
    simp only [if_neg h]
    refine ⟨fun more => rfl, ?_⟩
    intro s' hs
    cases hs
    exact ⟨rfl, rfl⟩

theorem serveGrab_fails {t : Turn} {s : Session} (h : 5 ≤ grabFails s.grabFailCnt t) :
    ∃ e, serveGrab t s = .error e ∧ e.2.log = s.log := by
  unfold grabFails at h
  unfold serveGrab
  cases hgrab : t.grab with
  | some data =>
    rw [hgrab] at h
    exact absurd h (show ¬ (5 : UInt32) ≤ 0 by decide)
  | none =>
    rw [hgrab] at h
    exact ⟨_, if_pos h, rfl⟩

theorem serveSensor_sends (t : Turn) (s : Session) :
    Sends (sensorFrames s.lastSensorMs t) s (serveSensor t s) ∧
      ∀ s', serveSensor t s = .ok s' →
        s'.grabFailCnt = s.grabFailCnt ∧ s'.lastSensorMs = sensorMs s.lastSensorMs t := by
  unfold sensorFrames sensorMs serveSensor
  split
  · exact sendOrBreak_sends frameSensor _ { s with lastSensorMs := t.now }
  · refine ⟨fun more => rfl, ?_⟩
    intro s' hs
    cases hs
    exact ⟨rfl, rfl⟩

/-- Polling sends nothing, and goes on exactly when the connection has not ended. -/
theorem servePoll_silent (t : Turn) (s : Session) :
    if t.reads.last = .again then
      ∃ rxBuf, servePoll t s = .ok { s with rxBuf }
    else ∃ e, servePoll t s = .error e ∧ e.2.log = s.log := by
  unfold servePoll
  split
  · rename_i hlast
    rw [pollCommands_again hlast]
    have hrc : ¬ (t.reads.bytes.length : Int) < 0 := by omega
    simp only [if_neg hrc]
    exact ⟨_, rfl⟩
  · rename_i hlast
    obtain ⟨rc, hrc, hpoll⟩ := pollCommands_ended hlast s.rxBuf []
    rw [hpoll]
    simp only [if_pos hrc]
    exact ⟨_, rfl, rfl⟩

theorem serveTurn_running {t : Turn} (h : t.running = true) (s : Session) :
    serveTurn t s = serveGrab t s >>= fun s => serveSensor t s >>= servePoll t := by
  rw [serveTurn, h]
  rfl

theorem serveLoop_cons (t : Turn) (ts : List Turn) (s : Session) :
    serveLoop (t :: ts) s = andThen (serveLoop ts) (serveTurn t s) := rfl

theorem serveLoop_running {t : Turn} (h : t.running = true) (ts : List Turn) (s : Session) :
    serveLoop (t :: ts) s =
      andThen (fun s => andThen (fun s => andThen (serveLoop ts) (servePoll t s))
        (serveSensor t s)) (serveGrab t s) := by
  simp only [serveLoop_cons, serveTurn_running h, andThen_bind]

/-- A session sends the frames that its turns ask for. -/
theorem serveLoop_log (turns : List Turn) (s : Session) :
    (serveLoop turns s).2.log =
      s.log ++ sendSeq (plan s.grabFailCnt s.lastSensorMs turns) s.sends := by
  induction turns generalizing s with
  | nil => simp [serveLoop, plan, sendSeq]
  | cons t ts ih =>
    cases hrun : t.running with
    | false => simp [serveLoop, serveTurn, plan, hrun, sendSeq]
    | true =>
      rw [serveLoop_running hrun, plan, hrun]
      simp only [Bool.not_true, if_false, Bool.false_eq_true]
      by_cases hfail : 5 ≤ grabFails s.grabFailCnt t
      · obtain ⟨e, hg, hlog⟩ := serveGrab_fails hfail
        rw [if_pos hfail, hg, sendSeq, List.append_nil]
        exact hlog
      · obtain ⟨hgrab, hcounts⟩ := serveGrab_sends hfail
        rw [if_neg hfail]
        apply hgrab.andThen
        intro s1 h1
        obtain ⟨hcnt1, hms1⟩ := hcounts s1 h1
        obtain ⟨hsensor, hcounts⟩ := serveSensor_sends t s1
        rw [← hms1, ← hcnt1]
        apply hsensor.andThen
        intro s2 h2
        obtain ⟨hcnt2, hms2⟩ := hcounts s2 h2
        rw [← hms2, ← hcnt2]
        have hpoll := servePoll_silent t s2
        split at hpoll
        · rename_i hlast
          obtain ⟨rxBuf, hp⟩ := hpoll
          rw [hp, if_pos hlast]
          exact ih _
        · rename_i hlast
          obtain ⟨e, hp, hlog⟩ := hpoll
          rw [hp, if_neg hlast, sendSeq, List.append_nil]
          exact hlog

/-! ### The bytes on the wire -/

/-- Part of a frame is on the wire, but not all of it. -/
def Sent.Cut (x : Sent) : Prop := x.accepted ≠ [] ∧ x.accepted ≠ x.frame

def wire (log : List Sent) : List UInt8 := log.flatMap Sent.accepted

/-- The bytes on the wire are a prefix of frames, and none follow a frame that was cut short. -/
structure Intact (log : List Sent) : Prop where
  frames : ∃ fs : List Frame, wire log <+: fs.flatMap Frame.bytes
  cut_last : log.Pairwise fun x y => x.Cut → y.accepted = []

/-- A send of a frame that the protocol can carry. -/
def Sent.Legal (x : Sent) : Prop := x.accepted <+: x.frame ∧ ∃ f : Frame, x.frame = f.bytes

theorem wire_silent {log : List Sent} (h : ∀ x ∈ log, x.accepted = []) : wire log = [] := by
  rw [wire, List.flatMap_eq_nil_iff]
  exact h

/-- Where no bytes follow a cut frame, the wire holds a prefix of frames. -/
theorem frames_of_cut_last {log : List Sent} (hlegal : ∀ x ∈ log, x.Legal)
    (h : log.Pairwise fun x y => x.Cut → y.accepted = []) :
    ∃ fs : List Frame, wire log <+: fs.flatMap Frame.bytes := by
  induction log with
  | nil => exact ⟨[], List.nil_prefix⟩
  | cons x log ih =>
    obtain ⟨hx, hlog⟩ := List.pairwise_cons.mp h
    obtain ⟨hpre, f, hf⟩ := hlegal x (by simp)
    obtain ⟨fs, hfs⟩ := ih (fun y hy => hlegal y (List.mem_cons_of_mem _ hy)) hlog
    have hwire : wire (x :: log) = x.accepted ++ wire log := rfl
    by_cases hnone : x.accepted = []
    · exact ⟨fs, by rwa [hwire, hnone, List.nil_append]⟩
    · by_cases hall : x.accepted = x.frame
      · refine ⟨f :: fs, ?_⟩
        rw [hwire, hall, hf, List.flatMap_cons]
        exact (List.prefix_append_right_inj _).mpr hfs
      · refine ⟨[f], ?_⟩
        rw [hwire, wire_silent fun y hy => hx y hy ⟨hnone, hall⟩, List.append_nil,
          List.flatMap_singleton, ← hf]
        exact hpre

theorem sendFrame_legal {type : UInt8} {payload : List UInt8}
    (hlen : payload.length ≤ llMaxPayload.toNat) (rs : List SendResult) :
    Sent.Legal ⟨frameBytes type payload, (sendFrame type payload rs).accepted⟩ := by
  refine ⟨?_, ⟨type, payload, hlen⟩, rfl⟩
  rw [sendFrame_eq]
  exact List.take_prefix _ _

/-- A frame that is cut short is the last of its sequence. -/
theorem sendSeq_cut_last (fs : List (UInt8 × List UInt8)) (rs : List SendResult) :
    (sendSeq fs rs).Pairwise fun x y => x.Cut → y.accepted = [] := by
  induction fs generalizing rs with
  | nil => exact .nil
  | cons f fs ih =>
    rw [sendSeq]
    split
    · rename_i hok
      refine List.pairwise_cons.mpr ⟨?_, ih _⟩
      intro y _ hcut
      exact absurd (sendFrame_complete hok) hcut.2
    · exact List.pairwise_singleton _ _

theorem sendSeq_legal {fs : List (UInt8 × List UInt8)}
    (hfs : ∀ f ∈ fs, f.2.length ≤ llMaxPayload.toNat) (rs : List SendResult) :
    ∀ x ∈ sendSeq fs rs, x.Legal := by
  induction fs generalizing rs with
  | nil => simp [sendSeq]
  | cons f fs ih =>
    rw [sendSeq]
    intro x hx
    rcases List.mem_cons.mp hx with rfl | hx
    · exact sendFrame_legal (hfs f (by simp)) rs
    · split at hx
      · exact ih (fun g hg => hfs g (List.mem_cons_of_mem _ hg)) _ x hx
      · cases hx

theorem intact_cons {x : Sent} {log : List Sent} (hx : x.Legal) (hlog : ∀ y ∈ log, y.Legal)
    (hcut : log.Pairwise fun x y => x.Cut → y.accepted = []) :
    Intact (x :: log) ↔ (x.Cut → ∀ y ∈ log, y.accepted = []) := by
  constructor
  · rintro ⟨-, hpair⟩ hx y hy
    exact (List.pairwise_cons.mp hpair).1 y hy hx
  · intro h
    have hpair : (x :: log).Pairwise fun x y => x.Cut → y.accepted = [] :=
      List.pairwise_cons.mpr ⟨fun y hy hx => h hx y hy, hcut⟩
    refine ⟨frames_of_cut_last ?_ hpair, hpair⟩
    exact List.forall_mem_cons.mpr ⟨hx, hlog⟩

/-- Whether the socket accepts a byte of a frame. -/
theorem accepted_eq_nil (type : UInt8) (payload : List UInt8) (rs : List SendResult) :
    (sendFrame type payload rs).accepted = [] ↔ accepts retried rs = false := by
  have hpos := fullWrite₂_count_pos retried rs 5 payload.length
  have hne : frameBytes type payload ≠ [] := by simp [frameBytes, buildHeader]
  rw [sendFrame_eq]
  simp only [List.take_eq_nil_iff, hne, or_false]
  rw [← Bool.not_eq_true, ← hpos]
  exact Nat.pos_iff_ne_zero.not_left.symm

/-- A sequence of sends leaves the wire as it is exactly when it is empty or its first byte is not
accepted. -/
theorem sendSeq_silent (fs : List (UInt8 × List UInt8)) (rs : List SendResult) :
    (∀ x ∈ sendSeq fs rs, x.accepted = []) ↔ (fs = [] ∨ accepts retried rs = false) := by
  cases fs with
  | nil => simp [sendSeq]
  | cons f fs =>
    rw [sendSeq, List.forall_mem_cons, accepted_eq_nil]
    constructor
    · rintro ⟨hnone, -⟩
      exact .inr hnone
    · rintro (hnil | hnone)
      · cases hnil
      · refine ⟨hnone, ?_⟩
        split
        · rename_i hok
          have hall := sendFrame_complete hok
          rw [(accepted_eq_nil _ _ _).mpr hnone] at hall
          simp [frameBytes, buildHeader] at hall
        · simp

theorem grabFrames_le {t : Turn} (h : ∀ data ∈ t.grab, data.length ≤ llMaxPayload.toNat) :
    ∀ f ∈ grabFrames t, f.2.length ≤ llMaxPayload.toNat := by
  intro f hf
  unfold grabFrames at hf
  split at hf
  · rename_i data hdata
    split_ifs at hf
    · rw [List.mem_singleton.mp hf]
      exact h data hdata
    · cases hf
  · cases hf

theorem sensorFrames_le (lastSensorMs : UInt32) (t : Turn) :
    ∀ f ∈ sensorFrames lastSensorMs t, f.2.length ≤ llMaxPayload.toNat := by
  intro f hf
  unfold sensorFrames at hf
  split_ifs at hf
  · rw [List.mem_singleton.mp hf, packSensor_length]
    decide
  · cases hf

theorem plan_le {turns : List Turn}
    (h : ∀ t ∈ turns, ∀ data ∈ t.grab, data.length ≤ llMaxPayload.toNat)
    (grabFailCnt lastSensorMs : UInt32) :
    ∀ f ∈ plan grabFailCnt lastSensorMs turns, f.2.length ≤ llMaxPayload.toNat := by
  induction turns generalizing grabFailCnt lastSensorMs with
  | nil => simp [plan]
  | cons t ts ih =>
    have ih := ih fun u hu => h u (List.mem_cons_of_mem _ hu)
    intro f hf
    rw [plan] at hf
    split_ifs at hf with hrun hfail hlast
    · cases hf
    · cases hf
    · rcases List.mem_append.mp hf with hf | hf
      · exact grabFrames_le (h t (by simp)) f hf
      · rcases List.mem_append.mp hf with hf | hf
        · exact sensorFrames_le lastSensorMs t f hf
        · exact ih _ _ f hf
    · rcases List.mem_append.mp hf with hf | hf
      · exact grabFrames_le (h t (by simp)) f hf
      · rw [List.append_nil] at hf
        exact sensorFrames_le lastSensorMs t f hf

/-! ### Sessions -/

/-- What the results of the `send` calls make of the greeting. -/
def greeting (cam : Camera) (sends : List SendResult) : Served Errno :=
  fullWrite₂ retried sends llHeaderSize (readyText cam).length

theorem serveClient_log {cam : Camera} (h : cam.started = true) (turns : List Turn)
    (sends : List SendResult) :
    (serveClient cam turns sends).2.log =
      ⟨frameBytes frameText (readyText cam),
        (frameBytes frameText (readyText cam)).take (greeting cam sends).count⟩ ::
        if (greeting cam sends).ok = none then []
        else sendSeq (plan 0 0 turns) (greeting cam sends).rest := by
  have hsend := sendFrame_eq frameText (readyText cam) sends
  simp only [serveClient, h, onSocket, sendText, hsend, Bool.not_true, Bool.false_eq_true, if_false]
  show _ = _ :: if (greeting cam sends).ok = none then _ else _
  rw [show fullWrite₂ retried sends llHeaderSize (readyText cam).length = greeting cam sends from rfl]
  cases hok : (greeting cam sends).ok with
  | none => rfl
  | some ok => exact serveLoop_log turns _

theorem repr_length_le (x : Int32) : (toString x.toInt).length ≤ 11 := by
  have hlow := x.le_toInt
  have hhigh := x.toInt_lt
  rw [Int.toString_eq_repr]
  cases h : x.toInt with
  | ofNat n =>
    rw [h, Int.ofNat_eq_natCast] at hhigh
    have hn := (Nat.length_repr_le_iff (n := n) (show 0 < 10 by decide)).mpr (by omega)
    show n.repr.length ≤ 11
    omega
  | negSucc n =>
    rw [h] at hlow
    have hn := (Nat.length_repr_le_iff (n := n.succ) (show 0 < 10 by decide)).mpr (by omega)
    show ("-" ++ n.succ.repr).length ≤ 11
    rw [String.length_append]
    have : "-".length = 1 := rfl
    omega

theorem readyText_le (cam : Camera) : (readyText cam).length ≤ llMaxPayload.toNat := by
  have hwidth := repr_length_le cam.width
  have hheight := repr_length_le cam.height
  have hformat : (if cam.isMjpeg then " MJPEG" else " RAW").length ≤ 6 := by
    split <;> decide
  have hready : "PatrolSystem ready ".length = 19 := rfl
  have hx : "x".length = 1 := rfl
  have hmax : llMaxPayload.toNat = 16777216 := rfl
  simp only [readyText, List.length_map, String.length_toList, String.length_append]
  omega

/-- The greeting is cut short exactly when its sends fail after the first byte. -/
theorem greeting_cut (cam : Camera) (sends : List SendResult) :
    Sent.Cut ⟨frameBytes frameText (readyText cam),
        (frameBytes frameText (readyText cam)).take (greeting cam sends).count⟩ ↔
      0 < (greeting cam sends).count ∧ (greeting cam sends).ok ≠ some true := by
  have hlen := frameBytes_length frameText (readyText cam)
  obtain ⟨-, hok⟩ := fullWrite₂_count retried sends llHeaderSize (readyText cam).length
  have hne : frameBytes frameText (readyText cam) ≠ [] := by simp [frameBytes, buildHeader]
  simp only [Sent.Cut, ne_eq, List.take_eq_nil_iff, hne, or_false, List.take_eq_self_iff, greeting,
    hok, hlen]
  have hle := (fullWrite₂_count retried sends llHeaderSize (readyText cam).length).1
  omega

/-- What a session puts on the wire is intact exactly when its greeting is not cut short before
another frame of which the socket accepts a byte. -/
theorem session_intact_iff (cam : Camera) {turns : List Turn}
    (hgrab : ∀ t ∈ turns, ∀ data ∈ t.grab, data.length ≤ llMaxPayload.toNat)
    (sends : List SendResult) :
    Intact (serveClient cam turns sends).2.log ↔
      ¬ (cam.started = true ∧ (greeting cam sends).ok = some false ∧
        0 < (greeting cam sends).count ∧ plan 0 0 turns ≠ [] ∧
        accepts retried (greeting cam sends).rest = true) := by
  cases hstart : cam.started with
  | false =>
    have hlog : (serveClient cam turns sends).2.log = [] := by simp [serveClient, hstart]
    rw [hlog]
    exact ⟨fun _ h => Bool.false_ne_true h.1, fun _ => ⟨⟨[], List.nil_prefix⟩, .nil⟩⟩
  | true =>
    have hx : Sent.Legal ⟨frameBytes frameText (readyText cam),
        (frameBytes frameText (readyText cam)).take (greeting cam sends).count⟩ :=
      ⟨List.take_prefix _ _, ⟨frameText, readyText cam, readyText_le cam⟩, rfl⟩
    have hcut := greeting_cut cam sends
    rw [serveClient_log hstart]
    split
    · rename_i hok
      rw [intact_cons hx (by simp) .nil]
      simp [hok]
    · rename_i hok
      rw [intact_cons hx (sendSeq_legal (plan_le hgrab 0 0) _) (sendSeq_cut_last _ _), hcut,
        sendSeq_silent]
      constructor
      · rintro h ⟨-, hfail, hpos, hplan, haccepts⟩
        rcases h ⟨hpos, by rw [hfail]; decide⟩ with hnil | hnone
        · exact hplan hnil
        · rw [hnone] at haccepts
          cases haccepts
      · rintro h ⟨hpos, hfull⟩
        by_contra hmore
        rw [not_or] at hmore
        refine h ⟨rfl, ?_, hpos, hmore.1, Bool.eq_true_of_not_eq_false hmore.2⟩
        match hret : (greeting cam sends).ok with
        | none => exact absurd hret hok
        | some true => exact absurd hret hfull
        | some false => rfl

/-- A camera, and a turn that grabs one byte. -/
def smallCamera : Camera := ⟨true, 2, 2, false⟩
def smallTurn : Turn := ⟨true, some [7], 0, ⟨[], .again⟩⟩

theorem session_intact_partial :
    Intact (serveClient smallCamera [smallTurn] [.wrote 3, .failed .eintr, .wrote 90]).2.log ↔
      ¬ (smallCamera.started = true ∧
        (greeting smallCamera [.wrote 3, .failed .eintr, .wrote 90]).ok = some false ∧
        0 < (greeting smallCamera [.wrote 3, .failed .eintr, .wrote 90]).count ∧
        plan 0 0 [smallTurn] ≠ [] ∧
        accepts retried (greeting smallCamera [.wrote 3, .failed .eintr, .wrote 90]).rest = true) :=
  session_intact_iff smallCamera (by decide) _

/-- The video frame that follows three bytes of the greeting is read as a part of its length. -/
theorem greeting_torn :
    ¬ Intact (serveClient smallCamera [smallTurn]
      [.wrote 3, .failed .other, .wrote 6, .wrote 1]).2.log := by
  rintro ⟨⟨fs, c, hfs⟩, -⟩
  have hwire : wire (serveClient smallCamera [smallTurn]
      [.wrote 3, .failed .other, .wrote 6, .wrote 1]).2.log =
      [0xA5, 0x30, 26, 0xA5, 0x10, 1, 0, 0, 0, 7] := by
    decide +kernel
  rw [hwire] at hfs
  have hskip : frameScanner.verdict [0xA5, 0x30, 26, 0xA5, 0x10, 1, 0, 0, 0, 7] = .skip := by
    decide
  have hstable := frameScanner.stable c (show _ ≠ _ by rw [hskip]; decide)
  rw [hfs, hskip] at hstable
  cases fs with
  | nil => cases hfs
  | cons f fs =>
    rw [List.flatMap_cons, verdict_bytes] at hstable
    cases hstable

end Patrol.App
