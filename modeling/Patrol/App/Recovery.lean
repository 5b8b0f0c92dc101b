import Patrol.App.Application
import Patrol.App.WireIntegrity
import Patrol.Camera.Streaming
import Patrol.ProofKit.Fallible

/-! What a run makes of a camera that fails during a session. -/

namespace Patrol.App

open Network ProofKit
open Patrol.Camera

/-! ### Sessions on the camera -/

/-- What the turns of a session see of the camera and the socket. -/
def turnsOf : List ClientTurn → Video → List Turn
  | [], _ => []
  | t :: ts, v => (t.see v).2 :: turnsOf ts (t.see v).1

theorem serveTurns_eq (ts : List ClientTurn) (v : Video) (s : Session) :
    (serveTurns ts v s).2 = serveLoop (turnsOf ts v) s := by
  induction ts generalizing v s with
  | nil => rfl
  | cons t ts ih =>
    simp only [serveTurns, turnsOf, serveLoop]
    cases serveTurn (t.see v).2 s with
    | ok s' => exact ih _ s'
    | error e => rfl

/-- A session on the camera is a session that sees what the camera shows it. -/
theorem serveOn_eq (v : Video) (c : Client) :
    (serveOn v c).2 =
      serveClient
        ⟨(v.startStreaming c.start).2, (v.startStreaming c.start).1.camera.width,
          (v.startStreaming c.start).1.camera.height, (v.startStreaming c.start).1.camera.isMjpeg⟩
        (turnsOf c.turns (v.startStreaming c.start).1) c.sends := by
  rw [serveOn]
  rcases v.startStreaming c.start with ⟨v₁, _ | _⟩
  · rfl
  · simp only [serveClient, Bool.not_true, Bool.false_eq_true, if_false]
    rcases onSocket _ (sendText _ c.sends) _ with e | ⟨ok, s⟩
    · rfl
    · exact serveTurns_eq c.turns v₁ s

/-! ### How a session ends -/

/-- The turns of a session as far as it lasts. -/
def lasting (ts : List Turn) (s : Session) : Except (SessionEnd × Session) Session :=
  ts.foldlM (fun s t => serveTurn t s) s

theorem lasting_cons (t : Turn) (ts : List Turn) (s : Session) :
    lasting (t :: ts) s = serveTurn t s >>= lasting ts := rfl

theorem lasting_append (ts us : List Turn) (s : Session) :
    lasting (ts ++ us) s = lasting ts s >>= lasting us :=
  List.foldlM_append

/-- Five grabs in a row fail, in a session that lasts until the fifth of them. -/
def FiveGrabsFail (turns : List Turn) (s : Session) : Prop :=
  ∃ first four t after, turns = first ++ four ++ t :: after ∧
    (∃ s', lasting (first ++ four) s = .ok s') ∧ t.running = true ∧
    four.length = 4 ∧ (∀ u ∈ four, u.grab = none) ∧ t.grab = none

theorem sendOrBreak_error {type : UInt8} {payload : List UInt8} {s : Session}
    {e : SessionEnd × Session} (h : sendOrBreak type payload s = .error e) :
    e.1 = .ongoing ∨ e.1 = .sendFailed := by
  rw [sendOrBreak, onSocket] at h
  cases hret : (sendFrame type payload s.sends).ret with
  | none =>
    rw [hret] at h
    cases h
    exact Or.inl rfl
  | some ok =>
    rw [hret] at h
    cases ok <;> cases h
    exact Or.inr rfl

theorem serveGrab_error {t : Turn} {s : Session} {e : SessionEnd × Session}
    (h : serveGrab t s = .error e) :
    (e.1 = .grabFailed ↔ 5 ≤ grabFails s.grabFailCnt t) ∧ e.1 ≠ .startFailed := by
  rw [serveGrab] at h
  rw [grabFails]
  cases hgrab : t.grab with
  | some data =>
    have hzero : ¬ (5 : UInt32) ≤ 0 := by decide
    simp only [hgrab] at h
    split at h
    · rcases sendOrBreak_error h with he | he <;> simp [he, hzero]
    · cases h
  | none =>
    simp only [hgrab] at h
    split at h
    · next hfive =>
      cases h
      simpa using hfive
    · cases h

theorem serveGrab_ok {t : Turn} {s s' : Session} (h : serveGrab t s = .ok s') :
    ¬ 5 ≤ grabFails s.grabFailCnt t ∧ s'.grabFailCnt = grabFails s.grabFailCnt t := by
  by_cases hfive : 5 ≤ grabFails s.grabFailCnt t
  · obtain ⟨e, he, -⟩ := serveGrab_fails hfive
    rw [he] at h
    cases h
  · exact ⟨hfive, ((serveGrab_sends hfive).2 s' h).1⟩

theorem serveSensor_error {t : Turn} {s : Session} {e : SessionEnd × Session}
    (h : serveSensor t s = .error e) : e.1 = .ongoing ∨ e.1 = .sendFailed := by
  rw [serveSensor] at h
  split at h
  · exact sendOrBreak_error h
  · cases h

theorem servePoll_error {t : Turn} {s : Session} {e : SessionEnd × Session}
    (h : servePoll t s = .error e) : e.1 = .fault ∨ e.1 = .peerGone := by
  rw [servePoll] at h
  split at h
  · cases h
    exact Or.inl rfl
  · split at h <;> cases h
    exact Or.inr rfl

theorem servePoll_ok {t : Turn} {s s' : Session} (h : servePoll t s = .ok s') :
    s'.grabFailCnt = s.grabFailCnt := by
  rw [servePoll] at h
  split at h
  · cases h
  · split at h <;> cases h
    rfl

/-- A turn after which the session goes on. -/
theorem serveTurn_ok {t : Turn} {s s' : Session} (h : serveTurn t s = .ok s') :
    ¬ 5 ≤ grabFails s.grabFailCnt t ∧ s'.grabFailCnt = grabFails s.grabFailCnt t := by
  cases hrun : t.running with
  | false =>
    rw [serveTurn, hrun] at h
    cases h
  | true =>
    rw [serveTurn_running hrun] at h
    obtain ⟨s₁, hgrab, h⟩ := bind_eq_ok.mp h
    obtain ⟨s₂, hsensor, hpoll⟩ := bind_eq_ok.mp h
    obtain ⟨hfive, hcnt⟩ := serveGrab_ok hgrab
    refine ⟨hfive, ?_⟩
    rw [servePoll_ok hpoll, ((serveSensor_sends t s₁).2 s₂ hsensor).1, hcnt]

/-- A turn ends the session for its grabs if and only if it is the fifth in a row whose grab
fails. -/
theorem serveTurn_error {t : Turn} {s : Session} {e : SessionEnd × Session}
    (h : serveTurn t s = .error e) :
    (e.1 = .grabFailed ↔ t.running = true ∧ 5 ≤ grabFails s.grabFailCnt t) ∧
      e.1 ≠ .startFailed := by
  cases hrun : t.running with
  | false =>
    rw [serveTurn, hrun] at h
    cases h
    simp
  | true =>
    rw [serveTurn_running hrun] at h
    rcases bind_eq_error.mp h with hgrab | ⟨s₁, hgrab, h⟩
    · simpa using serveGrab_error hgrab
    · have hfive := (serveGrab_ok hgrab).1
      rcases bind_eq_error.mp h with hsensor | ⟨s₂, -, hpoll⟩
      · rcases serveSensor_error hsensor with he | he <;> simp [he, hfive]
      · rcases servePoll_error hpoll with he | he <;> simp [he, hfive]

theorem not_fifth {cnt : UInt32} {t : Turn} (h : ¬ 5 ≤ grabFails cnt t) :
    (grabFails cnt t).toNat < 5 := by
  rw [UInt32.le_iff_toNat_le] at h
  simpa using h

theorem grabFails_none {cnt : UInt32} {t : Turn} (hcnt : cnt.toNat < 5) (h : t.grab = none) :
    (grabFails cnt t).toNat = cnt.toNat + 1 := by
  rw [grabFails, h, UInt32.toNat_add]
  simp only [UInt32.toNat_one, Nat.reducePow]
  omega

/-- The counter of a session that lasts counts the grabs that have failed in a row. -/
theorem lasting_counts {ts : List Turn} {s s' : Session} (hs : s.grabFailCnt = 0)
    (h : lasting ts s = .ok s') :
    s'.grabFailCnt.toNat < 5 ∧
      ∃ first last, ts = first ++ last ∧ last.length = s'.grabFailCnt.toNat ∧
        ∀ u ∈ last, u.grab = none := by
  induction ts using List.reverseRecOn generalizing s' with
  | nil =>
    cases h
    rw [hs]
    exact ⟨by decide, [], [], rfl, rfl, by simp⟩
  | append_singleton ts t ih =>
    rw [lasting_append] at h
    obtain ⟨s₁, hts, ht⟩ := bind_eq_ok.mp h
    obtain ⟨s₂, hturn, hs₂⟩ := bind_eq_ok.mp ht
    cases hs₂
    obtain ⟨hlt, first, last, rfl, hlast, hnone⟩ := ih hts
    obtain ⟨hfive, hcnt⟩ := serveTurn_ok hturn
    rw [hcnt]
    refine ⟨not_fifth hfive, ?_⟩
    cases hgrab : t.grab with
    | some data => exact ⟨first ++ last ++ [t], [], by simp, by simp [grabFails, hgrab], by simp⟩
    | none =>
      refine ⟨first, last ++ [t], by simp, ?_, ?_⟩
      · rw [grabFails_none hlt hgrab, List.length_append, hlast]
        rfl
      · intro u hu
        rcases List.mem_append.mp hu with hu | hu
        · exact hnone u hu
        · rw [List.mem_singleton.mp hu, hgrab]

theorem lasting_fails {ts : List Turn} {s s' : Session} (hs : s.grabFailCnt.toNat < 5)
    (hnone : ∀ u ∈ ts, u.grab = none) (h : lasting ts s = .ok s') :
    s'.grabFailCnt.toNat = s.grabFailCnt.toNat + ts.length := by
  induction ts generalizing s with
  | nil =>
    cases h
    rfl
  | cons t ts ih =>
    simp only [List.forall_mem_cons] at hnone
    obtain ⟨s₁, hturn, hts⟩ := bind_eq_ok.mp h
    obtain ⟨hfive, hcnt⟩ := serveTurn_ok hturn
    have hlt := not_fifth hfive
    rw [← hcnt] at hlt
    rw [ih hlt hnone.2 hts, hcnt, grabFails_none hs hnone.1, List.length_cons]
    omega

/-- The grab of a turn is the fifth in a row that fails, or the session goes on. -/
theorem fifth_iff {ts : List Turn} {s s' : Session} (hs : s.grabFailCnt = 0)
    (h : lasting ts s = .ok s') (t : Turn) :
    5 ≤ grabFails s'.grabFailCnt t ↔
      ∃ first four, ts = first ++ four ∧ four.length = 4 ∧ (∀ u ∈ four, u.grab = none) ∧
        t.grab = none := by
  obtain ⟨hlt, first, last, hts, hlast, hnone⟩ := lasting_counts hs h
  rw [UInt32.le_iff_toNat_le]
  constructor
  · intro hfive
    cases hgrab : t.grab with
    | some data =>
      simp [grabFails, hgrab] at hfive
    | none =>
      rw [grabFails_none hlt hgrab] at hfive
      refine ⟨first, last, hts, ?_, hnone, rfl⟩
      rw [hlast]
      have : (5 : UInt32).toNat = 5 := rfl
      omega
  · rintro ⟨first, four, rfl, hfour, hnone, hgrab⟩
    rw [lasting_append] at h
    obtain ⟨s₁, hfirst, hlasts⟩ := bind_eq_ok.mp h
    rw [grabFails_none hlt hgrab, lasting_fails (lasting_counts hs hfirst).1 hnone hlasts, hfour]
    show 5 ≤ _
    omega

/-- The loop of a session ends for its grabs in a turn that is the fifth in a row. -/
theorem serveLoop_grabFailed {turns : List Turn} {s : Session} :
    (serveLoop turns s).1 = .grabFailed ↔
      ∃ before t after s', turns = before ++ t :: after ∧ lasting before s = .ok s' ∧
        t.running = true ∧ 5 ≤ grabFails s'.grabFailCnt t := by
  induction turns generalizing s with
  | nil => simp [serveLoop]
  | cons t ts ih =>
    rw [serveLoop_cons]
    cases hturn : serveTurn t s with
    | ok s₁ =>
      rw [andThen, ih]
      constructor
      · rintro ⟨before, u, after, s', rfl, hbefore, hlast⟩
        refine ⟨t :: before, u, after, s', rfl, ?_, hlast⟩
        rw [lasting_cons, hturn]
        exact hbefore
      · rintro ⟨_ | ⟨t', before⟩, u, after, s', heq, hbefore, hlast⟩
        · cases heq
          cases hbefore
          exact absurd hlast.2 (serveTurn_ok hturn).1
        · cases heq
          rw [lasting_cons, hturn] at hbefore
          exact ⟨before, u, after, s', rfl, hbefore, hlast⟩
    | error e =>
      rw [andThen, (serveTurn_error hturn).1]
      constructor
      · intro hlast
        exact ⟨[], t, ts, s, rfl, rfl, hlast⟩
      · rintro ⟨_ | ⟨t', before⟩, u, after, s', heq, hbefore, hlast⟩
        · cases heq
          cases hbefore
          exact hlast
        · cases heq
          rw [lasting_cons, hturn] at hbefore
          cases hbefore

theorem serveLoop_started {turns : List Turn} {s : Session} :
    (serveLoop turns s).1 ≠ .startFailed := by
  induction turns generalizing s with
  | nil => simp [serveLoop]
  | cons t ts ih =>
    rw [serveLoop_cons]
    cases hturn : serveTurn t s with
    | ok s₁ => exact ih
    | error e => exact (serveTurn_error hturn).2

theorem fiveGrabsFail_iff {turns : List Turn} {s : Session} (hs : s.grabFailCnt = 0) :
    (serveLoop turns s).1 = .grabFailed ↔ FiveGrabsFail turns s := by
  rw [serveLoop_grabFailed]
  constructor
  · rintro ⟨before, t, after, s', rfl, hbefore, hrun, hfive⟩
    obtain ⟨first, four, rfl, hfour, hnone, hgrab⟩ := (fifth_iff hs hbefore t).mp hfive
    exact ⟨first, four, t, after, rfl, ⟨s', hbefore⟩, hrun, hfour, hnone, hgrab⟩
  · rintro ⟨first, four, t, after, rfl, ⟨s', hbefore⟩, hrun, hfour, hnone, hgrab⟩
    exact ⟨first ++ four, t, after, s', rfl, hbefore, hrun,
      (fifth_iff hs hbefore t).mpr ⟨first, four, rfl, hfour, hnone, hgrab⟩⟩

/-! ### The camera of a run -/

/-- The camera is open, and streams or does not. -/
structure Opened (streaming : Bool) (v : Video) : Prop where
  sound : Sound v
  camera : 0 ≤ v.camera.fd ∧ v.camera.streaming = streaming

/-- The driver refuses to queue a buffer, or to begin the streaming. -/
def StartRefused (v : Video) (o : StartOutcome) : Prop :=
  o.streamOn = false ∨
    ∃ k < v.camera.buffers.length, o.qbuf k = false ∨ k ∈ v.driver.queued

theorem start_fails_iff {v : Video} (h : Opened false v) (o : StartOutcome) :
    (v.startStreaming o).2 = false ↔ StartRefused v o := by
  rcases hstart : v.startStreaming o with ⟨v', _ | _⟩
  · refine iff_of_true rfl ?_
    obtain ⟨-, hfail, -⟩ := Video.startStreaming_false h.sound.size.le h.camera.1 hstart
    cases hon : o.streamOn with
    | false => exact Or.inl hon
    | true =>
      obtain ⟨k, hk, hqueued⟩ := hfail hon
      refine Or.inr ⟨k, hk, ?_⟩
      cases hq : o.qbuf k with
      | false => exact Or.inl rfl
      | true => exact Or.inr (hqueued hq)
  · refine iff_of_false (by simp) ?_
    obtain ⟨-, heach, hon, -⟩ := Video.startStreaming_true h.sound.size.le h.camera.2 hstart
    rintro (hoff | ⟨k, hk, hq | hqueued⟩)
    · rw [hon] at hoff
      cases hoff
    · rw [(heach k hk).1] at hq
      cases hq
    · exact (heach k hk).2 hqueued

theorem Opened.start {v v' : Video} (h : Opened false v) {o : StartOutcome} {ok : Bool}
    (hstart : v.startStreaming o = (v', ok)) : Opened ok v' := by
  have hsound := h.sound.start_step o
  rw [hstart] at hsound
  refine ⟨hsound, ?_⟩
  cases ok with
  | false =>
    rw [(Video.startStreaming_false h.sound.size.le h.camera.1 hstart).1]
    exact h.camera
  | true =>
    rw [(Video.startStreaming_true h.sound.size.le h.camera.2 hstart).1]
    exact ⟨h.camera.1, rfl⟩

theorem Opened.grab {v : Video} (h : Opened true v) (o : GrabOutcome) :
    Opened true (v.grabFrame o).1 := by
  refine ⟨h.sound.grab_step o, ?_⟩
  obtain ⟨lastIndex, hcamera⟩ := v.grabFrame_camera o
  rw [hcamera]
  exact h.camera

theorem Opened.see {v : Video} (h : Opened true v) (t : ClientTurn) :
    Opened true (t.see v).1 := by
  rw [ClientTurn.see]
  split
  · exact h.grab t.grab
  · exact h

theorem Opened.turns {v : Video} (h : Opened true v) (ts : List ClientTurn) (s : Session) :
    Opened true (serveTurns ts v s).1 := by
  induction ts generalizing v s with
  | nil => exact h
  | cons t ts ih =>
    simp only [serveTurns]
    cases serveTurn (t.see v).2 s with
    | ok s' => exact ih (h.see t) s'
    | error e => exact h.see t

theorem Opened.stop {v : Video} (h : Opened true v) (streamOff : Bool) :
    Opened false (v.stopStreaming streamOff) := by
  refine ⟨h.sound.stop_step streamOff, ?_⟩
  rw [Video.stopStreaming_of_streaming h.camera.1 h.camera.2]
  exact ⟨h.camera.1, rfl⟩

theorem onSocket_ok {frame : List UInt8} {o : SendOut} {s : Session} {r : Bool × Session}
    (h : onSocket frame o s = .ok r) : r.2.grabFailCnt = s.grabFailCnt := by
  rw [onSocket] at h
  split at h <;> cases h
  rfl

theorem onSocket_error {frame : List UInt8} {o : SendOut} {s : Session}
    {e : SessionEnd × Session} (h : onSocket frame o s = .error e) : e.1 = .ongoing := by
  rw [onSocket] at h
  split at h <;> cases h
  rfl

/-- The greeting of a session that has been started. -/
def greet (v : Video) (c : Client) : Except (SessionEnd × Session) (Bool × Session) :=
  let text := readyText ⟨true, v.camera.width, v.camera.height, v.camera.isMjpeg⟩
  onSocket (frameBytes frameText text) (sendText text c.sends) { sends := c.sends }

theorem serveOn_refused {v v' : Video} {c : Client}
    (hstart : v.startStreaming c.start = (v', false)) :
    serveOn v c = (v', .startFailed, { sends := c.sends }) := by
  rw [serveOn, hstart]

theorem serveOn_started {v v' : Video} {c : Client}
    (hstart : v.startStreaming c.start = (v', true)) :
    serveOn v c =
      match greet v' c with
      | .error e => (v', e)
      | .ok (_, s) =>
        let (v, e, s) := serveTurns c.turns v' s
        (if e.isOver then v.stopStreaming c.streamOff else v, e, s) := by
  rw [serveOn, hstart]
  rfl

/-- A session that is over leaves an open camera that does not stream. -/
theorem Opened.serve {v : Video} (h : Opened false v) {c : Client}
    (hover : (serveOn v c).2.1.isOver = true) : Opened false (serveOn v c).1 := by
  rcases hstart : v.startStreaming c.start with ⟨v', _ | _⟩
  · rw [serveOn_refused hstart]
    exact h.start hstart
  · rw [serveOn_started hstart] at hover ⊢
    cases hgreet : greet v' c with
    | error e =>
      rw [hgreet] at hover
      rw [onSocket_error hgreet] at hover
      cases hover
    | ok r =>
      rw [hgreet] at hover
      simp only at hover ⊢
      rw [if_pos hover]
      exact ((h.start hstart).turns c.turns r.2).stop c.streamOff

/-- The camera fails a client: the driver refuses to stream, or five grabs in a row fail. -/
def CameraFails (v : Video) (c : Client) : Prop :=
  StartRefused v c.start ∨
    ∃ r, greet (v.startStreaming c.start).1 c = .ok r ∧
      FiveGrabsFail (turnsOf c.turns (v.startStreaming c.start).1) r.2

/-- A session after which the camera has to be opened again. -/
def SessionEnd.LostCamera (e : SessionEnd) : Prop := e = .startFailed ∨ e = .grabFailed

theorem lostCamera_iff {v : Video} (h : Opened false v) (c : Client) :
    (serveOn v c).2.1.LostCamera ↔ CameraFails v c := by
  rw [CameraFails, ← start_fails_iff h]
  rcases hstart : v.startStreaming c.start with ⟨v', _ | _⟩
  · rw [serveOn_refused hstart]
    exact iff_of_true (Or.inl rfl) (Or.inl rfl)
  · rw [serveOn_started hstart]
    cases hgreet : greet v' c with
    | error e => simp [SessionEnd.LostCamera, onSocket_error hgreet]
    | ok r =>
      have hfresh : r.2.grabFailCnt = 0 := onSocket_ok hgreet
      simp [SessionEnd.LostCamera, serveTurns_eq, serveLoop_started, fiveGrabsFail_iff hfresh]

theorem openCamera_opened {cfg : AppConfig} {attempts : List Attempt} {v v' : Video}
    {log : List Event} {res : Option Bool} (h : Sound v)
    (hopen : openCamera cfg attempts v = (v', log, res)) :
    (∀ x ∈ log, ∃ ok, x = .cameraOpen ok) ∧ (res = some true → Opened false v') := by
  induction attempts generalizing v v' log res with
  | nil =>
    cases hopen
    exact ⟨by simp, fun hres => by cases hres⟩
  | cons a attempts ih =>
    rw [openCamera] at hopen
    split at hopen
    · cases hopen
      exact ⟨by simp, fun hres => by cases hres⟩
    · rcases hv : v.open a.streamOff cfg.device cfg.width cfg.height cfg.fps a.o with ⟨v₁, ok⟩
      have hsound := h.open_step a.streamOff cfg.device cfg.width cfg.height cfg.fps a.o
      rw [hv] at hopen hsound
      cases ok with
      | true =>
        cases hopen
        refine ⟨by simp, fun _ => ⟨hsound, ?_⟩⟩
        obtain ⟨-, hidle, -, ⟨hfail, -⟩ | ⟨-, hfd, -⟩⟩ := Video.open_cases h.open_or_shut hv
        · cases hfail
        · exact ⟨hfd, hidle⟩
      | false =>
        simp only at hopen
        split at hopen
        · rcases hrest : openCamera cfg attempts v₁ with ⟨v₂, more, res'⟩
          rw [hrest] at hopen
          cases hopen
          obtain ⟨hmore, hres⟩ := ih hsound hrest
          exact ⟨List.forall_mem_cons.mpr ⟨⟨false, rfl⟩, hmore⟩, hres⟩
        · cases hopen
          exact ⟨by simp, fun hres => by cases hres⟩

/-! ### Recovery -/

/-- After a session that has lost the camera, no session starts before the camera has been opened
again, or the run has returned. -/
def Recovered (log : List Event) : Prop :=
  ∀ before e mid after, log = before ++ .sessionEnd e :: (mid ++ .sessionStart :: after) →
    e.LostCamera → .cameraOpen true ∈ mid ∨ ∃ code, .returned code ∈ mid

/-- The clients that are served, each with the camera as it is before its session. -/
def served : List Visit → Video → List (Video × Client)
  | [], _ => []
  | a :: as, v =>
    if !a.running then []
    else
      match a.accepted with
      | .none => served as v
      | .failed => []
      | .client c =>
        (v, c) :: if (serveOn v c).2.1.isOver then served as (serveOn v c).1 else []

/-- The clients of a run. -/
def clients (cfg : AppConfig) (attempts : List Attempt) (listened : Bool) (visits : List Visit) :
    List (Video × Client) :=
  match openCamera cfg attempts {} with
  | (v, _, some true) => if listened then served visits v else []
  | _ => []

theorem recovered_cons {x : Event} {log : List Event} (h : ∀ e, x ≠ .sessionEnd e) :
    Recovered (x :: log) ↔ Recovered log := by
  constructor
  · intro hlog before e mid after heq
    exact hlog (x :: before) e mid after (congrArg (x :: ·) heq)
  · rintro hlog (_ | ⟨y, before⟩) e mid after heq
    · exact absurd (List.cons.inj heq).1 (h e)
    · exact hlog before e mid after (List.cons.inj heq).2

theorem recovered_append {quiet log : List Event} (h : ∀ x ∈ quiet, ∀ e, x ≠ .sessionEnd e) :
    Recovered (quiet ++ log) ↔ Recovered log := by
  induction quiet with
  | nil => rfl
  | cons x quiet ih =>
    simp only [List.forall_mem_cons] at h
    rw [List.cons_append, recovered_cons h.1, ih h.2]

theorem recovered_concat {log : List Event} {x : Event} (h : x ≠ .sessionStart) :
    Recovered (log ++ [x]) ↔ Recovered log := by
  constructor
  · intro hlog before e mid after heq
    apply hlog before e mid (after ++ [x])
    simp [heq]
  · intro hlog before e mid after heq
    rcases List.eq_nil_or_concat after with rfl | ⟨after, y, rfl⟩
    · rw [← List.cons_append, ← List.append_assoc] at heq
      exact absurd (List.append_singleton_inj.mp heq).2 h
    · apply hlog before e mid after
      apply (List.append_singleton_inj (a := x) (b := y).mp _).1
      simpa using heq

/-- In a log of sessions only, none may follow one that has lost the camera. -/
theorem recovered_end {e : SessionEnd} {log : List Event}
    (h : ∀ x ∈ log, x = .sessionStart ∨ ∃ e, x = .sessionEnd e) :
    Recovered (.sessionEnd e :: log) ↔
      (e.LostCamera → .sessionStart ∉ log) ∧ Recovered log := by
  constructor
  · intro hlog
    constructor
    · intro hlost hmem
      obtain ⟨mid, after, rfl⟩ := List.append_of_mem hmem
      rcases hlog [] e mid after rfl hlost with hopen | ⟨code, hreturned⟩
      · simpa using h _ (List.mem_append_left _ hopen)
      · simpa using h _ (List.mem_append_left _ hreturned)
    · intro before e' mid after heq
      exact hlog (.sessionEnd e :: before) e' mid after (congrArg (_ :: ·) heq)
  · rintro ⟨hstart, hlog⟩ (_ | ⟨y, before⟩) e' mid after heq hlost
    · cases heq
      exact absurd (by simp) (hstart hlost)
    · exact hlog before e' mid after (List.cons.inj heq).2 hlost

theorem acceptLoop_client {a : Visit} {as : List Visit} {c : Client} {v : Video}
    (hrun : a.running = true) (hc : a.accepted = .client c) :
    (acceptLoop (a :: as) v).2.1 =
      .sessionStart :: if (serveOn v c).2.1.isOver then
        .sessionEnd (serveOn v c).2.1 :: (acceptLoop as (serveOn v c).1).2.1 else [] := by
  rw [acceptLoop, hrun, hc]
  simp only [Bool.not_true, Bool.false_eq_true, if_false]
  split <;> rfl

/-- The log of a loop has nothing but sessions, one for each client that is served. -/
theorem acceptLoop_log (visits : List Visit) (v : Video) :
    (∀ x ∈ (acceptLoop visits v).2.1, x = .sessionStart ∨ ∃ e, x = .sessionEnd e) ∧
      (.sessionStart ∈ (acceptLoop visits v).2.1 ↔ served visits v ≠ []) := by
  induction visits generalizing v with
  | nil => simp [acceptLoop, served]
  | cons a as ih =>
    cases hrun : a.running with
    | false => simp [acceptLoop, served, hrun]
    | true =>
      cases hc : a.accepted with
      | none => simpa [acceptLoop, served, hrun, hc] using ih v
      | failed => simp [acceptLoop, served, hrun, hc]
      | client c =>
        rw [acceptLoop_client hrun hc, served, hrun, hc]
        refine ⟨?_, by simp⟩
        split
        · simpa using (ih (serveOn v c).1).1
        · simp

theorem acceptLoop_recovered {v : Video} (h : Opened false v) (visits : List Visit) :
    Recovered (acceptLoop visits v).2.1 ↔
      (served visits v).Pairwise fun x _ => ¬ CameraFails x.1 x.2 := by
  have hnil : Recovered [] := by
    intro before e mid after heq
    simp at heq
  induction visits generalizing v with
  | nil => simpa [acceptLoop, served] using hnil
  | cons a as ih =>
    cases hrun : a.running with
    | false => simpa [acceptLoop, served, hrun] using hnil
    | true =>
      cases hc : a.accepted with
      | none => simpa [acceptLoop, served, hrun, hc] using ih h
      | failed => simpa [acceptLoop, served, hrun, hc] using hnil
      | client c =>
        rw [acceptLoop_client hrun hc, served, hrun, hc, recovered_cons (by simp)]
        simp only [Bool.not_true, Bool.false_eq_true, if_false, List.pairwise_cons]
        split
        · next hover =>
          obtain ⟨hevents, hstart⟩ := acceptLoop_log as (serveOn v c).1
          rw [recovered_end hevents, lostCamera_iff h, hstart]
          apply and_congr
          · rw [not_not, List.eq_nil_iff_forall_not_mem]
            exact ⟨fun hlost y hy hfails => hlost hfails y hy,
              fun hlost hfails y hy => hlost y hy hfails⟩
          · exact ih (h.serve hover)
        · simpa using hnil

/-- The camera is recovered in a run, if and only if no client that it fails is followed by
another client. -/
theorem recovered_iff (cfg : AppConfig) (attempts : List Attempt) (listened : Bool)
    (visits : List Visit) (streamOff : Bool) :
    Recovered (run cfg attempts listened visits streamOff).2 ↔
      (clients cfg attempts listened visits).Pairwise fun x _ => ¬ CameraFails x.1 x.2 := by
  rcases hopen : openCamera cfg attempts {} with ⟨v, log, res⟩
  obtain ⟨hopens, hopened⟩ := openCamera_opened sound_init hopen
  have hlog : ∀ x ∈ log, ∀ e, x ≠ .sessionEnd e := by
    intro x hx e
    obtain ⟨ok, rfl⟩ := hopens x hx
    simp
  have hquiet : ∀ quiet : List Event, (∀ x ∈ quiet, ∀ e, x ≠ .sessionEnd e) →
      Recovered quiet := by
    intro quiet h before e mid after heq
    exact absurd rfl (h (.sessionEnd e) (by simp [heq]) e)
  rw [run, clients, hopen]
  match res with
  | none => simpa using hquiet log hlog
  | some false =>
    rw [recovered_append hlog]
    simpa using hquiet [.returned 0] (by simp)
  | some true =>
    simp only
    cases listened with
    | false =>
      rw [Bool.not_false, if_pos rfl, recovered_append hlog]
      simpa using hquiet [.listen false, .returned 1] (by simp)
    | true =>
      have hloop := acceptLoop_recovered (hopened rfl) visits
      rcases hloops : acceptLoop visits v with ⟨v', more, _ | _⟩
      · rw [hloops] at hloop
        simpa [recovered_append hlog, recovered_cons] using hloop
      · rw [hloops] at hloop
        simpa [recovered_append hlog, recovered_cons, recovered_concat] using hloop

/-- A client of a camera whose driver does not begin the streaming. -/
def unstreamed : Client where
  start := ⟨fun _ => true, false⟩
  turns := []
  sends := []
  streamOff := true

/-- A second client is served after the camera has failed the first. -/
theorem lost_camera_served :
    ¬ ∀ (cfg : AppConfig) (attempts : List Attempt) (listened : Bool) (visits : List Visit)
        (streamOff : Bool), Recovered (run cfg attempts listened visits streamOff).2 := by
  intro h
  have hrun : (run { device := [0x2F] } [⟨true, true, twoBuffers, fun _ => true, true⟩] true
      [⟨true, .client unstreamed⟩, ⟨true, .client unstreamed⟩] true).2 =
      [.cameraOpen true, .listen true, .sessionStart] ++ .sessionEnd .startFailed ::
        ([] ++ .sessionStart :: [.sessionEnd .startFailed]) := by
    decide
  have hfirst := h { device := [0x2F] } [⟨true, true, twoBuffers, fun _ => true, true⟩] true
    [⟨true, .client unstreamed⟩, ⟨true, .client unstreamed⟩] true _ _ _ _ hrun (Or.inl rfl)
  simp at hfirst

end Patrol.App
