import Patrol.App.Application
import Patrol.Camera.Resources
import Patrol.Network.Sockets

/-! The descriptors of a run: those of the camera, of the socket that listens and of the clients.  The
run with its sockets is `run` as far as it can be told from outside. -/

namespace Patrol.App

open Network ProofKit
open Patrol.Camera

/-- What an `Application` owns: the camera, and the handle of its server. -/
structure Process where
  video : Video := {}
  server : Handle := {}

/-- A turn of the loop of `run`: the `running_` flag, the results of the calls of `acceptClient`, and what
a client does if there is one. -/
structure Arrival where
  running : Bool
  accept : TcpServer.AcceptOutcome
  client : Client

/-- The loop that serves clients, with its sockets, and whether it is left. -/
def serveArrivals : List Arrival → Process → Process × List Event × Bool
  | [], p => (p, [], false)
  | a :: as, p =>
    if !a.running then (p, [], true)
    else
      let (server, clientFd) := TcpServer.acceptClient p.server a.accept
      if clientFd = -1 then serveArrivals as { p with server }
      else if clientFd = -2 then ({ p with server }, [], true)
      else
        let (video, e, _) := serveOn p.video a.client
        if e.isOver then
          let (p, log, left) := serveArrivals as ⟨video, TcpServer.closeClient server clientFd⟩
          (p, .sessionStart :: .sessionEnd e :: log, left)
        else (⟨video, server⟩, [.sessionStart], false)

/-- A run with its sockets, and what it returns if it does. -/
def runProcess (cfg : AppConfig) (attempts : List Attempt) (bindAddr : List UInt8)
    (o : TcpServer.ListenOutcome) (arrivals : List Arrival) (streamOff : Bool) :
    Process × List Event × Option Int :=
  match openCamera cfg attempts {} with
  | (video, log, none) => ({ video }, log, none)
  | (video, log, some false) => ({ video }, log ++ [.returned 0], some 0)
  | (video, log, some true) =>
    match TcpServer.listen {} bindAddr o with
    | (server, false) => (⟨video.close streamOff, server⟩, log ++ [.listen false, .returned 1], some 1)
    | (server, true) =>
      match serveArrivals arrivals ⟨video, server⟩ with
      | (p, more, false) => (p, log ++ .listen true :: more, none)
      | (p, more, true) =>
        (⟨p.video.close streamOff, TcpServer.close p.server⟩,
          log ++ .listen true :: (more ++ [.returned 0]), some 0)

/-- The destructor of `Application`, which destroys its server and then its camera. -/
def Process.destroy (p : Process) (streamOff : Bool) : Process :=
  ⟨p.video.close streamOff, TcpServer.close p.server⟩

/-! ### The run without its sockets -/

/-- What a turn is to the loop while the server listens. -/
def Arrival.visit (a : Arrival) : Visit where
  running := a.running
  accepted :=
    if (TcpServer.acceptClient { fd := 0 } a.accept).2 = -1 then .none
    else if (TcpServer.acceptClient { fd := 0 } a.accept).2 = -2 then .failed
    else .client a.client

/-- What `acceptClient` returns does not depend on the socket that it listens on. -/
theorem acceptClient_listening {s : Handle} (h : 0 ≤ s.fd) (o : TcpServer.AcceptOutcome) :
    (TcpServer.acceptClient s o).2 = (TcpServer.acceptClient { fd := 0 } o).2 := by
  unfold TcpServer.acceptClient
  rw [if_neg (Int.not_lt.mpr h), if_neg (Int.lt_irrefl 0)]
  cases o.select with
  | error e => cases e <;> rfl
  | ok n =>
    cases n with
    | zero => rfl
    | succ n =>
      cases o.accept with
      | error e => cases e <;> rfl
      | ok fd => rfl

theorem acceptClient_fd (s : Handle) (o : TcpServer.AcceptOutcome) :
    (TcpServer.acceptClient s o).1.fd = s.fd := by
  rcases TcpServer.acceptClient_cases s o with (h | h) | ⟨fd, h⟩ <;> rw [h]

theorem closeClient_fd (s : Handle) (fd : Int) : (TcpServer.closeClient s fd).fd = s.fd := by
  unfold TcpServer.closeClient
  split <;> rfl

theorem serveArrivals_eq {arrivals : List Arrival} {p : Process} (h : 0 ≤ p.server.fd) :
    acceptLoop (arrivals.map Arrival.visit) p.video =
      ((serveArrivals arrivals p).1.video, (serveArrivals arrivals p).2) := by
  induction arrivals generalizing p with
  | nil => rfl
  | cons a as ih =>
    rw [List.map_cons, acceptLoop, serveArrivals]
    have hrun : a.visit.running = a.running := rfl
    rw [hrun]
    cases hr : a.running with
    | false => rfl
    | true =>
      simp only [Bool.not_true, Bool.false_eq_true, if_false]
      have hret := acceptClient_listening h a.accept
      have hfd := acceptClient_fd p.server a.accept
      generalize hcall : TcpServer.acceptClient p.server a.accept = r at hret hfd ⊢
      obtain ⟨server, clientFd⟩ := r
      simp only at hret hfd ⊢
      simp only [Arrival.visit, ← hret]
      by_cases hnone : clientFd = -1
      · simp only [if_pos hnone]
        exact @ih { p with server } (hfd ▸ h)
      · simp only [if_neg hnone]
        by_cases hfailed : clientFd = -2
        · simp only [if_pos hfailed]
        · simp only [if_neg hfailed]
          rcases serveOn p.video a.client with ⟨video, e, s⟩
          dsimp only
          cases e.isOver with
          | false => rfl
          | true =>
            have hnext := @ih ⟨video, TcpServer.closeClient server clientFd⟩
              (closeClient_fd server clientFd ▸ hfd ▸ h)
            simp only [if_true]
            rw [hnext]

/-- The run with its sockets is the run of the same camera and clients. -/
theorem runProcess_eq (cfg : AppConfig) (attempts : List Attempt) (bindAddr : List UInt8)
    (o : TcpServer.ListenOutcome) (arrivals : List Arrival) (streamOff : Bool) :
    run cfg attempts (TcpServer.listen {} bindAddr o).2 (arrivals.map Arrival.visit) streamOff =
      ((runProcess cfg attempts bindAddr o arrivals streamOff).1.video,
        (runProcess cfg attempts bindAddr o arrivals streamOff).2.1) := by
  have howns := Handle.acquire_owns {} o.socket
    [bindAddr.isEmpty || bindAddr == TcpServer.anyAddr || o.inetPton, o.bind, o.listen]
  rw [← TcpServer.listen] at howns
  rw [run, runProcess]
  rcases openCamera cfg attempts {} with ⟨video, log, _ | _ | _⟩
  · rfl
  · rfl
  · generalize TcpServer.listen {} bindAddr o = r at howns ⊢
    obtain ⟨server, _ | _⟩ := r
    · rfl
    · have hloop := @serveArrivals_eq arrivals ⟨video, server⟩ (howns.mp rfl)
      simp only [Bool.not_true, Bool.false_eq_true, if_false, hloop]
      rcases serveArrivals arrivals ⟨video, server⟩ with ⟨p, more, _ | _⟩ <;> rfl

/-! ### What a run leaves -/

/-- What is live is what the camera and the server own, and the clients' sockets; there are never more
than two sockets. -/
structure Process.Accounts (p : Process) (clients : Multiset Int) : Prop where
  camera : Accounted p.video
  server : p.server.Accounts clients
  sockets : Handle.AtMost 2 p.server.calls

theorem close_settled {v : Video} (h : Accounted v) (streamOff : Bool) :
    Ledger.Settled (v.close streamOff).driver.ledger := by
  have hclose := Video.close_accounted h streamOff
  obtain ⟨hfd, hbuffers⟩ := v.close_releases streamOff
  refine ⟨hclose.balanced, ?_⟩
  rw [hclose.live, Video.held_unmapped (Video.mappings_nil hbuffers), CameraManager.descriptors,
    if_neg (Int.not_le.mpr hfd)]

/-- An application that serves no client gives everything back as it is destroyed. -/
theorem Process.Accounts.destroy {p : Process} (h : p.Accounts 0) (streamOff : Bool) :
    Ledger.Settled (p.destroy streamOff).server.calls ∧
      Ledger.Settled (p.destroy streamOff).video.driver.ledger :=
  ⟨⟨h.server.close.balanced, h.server.live_close⟩, close_settled h.camera streamOff⟩

theorem openCamera_accounted {cfg : AppConfig} {attempts : List Attempt}
    (hmaps : ∀ a ∈ attempts, ∀ i, a.o.mmap i ≠ 0) {v : Video} (h : Accounted v) :
    Accounted (openCamera cfg attempts v).1 := by
  induction attempts generalizing v with
  | nil => exact h
  | cons a as ih =>
    rw [List.forall_mem_cons] at hmaps
    rw [openCamera]
    split
    · exact h
    · have hopen := (Video.open_accounted hmaps.1 h a.streamOff cfg.device cfg.width cfg.height
        cfg.fps).1
      split
      · next v' heq =>
        rw [heq] at hopen
        exact hopen
      · next v' heq =>
        rw [heq] at hopen
        split
        · exact ih hmaps.2 hopen
        · exact hopen

theorem see_resources (t : ClientTurn) (v : Video) : SameResources v (t.see v).1 := by
  unfold ClientTurn.see
  split
  · exact v.grabFrame_resources t.grab
  · exact SameResources.refl v

theorem serveTurns_resources (ts : List ClientTurn) (v : Video) (s : Session) :
    SameResources v (serveTurns ts v s).1 := by
  induction ts generalizing v s with
  | nil => exact SameResources.refl v
  | cons t ts ih =>
    have hsee := see_resources t v
    rw [serveTurns]
    dsimp only
    split
    · exact hsee.trans (ih _ _)
    · exact hsee

/-- A session changes nothing that the camera owns. -/
theorem serveOn_resources (v : Video) (c : Client) : SameResources v (serveOn v c).1 := by
  have hstart := v.startStreaming_resources c.start
  rw [serveOn]
  split
  · next v₁ heq =>
    rw [heq] at hstart
    exact hstart
  · next v₁ heq =>
    rw [heq] at hstart
    dsimp only
    split
    · exact hstart
    · next s _ =>
      have hturns := hstart.trans (serveTurns_resources c.turns v₁ s)
      dsimp only
      split
      · exact hturns.trans (Video.stopStreaming_resources _ _)
      · exact hturns

theorem Process.Accounts.accept {p : Process} (h : p.Accounts 0) (o : TcpServer.AcceptOutcome) :
    (((TcpServer.acceptClient p.server o).2 = -1 ∨ (TcpServer.acceptClient p.server o).2 = -2) ∧
        (TcpServer.acceptClient p.server o).1 = p.server) ∨
      0 ≤ (TcpServer.acceptClient p.server o).2 ∧
        Process.Accounts ⟨p.video, (TcpServer.acceptClient p.server o).1⟩
          {(TcpServer.acceptClient p.server o).2} := by
  rcases TcpServer.acceptClient_cases p.server o with (hcall | hcall) | ⟨fd, hcall⟩
  · rw [hcall]
    exact Or.inl ⟨Or.inl rfl, rfl⟩
  · rw [hcall]
    exact Or.inl ⟨Or.inr rfl, rfl⟩
  · rw [hcall]
    have hlent := h.server.lend fd
    exact Or.inr ⟨Int.natCast_nonneg fd, h.camera, hlent, h.sockets.concat hlent.card_le⟩

theorem Process.Accounts.closeClient {p : Process} {fd : Int} (h : p.Accounts {fd}) (hfd : 0 ≤ fd) :
    Process.Accounts ⟨p.video, TcpServer.closeClient p.server fd⟩ 0 := by
  have hback : Handle.Accounts { p.server with calls := p.server.calls ++ [.release fd] } 0 :=
    Handle.Accounts.restore h.server
  rw [TcpServer.closeClient, if_pos hfd]
  exact ⟨h.camera, hback, h.sockets.concat (hback.card_le.trans (by decide))⟩

theorem serveArrivals_accounts {arrivals : List Arrival} {p : Process} (h : p.Accounts 0) :
    ∃ clients, (serveArrivals arrivals p).1.Accounts clients ∧
      ((serveArrivals arrivals p).2.2 = true → clients = 0) := by
  induction arrivals generalizing p with
  | nil => exact ⟨0, h, fun _ => rfl⟩
  | cons a as ih =>
    rw [serveArrivals]
    split
    · exact ⟨0, h, fun _ => rfl⟩
    · have haccept := h.accept a.accept
      rcases hcall : TcpServer.acceptClient p.server a.accept with ⟨server, clientFd⟩
      rw [hcall] at haccept
      dsimp only at haccept ⊢
      rcases haccept with ⟨rfl | rfl, rfl⟩ | ⟨hfd, hserving⟩
      · exact ih h
      · exact ⟨0, h, fun _ => rfl⟩
      · rw [if_neg (by omega), if_neg (by omega)]
        have hsame := serveOn_resources p.video a.client
        generalize serveOn p.video a.client = r at hsame ⊢
        obtain ⟨video, e, s⟩ := r
        have hserved : Process.Accounts ⟨video, server⟩ {clientFd} :=
          ⟨hsame.accounted h.camera, hserving.server, hserving.sockets⟩
        split
        · exact ih (hserved.closeClient hfd)
        · exact ⟨_, hserved, nofun⟩

theorem runProcess_accounts (cfg : AppConfig) {attempts : List Attempt}
    (hmaps : ∀ a ∈ attempts, ∀ i, a.o.mmap i ≠ 0) (bindAddr : List UInt8)
    (o : TcpServer.ListenOutcome) (arrivals : List Arrival) (streamOff : Bool) :
    ∃ clients, (runProcess cfg attempts bindAddr o arrivals streamOff).1.Accounts clients ∧
      ((runProcess cfg attempts bindAddr o arrivals streamOff).2.2.isSome → clients = 0) := by
  have hopen := @openCamera_accounted cfg attempts hmaps {} ⟨Ledger.balanced_nil, rfl⟩
  have hnone : Handle.AtMost 2 (Handle.calls {}) := always_nil.mpr (Nat.zero_le 2)
  have hlisten := Handle.accounts_init.acquire o.socket
    [bindAddr.isEmpty || bindAddr == TcpServer.anyAddr || o.inetPton, o.bind, o.listen]
  have hmost := Handle.accounts_init.acquire_atMost hnone (by decide) o.socket
    [bindAddr.isEmpty || bindAddr == TcpServer.anyAddr || o.inetPton, o.bind, o.listen]
  rw [← TcpServer.listen] at hlisten hmost
  rw [runProcess]
  generalize openCamera cfg attempts {} = r at hopen ⊢
  obtain ⟨video, log, _ | _ | _⟩ := r
  · exact ⟨0, ⟨hopen, Handle.accounts_init, hnone⟩, nofun⟩
  · exact ⟨0, ⟨hopen, Handle.accounts_init, hnone⟩, fun _ => rfl⟩
  · generalize TcpServer.listen {} bindAddr o = r at hlisten hmost ⊢
    obtain ⟨server, _ | _⟩ := r
    · exact ⟨0, ⟨Video.close_accounted hopen streamOff, hlisten, hmost⟩, fun _ => rfl⟩
    · obtain ⟨clients, hserved, hleft⟩ :=
        @serveArrivals_accounts arrivals ⟨video, server⟩ ⟨hopen, hlisten, hmost⟩
      simp only
      generalize serveArrivals arrivals ⟨video, server⟩ = r at hserved hleft ⊢
      obtain ⟨p, more, _ | _⟩ := r
      · exact ⟨clients, hserved, nofun⟩
      · exact ⟨clients, ⟨Video.close_accounted hserved.camera streamOff, hserved.server.close,
          hserved.server.close_atMost hserved.sockets⟩, fun _ => hleft rfl⟩

/-- In every run there are never more than two sockets, and nothing is closed or unmapped that is not
live.  Where the run returns, all that was taken has been given back when the application is
destroyed. -/
theorem run_settles (cfg : AppConfig) {attempts : List Attempt}
    (hmaps : ∀ a ∈ attempts, ∀ i, a.o.mmap i ≠ 0) (bindAddr : List UInt8)
    (o : TcpServer.ListenOutcome) (arrivals : List Arrival) (streamOff streamOff' : Bool) :
    let r := runProcess cfg attempts bindAddr o arrivals streamOff
    Handle.AtMost 2 r.1.server.calls ∧ Ledger.Balanced r.1.server.calls ∧
      Ledger.Balanced r.1.video.driver.ledger ∧
      (r.2.2.isSome → Ledger.Settled (r.1.destroy streamOff').server.calls ∧
        Ledger.Settled (r.1.destroy streamOff').video.driver.ledger) := by
  obtain ⟨clients, h, hreturned⟩ := runProcess_accounts cfg hmaps bindAddr o arrivals streamOff
  refine ⟨h.sockets, h.server.balanced, h.camera.balanced, fun hsome => ?_⟩
  obtain rfl := hreturned hsome
  exact h.destroy streamOff'

/-- A camera opens at the second attempt, and a client comes for whom it does not stream. -/
def briefRun : Process × List Event × Option Int :=
  runProcess { device := [0x2F] }
    [⟨true, true, twoMapped mapFailed, fun _ => true, true⟩,
      ⟨true, true, twoMapped 0x2000, fun _ => true, true⟩]
    [] ⟨some 4, false, true, true⟩
    [⟨true, ⟨.ok 1, .ok 5⟩, ⟨⟨fun _ => true, false⟩, [], [], true⟩⟩,
      ⟨true, ⟨.error .other, .ok 5⟩, ⟨⟨fun _ => true, false⟩, [], [], true⟩⟩] true

theorem run_settles_brief : briefRun.2.2 = some 0 ∧
    briefRun.1.server.calls = [.acquire 4, .acquire 5, .release 5, .release 4] ∧
    Ledger.Settled (briefRun.1.destroy true).video.driver.ledger := by
  have hmaps : ∀ a ∈ [(⟨true, true, twoMapped mapFailed, fun _ => true, true⟩ : Attempt),
      ⟨true, true, twoMapped 0x2000, fun _ => true, true⟩], ∀ i, a.o.mmap i ≠ 0 := by
    rw [List.forall_mem_cons, List.forall_mem_singleton]
    exact ⟨(twoMapped_possible (by decide)).mmap, (twoMapped_possible (by decide)).mmap⟩
  have hreturned : briefRun.2.2 = some 0 := by decide
  refine ⟨hreturned, by decide, ?_⟩
  have hrun := run_settles { device := [0x2F] } hmaps [] ⟨some 4, false, true, true⟩
    [⟨true, ⟨.ok 1, .ok 5⟩, ⟨⟨fun _ => true, false⟩, [], [], true⟩⟩,
      ⟨true, ⟨.error .other, .ok 5⟩, ⟨⟨fun _ => true, false⟩, [], [], true⟩⟩] true true
  exact (hrun.2.2.2 (by decide)).2

end Patrol.App
