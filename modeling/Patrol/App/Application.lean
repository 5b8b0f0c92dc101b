import Patrol.App.ServeClient
import Patrol.Camera.CameraManager

/-! `Application::run`: the camera is opened, and then one front end after the other is served.  What
the camera, the sockets, the clock and the `running_` flag give are inputs. -/

namespace Patrol.App

open Network ProofKit
open Patrol.Camera

structure AppConfig where
  device : List UInt8
  width : Int32 := 1280
  height : Int32 := 720
  fps : Int32 := 30

/-- What one turn of a session gets: the `running_` flag, the results of the calls of `grabFrame`, the
memory that a frame is sent from, the time, and the results of the `recv` calls. -/
structure ClientTurn where
  running : Bool
  grab : GrabOutcome
  memory : UInt64 → UInt8
  now : UInt32
  reads : Reads

/-- What a session gets. -/
structure Client where
  start : StartOutcome
  turns : List ClientTurn
  sends : List SendResult
  streamOff : Bool

/-- The `size` bytes of memory at `data`. -/
def bytesAt (memory : UInt64 → UInt8) (data : UInt64) (size : UInt32) : List UInt8 :=
  (List.range size.toNat).map fun i => memory (data + UInt64.ofNat i)

/-- The camera after a turn, and what the turn sees.  Without the `running_` flag nothing is grabbed. -/
def ClientTurn.see (t : ClientTurn) (v : Video) : Video × Turn :=
  if t.running then
    let (v, frame) := v.grabFrame t.grab
    (v, ⟨true, frame.map fun f => bytesAt t.memory f.1 f.2, t.now, t.reads⟩)
  else (v, ⟨false, none, t.now, t.reads⟩)

/-- The loop of `serveClient` on the camera. -/
def serveTurns : List ClientTurn → Video → Session → Video × SessionEnd × Session
  | [], v, s => (v, .ongoing, s)
  | t :: ts, v, s =>
    let (v, turn) := t.see v
    match serveTurn turn s with
    | .ok s => serveTurns ts v s
    | .error e => (v, e)

/-- The session is over. -/
def SessionEnd.isOver : SessionEnd → Bool
  | .ongoing => false
  | .fault => false
  | _ => true

/-- `serveClient` on the camera. -/
def serveOn (v : Video) (c : Client) : Video × SessionEnd × Session :=
  match v.startStreaming c.start with
  | (v, false) => (v, .startFailed, { sends := c.sends })
  | (v, true) =>
    let text := readyText ⟨true, v.camera.width, v.camera.height, v.camera.isMjpeg⟩
    match onSocket (frameBytes frameText text) (sendText text c.sends) { sends := c.sends } with
    | .error e => (v, e)
    | .ok (_, s) =>
      let (v, e, s) := serveTurns c.turns v s
      (if e.isOver then v.stopStreaming c.streamOff else v, e, s)

/-- The steps of a run that can be told apart from outside. -/
inductive Event
  | cameraOpen (ok : Bool)
  | listen (ok : Bool)
  | sessionStart
  | sessionEnd (e : SessionEnd)
  | returned (code : Int)
deriving DecidableEq, Repr

/-- The loads of `running_` in a sleep of which `left` rounds of 100 ms are left. -/
def sleepRounds (loads : Nat → Bool) (round : Nat) : Nat → Bool
  | 0 => loads round
  | left + 1 => if !loads round then false else sleepRounds loads (round + 1) left

def interruptibleSleep (totalMs : Nat) (loads : Nat → Bool) : Bool :=
  sleepRounds loads 0 ((totalMs + 99) / 100)

/-- An attempt to open the camera: the `running_` flag before it, the results of its calls, the flag in
the rounds of the sleep after a failure, and the flag after a success. -/
structure Attempt where
  running : Bool
  streamOff : Bool
  o : OpenOutcome
  loads : Nat → Bool
  stillRunning : Bool

/-- What `acceptClient` returns: -1, -2, or a client. -/
inductive Accepted
  | none
  | failed
  | client (c : Client)

/-- A turn of the loop of `run`: the `running_` flag, and what `acceptClient` returns. -/
structure Visit where
  running : Bool
  accepted : Accepted

/-- The loop that opens the camera.  The result says whether the run goes on or returns, and `none`
that it is not decided yet.  The `running_` flag is never set again. -/
def openCamera (cfg : AppConfig) : List Attempt → Video → Video × List Event × Option Bool
  | [], v => (v, [], none)
  | a :: as, v =>
    if !a.running then (v, [], some false)
    else
      match v.open a.streamOff cfg.device cfg.width cfg.height cfg.fps a.o with
      | (v, true) => (v, [.cameraOpen true], some a.stillRunning)
      | (v, false) =>
        if interruptibleSleep 3000 a.loads then
          let (v, log, res) := openCamera cfg as v
          (v, .cameraOpen false :: log, res)
        else (v, [.cameraOpen false], some false)

/-- The loop that serves clients, and whether it is left. -/
def acceptLoop : List Visit → Video → Video × List Event × Bool
  | [], v => (v, [], false)
  | a :: as, v =>
    if !a.running then (v, [], true)
    else
      match a.accepted with
      | .none => acceptLoop as v
      | .failed => (v, [], true)
      | .client c =>
        let (v, e, _) := serveOn v c
        if e.isOver then
          let (v, log, left) := acceptLoop as v
          (v, .sessionStart :: .sessionEnd e :: log, left)
        else (v, [.sessionStart], false)

/-- A run.  `listened` is the result of `listen`, and `streamOff` that of `STREAMOFF` at the end. -/
def run (cfg : AppConfig) (attempts : List Attempt) (listened : Bool) (visits : List Visit)
    (streamOff : Bool) : Video × List Event :=
  match openCamera cfg attempts {} with
  | (v, log, none) => (v, log)
  | (v, log, some false) => (v, log ++ [.returned 0])
  | (v, log, some true) =>
    if !listened then (v.close streamOff, log ++ [.listen false, .returned 1])
    else
      match acceptLoop visits v with
      | (v, more, false) => (v, log ++ .listen true :: more)
      | (v, more, true) => (v.close streamOff, log ++ .listen true :: (more ++ [.returned 0]))

end Patrol.App
