import Patrol.Network.TcpServer

/-! `Application::serveClient`: one session with the front end.  The session sends a greeting, and then
in each turn of its loop a video frame and once a second a telemetry frame, and polls for commands. -/

namespace Patrol.App

open Network ProofKit

/-- What the session sees of the camera as it starts. -/
structure Camera where
  started : Bool
  width : Int32
  height : Int32
  isMjpeg : Bool

/-- What one turn of the loop sees: the `running_` flag, what `grabFrame` returns (`none` where it
fails), the time, and the results of the `recv` calls. -/
structure Turn where
  running : Bool
  grab : Option (List UInt8)
  now : UInt32
  reads : Reads

/-- One send: the bytes of its frame, and those that the socket accepted. -/
structure Sent where
  frame : List UInt8
  accepted : List UInt8
deriving DecidableEq, Repr

/-- The state of a session: the results left to later `send` calls, the sends so far, and the local
variables of the loop. -/
structure Session where
  sends : List SendResult
  log : List Sent := []
  rxBuf : List UInt8 := []
  lastSensorMs : UInt32 := 0
  grabFailCnt : UInt32 := 0

/-- Why a session ended.  `ongoing` says that it has not, and `fault` that `pollCommands` faulted. -/
inductive SessionEnd
  | startFailed
  | stopped
  | grabFailed
  | sendFailed
  | peerGone
  | fault
  | ongoing
deriving DecidableEq, Repr

def readyText (cam : Camera) : List UInt8 :=
  ("PatrolSystem ready " ++ toString cam.width.toInt ++ "x" ++ toString cam.height.toInt ++
    (if cam.isMjpeg then " MJPEG" else " RAW")).toList.map Char.toUInt8

/-- A send of `frame` on the session's socket with the outcome `o`.  A send that has not returned
leaves the session where it is. -/
def onSocket (frame : List UInt8) (o : SendOut) (s : Session) :
    Except (SessionEnd × Session) (Bool × Session) :=
  let s := { s with sends := o.rest, log := s.log ++ [⟨frame, o.accepted⟩] }
  match o.ret with
  | some ok => .ok (ok, s)
  | none => .error (.ongoing, s)

/-- `if (!sendFrame(...)) break`. -/
def sendOrBreak (type : UInt8) (payload : List UInt8) (s : Session) :
    Except (SessionEnd × Session) Session := do
  let (ok, s) ← onSocket (frameBytes type payload) (sendFrame type payload s.sends) s
  if ok then .ok s else .error (.sendFailed, s)

/-- The part of a turn that grabs a video frame. -/
def serveGrab (t : Turn) (s : Session) : Except (SessionEnd × Session) Session :=
  match t.grab with
  | some data =>
    let s := { s with grabFailCnt := 0 }
    if 0 < data.length then sendOrBreak frameVideo data s else .ok s
  | none =>
    let s := { s with grabFailCnt := s.grabFailCnt + 1 }
    if 5 ≤ s.grabFailCnt then .error (.grabFailed, s) else .ok s

def sensorData (now : UInt32) : SensorData :=
  { timestamp_ms := now, voltage_mV := 12000, mode := 3, risk_level := 0 }

/-- The part of a turn that sends telemetry. -/
def serveSensor (t : Turn) (s : Session) : Except (SessionEnd × Session) Session :=
  if 1000 ≤ t.now - s.lastSensorMs then
    sendOrBreak frameSensor (packSensor (sensorData t.now)) { s with lastSensorMs := t.now }
  else .ok s

/-- The part of a turn that polls for commands. -/
def servePoll (t : Turn) (s : Session) : Except (SessionEnd × Session) Session :=
  match pollCommands t.reads s.rxBuf [] with
  | none => .error (.fault, s)
  | some p =>
    let s := { s with rxBuf := p.buf }
    if p.rc < 0 then .error (.peerGone, s) else .ok s

def serveTurn (t : Turn) (s : Session) : Except (SessionEnd × Session) Session := do
  if !t.running then .error (.stopped, s)
  else
    let s ← serveGrab t s
    let s ← serveSensor t s
    servePoll t s

def serveLoop : List Turn → Session → SessionEnd × Session
  | [], s => (.ongoing, s)
  | t :: ts, s =>
    match serveTurn t s with
    | .ok s => serveLoop ts s
    | .error e => e

/-- A session.  The result of the greeting is not looked at. -/
def serveClient (cam : Camera) (turns : List Turn) (sends : List SendResult) :
    SessionEnd × Session :=
  let s : Session := { sends }
  if !cam.started then (.startFailed, s)
  else
    let text := readyText cam
    match onSocket (frameBytes frameText text) (sendText text s.sends) s with
    | .ok (_, s) => serveLoop turns s
    | .error e => e

end Patrol.App
