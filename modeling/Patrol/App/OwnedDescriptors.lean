import Patrol.Network.Sockets
import Patrol.ProofKit.HandleTable
import Patrol.Serial.SerialManager

/-! The descriptors of a process with any number of `TcpClient`s, `SerialManager`s and `TcpServer`s. -/

namespace Patrol.App

open Network Serial ProofKit

/-- `SerialManager::open` on the handle `fd_`. -/
def openPort (s : Handle) : OpenResult → Handle × Bool
  | .openFails => s.acquire none []
  | .tcgetattrFails fd => s.acquire (some fd) [false]
  | .tcsetattrFails fd => s.acquire (some fd) [true, false]
  | .opened fd => s.acquire (some fd) [true, true]

/-- The handle of a manager is what the manager has. -/
theorem openPort_fd {m : SerialManager} {s : Handle} (h : s.fd = m.fd) (o : OpenResult) :
    (openPort s o).1.fd = (m.open o).1.fd ∧ (openPort s o).2 = (m.open o).2 ∧
      s.close.fd = m.close.fd := by
  have hclose : s.close.fd = m.close.fd := by
    unfold Handle.close SerialManager.close
    rw [h]
    split
    · rfl
    · exact h
  cases o <;> exact ⟨rfl, rfl, hclose⟩

/-- The objects. -/
inductive Owner (Client Port Server : Type)
  | client (i : Client)
  | port (i : Port)
  | server (i : Server)
deriving DecidableEq

/-- The operations that open and close descriptors, with the results of their system calls. -/
inductive FdOp (Client Port Server : Type)
  | connect (i : Client) (o : TcpClient.ConnectOutcome)
  | closeClient (i : Client)
  | openPort (i : Port) (o : OpenResult)
  | closePort (i : Port)
  | listen (i : Server) (bindAddr : List UInt8) (o : TcpServer.ListenOutcome)
  | closeServer (i : Server)

namespace FdOp

variable {Client Port Server : Type}

def owner : FdOp Client Port Server → Owner Client Port Server
  | connect i _ => .client i
  | closeClient i => .client i
  | openPort i _ => .port i
  | closePort i => .port i
  | listen i _ _ => .server i
  | closeServer i => .server i

/-- The operation on the handle of its object. -/
def perform (s : Handle) : FdOp Client Port Server → Handle
  | connect _ o => (TcpClient.connect s o).1
  | closeClient _ => TcpClient.close s
  | openPort _ o => (App.openPort s o).1
  | closePort _ => s.close
  | listen _ bindAddr o => (TcpServer.listen s bindAddr o).1
  | closeServer _ => TcpServer.close s

/-- The descriptor that the system hands out. -/
def opened : FdOp Client Port Server → Option Nat
  | connect _ o => o.socket
  | openPort _ .openFails => none
  | openPort _ (.tcgetattrFails fd) => some fd
  | openPort _ (.tcsetattrFails fd) => some fd
  | openPort _ (.opened fd) => some fd
  | listen _ _ o => o.socket
  | _ => none

/-- An operation closes the descriptor of its object, or closes it and gets another one. -/
theorem perform_cases (s : Handle) (op : FdOp Client Port Server) :
    op.perform s = s.close ∨ ∃ stages, op.perform s = (s.acquire op.opened stages).1 := by
  cases op with
  | connect i o => exact Or.inr ⟨_, rfl⟩
  | closeClient i => exact Or.inl rfl
  | openPort i o =>
    cases o with
    | openFails => exact Or.inr ⟨[], rfl⟩
    | tcgetattrFails fd => exact Or.inr ⟨[false], rfl⟩
    | tcsetattrFails fd => exact Or.inr ⟨[true, false], rfl⟩
    | opened fd => exact Or.inr ⟨[true, true], rfl⟩
  | closePort i => exact Or.inl rfl
  | listen i bindAddr o => exact Or.inr ⟨_, rfl⟩
  | closeServer i => exact Or.inl rfl

end FdOp

variable {Client Port Server : Type} [DecidableEq Client] [DecidableEq Port] [DecidableEq Server]

/-- A process that has the objects. -/
def descriptors : Machine (HandleTable (Owner Client Port Server)) (FdOp Client Port Server) where
  init := {}
  step t op := t.put op.owner (op.perform (t.handle op.owner))

/-- What the system hands out is not live when it does. -/
def HandedOut (before : List (FdOp Client Port Server)) (op : FdOp Client Port Server) : Prop :=
  (descriptors.run before).Fresh op.owner op.opened

theorem step_owned {t : HandleTable (Owner Client Port Server)} (h : t.Owned)
    {op : FdOp Client Port Server} (hfresh : t.Fresh op.owner op.opened) :
    (descriptors.step t op).Owned := by
  show (t.put op.owner (op.perform (t.handle op.owner))).Owned
  rcases op.perform_cases (t.handle op.owner) with hclose | ⟨stages, hacquire⟩
  · rw [hclose]
    exact h.close op.owner
  · rw [hacquire]
    exact h.acquire op.owner hfresh stages

theorem run_owned {ops : List (FdOp Client Port Server)} (h : EachOp HandedOut ops) :
    (descriptors.run ops).Owned := by
  induction ops using List.reverseRecOn with
  | nil => exact HandleTable.owned_init
  | append_singleton ops op ih =>
    obtain ⟨hbefore, hop⟩ := eachOp_concat.mp h
    rw [Machine.run_concat]
    exact step_owned (ih hbefore) hop

/-- Whatever operations there are on the objects of a process, in any order and with any results: a live
descriptor belongs to just one object; no descriptor is closed that is not live, so none twice and none
for another object; and once no object has one, all that were opened have been closed. -/
theorem descriptors_owned {ops : List (FdOp Client Port Server)} (h : EachOp HandedOut ops) :
    let t := descriptors.run ops
    Ledger.Balanced t.calls ∧
      (∀ fd ∈ Ledger.live t.calls, ∃! i, t.fd i = fd) ∧
      (∀ i, 0 ≤ t.fd i → t.fd i ∈ Ledger.live t.calls) ∧
      ((∀ i, t.fd i < 0) → ∀ fd, t.calls.count (.release fd) = t.calls.count (.acquire fd)) := by
  have howned := run_owned h
  intro t
  refine ⟨howned.balanced, ?_, ?_, fun hnone => (howned.settled hnone).count⟩
  · intro fd hfd
    obtain ⟨hpos, i, rfl⟩ := (howned.live fd).mp hfd
    exact ⟨i, rfl, fun j hj => (howned.distinct i j hpos hj.symm).symm⟩
  · intro i hpos
    exact (howned.live _).mpr ⟨hpos, i, rfl⟩

/-- A client connects and closes, and a port gets the number that the client had. -/
def reused : List (FdOp Unit Unit Unit) :=
  [.connect () ⟨some 3, true, .inProgress, 1, 0⟩, .closeClient (), .openPort () (.opened 3)]

theorem descriptors_owned_reused :
    let t := descriptors.run reused
    Ledger.Balanced t.calls ∧
      (∀ fd ∈ Ledger.live t.calls, ∃! i, t.fd i = fd) ∧
      (∀ i, 0 ≤ t.fd i → t.fd i ∈ Ledger.live t.calls) ∧
      ((∀ i, t.fd i < 0) → ∀ fd, t.calls.count (.release fd) = t.calls.count (.acquire fd)) := by
  apply descriptors_owned
  have hconnect : EachOp HandedOut (reused.take 1) := by
    apply (@eachOp_concat _ HandedOut [] _).mpr ⟨eachOp_nil, ?_⟩
    intro fd hfd
    cases hfd
    decide
  have hclose : EachOp HandedOut (reused.take 2) := by
    apply (@eachOp_concat _ HandedOut (reused.take 1) _).mpr ⟨hconnect, ?_⟩
    intro fd hfd
    cases hfd
  apply (@eachOp_concat _ HandedOut (reused.take 2) _).mpr ⟨hclose, ?_⟩
  intro fd hfd
  cases hfd
  decide

end Patrol.App
