import Patrol.Network.TcpServer
import Patrol.ProofKit.Handle

/-! The sockets of `TcpServer` and `TcpClient`: the calls that make them, wait on them and close them. -/

namespace Patrol.Network

open ProofKit

/-! ### `TcpServer` -/

namespace TcpServer

/-- What the calls of `listen` return: `::socket`, whether `inet_pton` returns 1, and whether `::bind` and
`::listen` do not return a negative number. -/
structure ListenOutcome where
  socket : Option Nat
  inetPton : Bool
  bind : Bool
  listen : Bool

/-- `"0.0.0.0"` -/
def anyAddr : List UInt8 := "0.0.0.0".toList.map Char.toUInt8

/-- `listen`, on the handle `listenFd_`. -/
def listen (s : Handle) (bindAddr : List UInt8) (o : ListenOutcome) : Handle × Bool :=
  s.acquire o.socket [bindAddr.isEmpty || bindAddr == anyAddr || o.inetPton, o.bind, o.listen]

def close (s : Handle) : Handle := s.close

/-- What the calls of `acceptClient` return. -/
structure AcceptOutcome where
  select : Except Errno Nat
  accept : Except Errno Nat

/-- `acceptClient`: -1 where there is no client yet, -2 where there will be none, or a descriptor. -/
def acceptClient (s : Handle) (o : AcceptOutcome) : Handle × Int :=
  if s.fd < 0 then (s, -2)
  else
    match o.select with
    | .error .eintr => (s, -1)
    | .error _ => (s, -2)
    | .ok 0 => (s, -1)
    | .ok (_ + 1) =>
      match o.accept with
      | .error .other => (s, -2)
      | .error _ => (s, -1)
      | .ok fd => ({ s with calls := s.calls ++ [.acquire (fd : Int)] }, fd)

def closeClient (s : Handle) (fd : Int) : Handle :=
  if 0 ≤ fd then { s with calls := s.calls ++ [.release fd] } else s

/-- What `acceptClient` does: it returns a negative number or a descriptor that is then live. -/
theorem acceptClient_cases (s : Handle) (o : AcceptOutcome) :
    (acceptClient s o = (s, -1) ∨ acceptClient s o = (s, -2)) ∨
      ∃ fd : Nat, acceptClient s o =
        ({ s with calls := s.calls ++ [.acquire (fd : Int)] }, (fd : Int)) := by
  unfold acceptClient
  split
  · exact Or.inl (Or.inr rfl)
  · split
    · exact Or.inl (Or.inl rfl)
    · exact Or.inl (Or.inr rfl)
    · exact Or.inl (Or.inl rfl)
    · split
      · exact Or.inl (Or.inr rfl)
      · exact Or.inl (Or.inl rfl)
      · exact Or.inr ⟨_, rfl⟩

end TcpServer

/-! ### `TcpClient` -/

namespace TcpClient

/-- What `::connect` returns. -/
inductive ConnectResult
  | connected
  | inProgress
  | failed
deriving DecidableEq, Repr

/-- What the calls of `connect` return. -/
structure ConnectOutcome where
  socket : Option Nat
  inetPton : Bool
  connect : ConnectResult
  select : Int
  soError : Int

/-- `connect`, on the handle `fd_`. -/
def connect (c : Handle) (o : ConnectOutcome) : Handle × Bool :=
  c.acquire o.socket [o.inetPton, o.connect != .failed, decide (0 < o.select), o.soError == 0]

def close (c : Handle) : Handle := c.close

end TcpClient

end Patrol.Network
