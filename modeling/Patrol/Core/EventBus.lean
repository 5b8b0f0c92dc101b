import Mathlib.Data.UInt
import Patrol.ProofKit.Machine
import Patrol.ProofKit.OrderedMap

/-! `EventBus`: handlers subscribe to events, and `publish` calls a copy of the handlers that it takes
under the lock.  Threads run interleaved; what a call does under the lock is one step. -/

namespace Patrol.Core

open ProofKit

/-- The bytes of a name of an event. -/
abbrev EventName := List UInt8

/-- A subscriber.  Its handler may be an empty `std::function`. -/
structure Sub (Handler : Type) where
  id : Int32
  handler : Option Handler
deriving DecidableEq, Repr

structure EventBus (Handler : Type) where
  subs : List (EventName × List (Sub Handler)) := []
  nextId : Int32 := 0

namespace EventBus

variable {Handler : Type}

/-- The subscribers of an event. -/
def subscribers (bus : EventBus Handler) (event : EventName) : List (Sub Handler) :=
  (bus.subs.lookup event).getD []

def subscribe (bus : EventBus Handler) (event : EventName) (h : Option Handler) :
    EventBus Handler × Int32 :=
  ({ subs := OrderedMap.insert event (bus.subscribers event ++ [⟨bus.nextId, h⟩]) bus.subs
     nextId := bus.nextId + 1 }, bus.nextId)

/-- The subscribers without the first one with the id, if there is one. -/
def eraseId (id : Int32) : List (Sub Handler) → Option (List (Sub Handler))
  | [] => none
  | s :: v => if s.id = id then some v else (eraseId id v).map (s :: ·)

/-- The loop of `unsubscribe` over the events. -/
def eraseFrom (id : Int32) :
    List (EventName × List (Sub Handler)) → List (EventName × List (Sub Handler))
  | [] => []
  | (event, v) :: kvs =>
    match eraseId id v with
    | some v' => (event, v') :: kvs
    | none => (event, v) :: eraseFrom id kvs

def unsubscribe (bus : EventBus Handler) (id : Int32) : EventBus Handler :=
  { bus with subs := eraseFrom id bus.subs }

/-- All subscribers, over all events. -/
def all (bus : EventBus Handler) : List (Sub Handler) :=
  bus.subs.flatMap Prod.snd

end EventBus

section Threads

variable (Handler Data : Type)

/-- What happened: calls of `subscribe` and `unsubscribe`, the steps of `publish` that copy the
handlers, that return and that an exception leaves by, and the handlers that it called.  Publications
are numbered. -/
inductive Entry
  | subscribed (event : EventName) (sub : Sub Handler)
  | unsubscribed (id : Int32)
  | published (pub : Nat) (event : EventName) (data : Data) (hs : List (Sub Handler))
  | called (pub : Nat) (sub : Sub Handler) (event : EventName) (data : Data)
  | returned (pub : Nat)
  | threw (pub : Nat)

/-- A call of `publish` on the stack of a thread: the handlers left to call, and whether one of them
is running. -/
structure Frame where
  thread : Nat
  pub : Nat
  event : EventName
  data : Data
  hs : List (Sub Handler)
  running : Bool := false

/-- The bus, the calls of `publish` on all stacks, the innermost ones first, and the history. -/
structure World where
  bus : EventBus Handler := {}
  frames : List (Frame Handler Data) := []
  pubs : Nat := 0
  log : List (Entry Handler Data) := []

/-- A step of a thread. -/
inductive Step
  | subscribe (thread : Nat) (event : EventName) (h : Option Handler)
  | unsubscribe (thread : Nat) (id : Int32)
  | publish (thread : Nat) (event : EventName) (data : Data)
  | callNext (thread : Nat)
  | handlerReturns (thread : Nat)
  | handlerThrows (thread : Nat)
  | publishReturns (thread : Nat)

end Threads

namespace World

variable {Handler Data : Type}

/-- The innermost call of `publish` of a thread. -/
def top (w : World Handler Data) (t : Nat) : Option (Frame Handler Data) :=
  w.frames.find? fun f => f.thread = t

/-- A thread runs code of its own, or a handler. -/
def runsCode (w : World Handler Data) (t : Nat) : Bool :=
  (w.top t).all Frame.running

/-- Puts other calls in the place of the innermost call of a thread. -/
def replaceTop (t : Nat) (fs : List (Frame Handler Data)) :
    List (Frame Handler Data) → List (Frame Handler Data)
  | [] => []
  | f :: rest => if f.thread = t then fs ++ rest else f :: replaceTop t fs rest

def subscribe (w : World Handler Data) (event : EventName) (h : Option Handler) :
    World Handler Data :=
  let (bus, id) := w.bus.subscribe event h
  { w with bus, log := w.log ++ [.subscribed event ⟨id, h⟩] }

def unsubscribe (w : World Handler Data) (id : Int32) : World Handler Data :=
  { w with bus := w.bus.unsubscribe id, log := w.log ++ [.unsubscribed id] }

/-- The part of `publish` under the lock.  The code copies the handlers only; here they keep their
ids, so that the history can name them. -/
def publish (w : World Handler Data) (t : Nat) (event : EventName) (data : Data) :
    World Handler Data :=
  let hs := w.bus.subscribers event
  { w with
    frames := { thread := t, pub := w.pubs, event, data, hs } :: w.frames
    pubs := w.pubs + 1
    log := w.log ++ [.published w.pubs event data hs] }

/-- The next call in the loop of `publish`.  To call an empty handler throws `bad_function_call`, which
ends the loop. -/
def callNext (w : World Handler Data) (t : Nat) : World Handler Data :=
  match w.top t with
  | some ⟨t, pub, event, data, sub :: hs, false⟩ =>
    match sub.handler with
    | some _ =>
      { w with
        frames := replaceTop t [⟨t, pub, event, data, hs, true⟩] w.frames
        log := w.log ++ [.called pub sub event data] }
    | none => { w with frames := replaceTop t [] w.frames, log := w.log ++ [.threw pub] }
  | _ => w

def handlerReturns (w : World Handler Data) (t : Nat) : World Handler Data :=
  match w.top t with
  | some ⟨t, pub, event, data, hs, true⟩ =>
    { w with frames := replaceTop t [⟨t, pub, event, data, hs, false⟩] w.frames }
  | _ => w

/-- An exception leaves the handler that runs, and the `publish` that called it.  Whether the handler
around this one catches it or is left too shows in its own next step. -/
def handlerThrows (w : World Handler Data) (t : Nat) : World Handler Data :=
  match w.top t with
  | some ⟨t, pub, _, _, _, true⟩ =>
    { w with frames := replaceTop t [] w.frames, log := w.log ++ [.threw pub] }
  | _ => w

def publishReturns (w : World Handler Data) (t : Nat) : World Handler Data :=
  match w.top t with
  | some ⟨t, pub, _, _, [], false⟩ =>
    { w with frames := replaceTop t [] w.frames, log := w.log ++ [.returned pub] }
  | _ => w

end World

/-- The threads on one bus.  A step that a thread cannot take in a state changes nothing. -/
def threads (Handler Data : Type) : Machine (World Handler Data) (Step Handler Data) where
  init := {}
  step w
    | .subscribe t event h => if w.runsCode t then w.subscribe event h else w
    | .unsubscribe t id => if w.runsCode t then w.unsubscribe id else w
    | .publish t event data => if w.runsCode t then w.publish t event data else w
    | .callNext t => w.callNext t
    | .handlerReturns t => w.handlerReturns t
    | .handlerThrows t => w.handlerThrows t
    | .publishReturns t => w.publishReturns t

end Patrol.Core
