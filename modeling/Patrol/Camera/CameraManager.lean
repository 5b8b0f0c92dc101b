import Mathlib.Data.Finset.Range
import Mathlib.Data.Finset.Basic
import Patrol.ProofKit.Machine

/-! `CameraManager`: the camera, through the V4L2 driver.  What the system calls return is an input of
each operation; the driver keeps the buffers that are queued. -/

namespace Patrol.Camera

open ProofKit

def capVideoCapture : UInt32 := 0x00000001
def capStreaming : UInt32 := 0x04000000
def capTimePerFrame : UInt32 := 0x1000

/-- The pixel format `MJPG`. -/
def pixFmtMjpeg : UInt32 := 0x47504A4D

/-- The address that `mmap` returns where it fails. -/
def mapFailed : UInt64 := 0xFFFFFFFFFFFFFFFF

structure MappedBuffer where
  start : UInt64 := 0
  length : UInt32 := 0
deriving DecidableEq, Repr

/-- A system call that gives the manager a descriptor or a mapping, or takes one back. -/
inductive Call
  | opened (fd : Int)
  | closed (fd : Int)
  | mapped (b : MappedBuffer)
  | unmapped (b : MappedBuffer)
deriving DecidableEq, Repr

/-- The driver: the indices of the queued buffers, and the calls so far. -/
structure Driver where
  queued : Finset Nat := ∅
  calls : List Call := []

structure CameraManager where
  fd : Int := -1
  device : List UInt8 := []
  width : Int32 := 0
  height : Int32 := 0
  fps : Int32 := 0
  isMjpeg : Bool := false
  streaming : Bool := false
  lastIndex : Int32 := -1
  buffers : List MappedBuffer := []

/-- The manager and the driver under it. -/
structure Video where
  camera : CameraManager := {}
  driver : Driver := {}

namespace Driver

def record (d : Driver) (c : Call) : Driver :=
  { d with calls := d.calls ++ [c] }

/-- `VIDIOC_QBUF`.  It fails on a queued buffer, and where `ok` says so. -/
def qbuf (d : Driver) (ok : Bool) (index : Nat) : Driver × Bool :=
  if ok && decide (index ∉ d.queued) then ({ d with queued := insert index d.queued }, true)
  else (d, false)

/-- `VIDIOC_DQBUF`: the index of a queued buffer and the bytes used in it, or a failure. -/
def dqbuf (d : Driver) (filled : Option (UInt32 × UInt32)) :
    Driver × Option (UInt32 × UInt32) :=
  match filled with
  | some (index, bytesused) =>
    if index.toNat ∈ d.queued then
      ({ d with queued := d.queued.erase index.toNat }, some (index, bytesused))
    else (d, none)
  | none => (d, none)

/-- `VIDIOC_STREAMOFF`. -/
def streamOff (d : Driver) (ok : Bool) : Driver :=
  if ok then { d with queued := ∅ } else d

/-- The buffers of a device go with its descriptor. -/
def close (d : Driver) (fd : Int) : Driver :=
  { d with queued := ∅ }.record (.closed fd)

end Driver

/-- What the system calls of `open` return.  A failed `ioctl` is `none`, and otherwise there is what
the driver filled in; `queryBuf` and `mmap` are called once for each buffer. -/
structure OpenOutcome where
  fd : Int
  queryCap : Option UInt32
  setFmt : Option (UInt32 × UInt32 × UInt32)
  getParm : Option UInt32
  setParm : Option UInt32
  reqBufs : Option UInt32
  queryBuf : Nat → Option UInt32
  mmap : Nat → UInt64

/-- Which `QBUF` calls of `startStreaming` the driver does not fail of its own, by their index, and
the result of `STREAMON`. -/
structure StartOutcome where
  qbuf : Nat → Bool
  streamOn : Bool

/-- The results of the calls of `grabFrame`: of `QBUF`, `select` and `DQBUF`. -/
structure GrabOutcome where
  qbuf : Bool
  select : Int32
  dqbuf : Option (UInt32 × UInt32)

namespace Video

def withDriver (s : Video) (d : Driver) : Video :=
  { s with driver := d }

def stopStreaming (s : Video) (streamOff : Bool) : Video :=
  if s.camera.fd < 0 || !s.camera.streaming then s
  else
    { camera := { s.camera with streaming := false, lastIndex := -1 }
      driver := s.driver.streamOff streamOff }

/-- Unmaps the buffers, each at its address and with its length. -/
def unmapBuffers (s : Video) : Video :=
  let unmapped := s.camera.buffers.filter fun b => b.start != 0 && b.start != mapFailed
  { camera := { s.camera with buffers := [] }
    driver := unmapped.foldl (fun d b => d.record (.unmapped b)) s.driver }

def close (s : Video) (streamOff : Bool) : Video :=
  let s := if s.camera.streaming then s.stopStreaming streamOff else s
  let s := s.unmapBuffers
  let s :=
    if 0 ≤ s.camera.fd then
      { camera := { s.camera with fd := -1 }, driver := s.driver.close s.camera.fd }
    else s
  { s with camera := { s.camera with lastIndex := -1 } }

/-- `requeue`: the index goes to the driver as an unsigned word. -/
def requeue (s : Video) (ok : Bool) (index : Int32) : Video × Bool :=
  let (d, ok) := s.driver.qbuf ok index.toUInt32.toNat
  (s.withDriver d, ok)

/-- The loop of `startStreaming` over the buffers from `i` on, of which there are `n`. -/
def requeueFrom (s : Video) (qbuf : Nat → Bool) (i : Nat) : Nat → Video × Bool
  | 0 => (s, true)
  | n + 1 =>
    match s.requeue (qbuf i) (Int32.ofNat i) with
    | (s, true) => requeueFrom s qbuf (i + 1) n
    | (s, false) => (s, false)

def startStreaming (s : Video) (o : StartOutcome) : Video × Bool :=
  if s.camera.fd < 0 || s.camera.streaming then (s, s.camera.streaming)
  else
    match s.requeueFrom o.qbuf 0 s.camera.buffers.length with
    | (s, false) => (s, false)
    | (s, true) =>
      if !o.streamOn then (s, false)
      else ({ s with camera := { s.camera with streaming := true, lastIndex := -1 } }, true)

/-- The part of `grabFrame` that gives the last buffer back. -/
def giveBack (s : Video) (qbuf : Bool) : Video × Bool :=
  if 0 ≤ s.camera.lastIndex then
    match s.requeue qbuf s.camera.lastIndex with
    | (s, true) => ({ s with camera := { s.camera with lastIndex := -1 } }, true)
    | (s, false) => (s, false)
  else (s, true)

/-- The part of `grabFrame` after `select`: the address of the frame and its size. -/
def takeFrame (s : Video) (filled : Option (UInt32 × UInt32)) : Video × Option (UInt64 × UInt32) :=
  match s.driver.dqbuf filled with
  | (d, none) => (s.withDriver d, none)
  | (d, some (index, bytesused)) =>
    ({ camera := { s.camera with lastIndex := index.toInt32 }, driver := d },
      some ((s.camera.buffers.getD index.toNat {}).start, bytesused))

def grabFrame (s : Video) (o : GrabOutcome) : Video × Option (UInt64 × UInt32) :=
  if s.camera.fd < 0 || !s.camera.streaming then (s, none)
  else
    match s.giveBack o.qbuf with
    | (s, false) => (s, none)
    | (s, true) =>
      if o.select < 0 then (s, none)
      else if o.select == 0 then (s, none)
      else s.takeFrame o.dqbuf

/-- The loop of `open` over the buffers from `i` on, of which there are `n`. -/
def mapBuffers (s : Video) (o : OpenOutcome) (i : Nat) : Nat → Video × Bool
  | 0 => (s, true)
  | n + 1 =>
    match o.queryBuf i with
    | none => (s, false)
    | some length =>
      let b : MappedBuffer := ⟨o.mmap i, length⟩
      if b.start == mapFailed then (s, false)
      else
        mapBuffers { camera := { s.camera with buffers := s.camera.buffers.set i b }
                     driver := s.driver.record (.mapped b) } o (i + 1) n

/-- The frame rate: the requested one, or what the driver makes of it. -/
def frameRate (fps : Int32) (o : OpenOutcome) : Int32 :=
  match o.getParm with
  | some capability =>
    if capability &&& capTimePerFrame != 0 then
      match o.setParm with
      | some denominator => denominator.toInt32
      | none => fps
    else fps
  | none => fps

/-- The part of `open` after the device is open.  A failure here closes it again. -/
def setUp (s : Video) (fps : Int32) (o : OpenOutcome) : Video × Bool :=
  match o.queryCap with
  | none => (s, false)
  | some capabilities =>
    if capabilities &&& capVideoCapture == 0 then (s, false)
    else if capabilities &&& capStreaming == 0 then (s, false)
    else
      match o.setFmt with
      | none => (s, false)
      | some (width, height, pixelformat) =>
        let camera := { s.camera with
          width := width.toInt32, height := height.toInt32, isMjpeg := pixelformat == pixFmtMjpeg
          fps := frameRate fps o }
        match o.reqBufs with
        | none => ({ s with camera }, false)
        | some count =>
          if count < 2 then ({ s with camera }, false)
          else
            let buffers := List.replicate count.toNat {}
            mapBuffers { s with camera := { camera with buffers } } o 0 count.toNat

end Video

/-- The requested size goes to the driver only. -/
def Video.open (s : Video) (streamOff : Bool) (device : List UInt8) (_width _height fps : Int32)
    (o : OpenOutcome) : Video × Bool :=
  let s := s.close streamOff
  let s := { s with camera := { s.camera with device, fd := o.fd } }
  if o.fd < 0 then (s, false)
  else
    match (s.withDriver (s.driver.record (.opened o.fd))).setUp fps o with
    | (s, true) => (s, true)
    | (s, false) => (s.close streamOff, false)

/-- The operations, with what their system calls return.  `streamOff` is the result of `STREAMOFF`. -/
inductive Op
  | open (streamOff : Bool) (device : List UInt8) (width height fps : Int32) (o : OpenOutcome)
  | startStreaming (o : StartOutcome)
  | grabFrame (o : GrabOutcome)
  | stopStreaming (streamOff : Bool)
  | close (streamOff : Bool)

def machine : Machine Video Op where
  init := {}
  step s
    | .open streamOff device width height fps o => (s.open streamOff device width height fps o).1
    | .startStreaming o => (s.startStreaming o).1
    | .grabFrame o => (s.grabFrame o).1
    | .stopStreaming streamOff => s.stopStreaming streamOff
    | .close streamOff => s.close streamOff

end Patrol.Camera
