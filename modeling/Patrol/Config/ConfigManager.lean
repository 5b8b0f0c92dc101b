import Patrol.Json.JsonHelper
import Patrol.ProofKit.Machine

/-! `ConfigManager`: the configuration, and its files. -/

namespace Patrol.Config

open ProofKit Json

/-- The bytes of a text of ASCII characters. -/
def ascii (s : String) : List UInt8 := s.toList.map Char.toUInt8

structure CameraConf where
  device : List UInt8 := ascii "/dev/video0"
  width : Int32 := 1280
  height : Int32 := 720
  fps : Int32 := 30
deriving DecidableEq, Repr

structure NetworkConf where
  bind : List UInt8 := ascii "0.0.0.0"
  port : UInt16 := 8080
deriving DecidableEq, Repr

structure SerialConf where
  device : List UInt8 := ascii "/dev/ttyS1"
  baud : Int32 := 115200
deriving DecidableEq, Repr

structure ConfigManager where
  camera : CameraConf := {}
  network : NetworkConf := {}
  serial : SerialConf := {}
deriving DecidableEq, Repr

/-- `static_cast<uint16_t>` of a `long long`. -/
def toPort (v : Int64) : UInt16 := v.toUInt64.toUInt16

namespace ConfigManager

variable (toLong : List UInt8 → Int64)

def loadCamera (conf : CameraConf) (cam : JsonNode) : CameraConf :=
  if cam.isObject then
    { device := (cam.get (ascii "device")).stringOr conf.device
      width := ((cam.get (ascii "width")).intOr toLong conf.width.toInt64).toInt32
      height := ((cam.get (ascii "height")).intOr toLong conf.height.toInt64).toInt32
      fps := ((cam.get (ascii "fps")).intOr toLong conf.fps.toInt64).toInt32 }
  else conf

def loadNetwork (conf : NetworkConf) (net : JsonNode) : NetworkConf :=
  if net.isObject then
    { bind := (net.get (ascii "bind")).stringOr conf.bind
      port := toPort ((net.get (ascii "port")).intOr toLong (Int64.ofNat conf.port.toNat)) }
  else conf

def loadSerial (conf : SerialConf) (ser : JsonNode) : SerialConf :=
  if ser.isObject then
    { device := (ser.get (ascii "device")).stringOr conf.device
      baud := ((ser.get (ascii "baud")).intOr toLong conf.baud.toInt64).toInt32 }
  else conf

/-- `load` of a file with the given bytes, or of one that cannot be read. -/
def load (c : ConfigManager) (content : Option (List UInt8)) : ConfigManager × Bool :=
  match content with
  | none => (c, false)
  | some content =>
    let (root, err) := parse content ""
    if err != "" || root.isNull then (c, false)
    else
      ({ camera := loadCamera toLong c.camera (root.get (ascii "camera"))
         network := loadNetwork toLong c.network (root.get (ascii "network"))
         serial := loadSerial toLong c.serial (root.get (ascii "serial")) }, true)

/-- `%s`: a C string ends at the first null byte. -/
def printStr (s : List UInt8) : List UInt8 := s.takeWhile (· != 0)

/-- `%u`. -/
def printNat (n : Nat) : List UInt8 := (Nat.toDigits 10 n).map Char.toUInt8

/-- `%d`. -/
def printInt (x : Int) : List UInt8 :=
  if x < 0 then 0x2D :: printNat x.natAbs else printNat x.natAbs

/-- What `save` writes. -/
def save (c : ConfigManager) : List UInt8 :=
  ascii "\x7b\n" ++
  (ascii "  \"camera\": \x7b\n" ++
  (ascii "    \"device\": \"" ++ (printStr c.camera.device ++ (ascii "\",\n" ++
  (ascii "    \"width\": " ++ (printInt c.camera.width.toInt ++ (ascii ",\n" ++
  (ascii "    \"height\": " ++ (printInt c.camera.height.toInt ++ (ascii ",\n" ++
  (ascii "    \"fps\": " ++ (printInt c.camera.fps.toInt ++ (ascii "\n" ++
  (ascii "  \x7d,\n" ++
  (ascii "  \"network\": \x7b\n" ++
  (ascii "    \"bind\": \"" ++ (printStr c.network.bind ++ (ascii "\",\n" ++
  (ascii "    \"port\": " ++ (printNat c.network.port.toNat ++ (ascii "\n" ++
  (ascii "  \x7d,\n" ++
  (ascii "  \"serial\": \x7b\n" ++
  (ascii "    \"device\": \"" ++ (printStr c.serial.device ++ (ascii "\",\n" ++
  (ascii "    \"baud\": " ++ (printInt c.serial.baud.toInt ++ (ascii "\n" ++
  (ascii "  \x7d\n" ++
  ascii "\x7d\n"))))))))))))))))))))))))))))))

/-- A manager that loads one file after the other. -/
def loading : Machine ConfigManager (Option (List UInt8)) where
  init := {}
  step c content := (c.load toLong content).1

end ConfigManager

end Patrol.Config
