import Patrol.Config.Numbers

/-! Several files: what a configuration is after it has been loaded from one file after another. -/

namespace Patrol.Config

open ProofKit Json

/-- The string that a node is. -/
def textOf : JsonNode → Option (List UInt8)
  | .string val => some val
  | _ => none

/-- The number that a node is. -/
def numberOf (toLong : List UInt8 → Int64) : JsonNode → Option Int64
  | .int val => some val
  | .double num => some (toLong num)
  | _ => none

inductive TextField
  | cameraDevice
  | bind
  | serialDevice
deriving DecidableEq, Repr

namespace TextField

/-- The names of a field: that of its section, and its own. -/
def path : TextField → List UInt8 × List UInt8
  | cameraDevice => (ascii "camera", ascii "device")
  | bind => (ascii "network", ascii "bind")
  | serialDevice => (ascii "serial", ascii "device")

def value (c : ConfigManager) : TextField → List UInt8
  | cameraDevice => c.camera.device
  | bind => c.network.bind
  | serialDevice => c.serial.device

end TextField

namespace ConfigManager

variable (toLong : List UInt8 → Int64)

/-- The root of a file that `load` accepts. -/
def accepted (content : Option (List UInt8)) : Option JsonNode :=
  content.bind fun content =>
    if (parse content "").2 != "" || (parse content "").1.isNull then none
    else some (parse content "").1

/-- What a file says at a path. -/
def said (content : Option (List UInt8)) (path : List UInt8 × List UInt8) : Option JsonNode :=
  (accepted content).map fun root => (root.get path.1).get path.2

/-- The string that a file gives for a field. -/
def textSaid (f : TextField) (content : Option (List UInt8)) : Option (List UInt8) :=
  (said content f.path).bind textOf

/-- The number that a file gives for a field, before it is converted to the field's type. -/
def numberSaid (f : NumberField) (content : Option (List UInt8)) : Option Int64 :=
  (said content f.path).bind (numberOf toLong)

theorem load_rejected {content : Option (List UInt8)} (h : accepted content = none)
    (c : ConfigManager) : c.load toLong content = (c, false) := by
  cases content with
  | none => rfl
  | some content =>
    rw [accepted, Option.bind_some] at h
    rw [load]
    split at h
    · next hrejected =>
      dsimp only
      rw [if_pos hrejected]
    · cases h

theorem load_accepted {content : Option (List UInt8)} {root : JsonNode}
    (h : accepted content = some root) (c : ConfigManager) :
    c.load toLong content =
      ({ camera := loadCamera toLong c.camera (root.get (ascii "camera"))
         network := loadNetwork toLong c.network (root.get (ascii "network"))
         serial := loadSerial toLong c.serial (root.get (ascii "serial")) }, true) := by
  cases content with
  | none => cases h
  | some content =>
    rw [accepted, Option.bind_some] at h
    rw [load]
    split at h
    · cases h
    · next haccepted =>
      cases h
      dsimp only
      rw [if_neg haccepted]

theorem stringOr_eq (n : JsonNode) (fallback : List UInt8) :
    n.stringOr fallback = (textOf n).getD fallback := by
  cases n <;> rfl

theorem toInt32_intOr (n : JsonNode) (x : Int32) :
    (n.intOr toLong x.toInt64).toInt32 = ((numberOf toLong n).map Int64.toInt32).getD x := by
  cases n <;> first | rfl | exact Int32.toInt32_toInt64 x

theorem toPort_intOr (n : JsonNode) (x : UInt16) :
    toPort (n.intOr toLong (Int64.ofNat x.toNat)) = ((numberOf toLong n).map toPort).getD x := by
  cases n <;> first | rfl | exact toPort_ofNat x

/-- What is not an object has no members, and changes nothing. -/
theorem loadCamera_eq (conf : CameraConf) (n : JsonNode) : loadCamera toLong conf n =
    { device := (n.get (ascii "device")).stringOr conf.device
      width := ((n.get (ascii "width")).intOr toLong conf.width.toInt64).toInt32
      height := ((n.get (ascii "height")).intOr toLong conf.height.toInt64).toInt32
      fps := ((n.get (ascii "fps")).intOr toLong conf.fps.toInt64).toInt32 } := by
  cases n <;> simp [loadCamera, JsonNode.isObject, JsonNode.get, JsonNode.stringOr, JsonNode.intOr]

theorem loadNetwork_eq (conf : NetworkConf) (n : JsonNode) : loadNetwork toLong conf n =
    { bind := (n.get (ascii "bind")).stringOr conf.bind
      port := toPort ((n.get (ascii "port")).intOr toLong (Int64.ofNat conf.port.toNat)) } := by
  cases n <;> simp [loadNetwork, JsonNode.isObject, JsonNode.get, JsonNode.stringOr, JsonNode.intOr,
    toPort_ofNat]

theorem loadSerial_eq (conf : SerialConf) (n : JsonNode) : loadSerial toLong conf n =
    { device := (n.get (ascii "device")).stringOr conf.device
      baud := ((n.get (ascii "baud")).intOr toLong conf.baud.toInt64).toInt32 } := by
  cases n <;> simp [loadSerial, JsonNode.isObject, JsonNode.get, JsonNode.stringOr, JsonNode.intOr]

/-- A field has what the file says, else what it had. -/
theorem load_text (f : TextField) (c : ConfigManager) (content : Option (List UInt8)) :
    f.value (c.load toLong content).1 = (textSaid f content).getD (f.value c) := by
  cases h : accepted content with
  | none => simp [load_rejected toLong h, textSaid, said, h]
  | some root =>
    rw [load_accepted toLong h, textSaid, said, h, Option.map_some, Option.bind_some]
    cases f <;> simp only [TextField.value, TextField.path, loadCamera_eq, loadNetwork_eq,
      loadSerial_eq, stringOr_eq]

theorem load_number (f : NumberField) (c : ConfigManager) (content : Option (List UInt8)) :
    f.value (c.load toLong content).1 =
      ((numberSaid toLong f content).map f.narrow).getD (f.value c) := by
  cases h : accepted content with
  | none => simp [load_rejected toLong h, numberSaid, said, h]
  | some root =>
    rw [load_accepted toLong h, numberSaid, said, h, Option.map_some, Option.bind_some]
    have hint : ∀ (o : Option Int64) (x : Int32),
        ((o.map Int64.toInt32).getD x).toInt = (o.map fun v => v.toInt32.toInt).getD x.toInt := by
      intro o x
      cases o <;> rfl
    have hport : ∀ (o : Option Int64) (x : UInt16),
        (((o.map toPort).getD x).toNat : Int) =
          (o.map fun v => ((toPort v).toNat : Int)).getD x.toNat := by
      intro o x
      cases o <;> rfl
    cases f <;> simp only [NumberField.value, NumberField.path, loadCamera_eq, loadNetwork_eq,
      loadSerial_eq, toInt32_intOr, toPort_intOr, hint, hport] <;> rfl

/-- After loading one file after the other, each field has what the last file says that says something of
it, else its default; a file that is not accepted says nothing. -/
theorem loads_last (contents : List (Option (List UInt8))) :
    (∀ f : TextField, f.value ((loading toLong).run contents) =
      (contents.filterMap (textSaid f)).getLast?.getD (f.value {})) ∧
    ∀ f : NumberField, f.value ((loading toLong).run contents) =
      ((contents.filterMap (numberSaid toLong f)).getLast?.map f.narrow).getD (f.value {}) := by
  induction contents using List.reverseRecOn with
  | nil => exact ⟨fun _ => rfl, fun _ => rfl⟩
  | append_singleton contents content ih =>
    obtain ⟨htext, hnumber⟩ := ih
    rw [Machine.run_concat]
    constructor
    · intro f
      show f.value (ConfigManager.load toLong _ content).1 = _
      rw [load_text, htext f, List.filterMap_append]
      cases h : textSaid f content <;> simp [h]
    · intro f
      show f.value (ConfigManager.load toLong _ content).1 = _
      rw [load_number, hnumber f, List.filterMap_append]
      cases h : numberSaid toLong f content <;> simp [h]

end ConfigManager

end Patrol.Config
