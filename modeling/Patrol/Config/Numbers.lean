import Mathlib.Data.Int.ModEq
import Patrol.Config.Printing
import Patrol.Json.Members

/-! Numbers: what becomes of an integer that a configuration file gives for a field. -/

namespace Patrol.Config

open ProofKit Json

/-! ### The fields -/

inductive NumberField
  | width
  | height
  | fps
  | port
  | baud
deriving DecidableEq, Repr

namespace NumberField

/-- The names of a field: that of its section, and its own. -/
def path : NumberField → List UInt8 × List UInt8
  | width => (ascii "camera", ascii "width")
  | height => (ascii "camera", ascii "height")
  | fps => (ascii "camera", ascii "fps")
  | port => (ascii "network", ascii "port")
  | baud => (ascii "serial", ascii "baud")

def value (c : ConfigManager) : NumberField → Int
  | width => c.camera.width.toInt
  | height => c.camera.height.toInt
  | fps => c.camera.fps.toInt
  | port => c.network.port.toNat
  | baud => c.serial.baud.toInt

/-- The least number of the field's type. -/
def least : NumberField → Int
  | port => 0
  | _ => -2 ^ 31

/-- How many numbers the field's type has. -/
def modulus : NumberField → Int
  | port => 2 ^ 16
  | _ => 2 ^ 32

/-- The field's type has the number. -/
def Fits (f : NumberField) (x : Int) : Prop := f.least ≤ x ∧ x < f.least + f.modulus

instance (f : NumberField) (x : Int) : Decidable (f.Fits x) :=
  inferInstanceAs (Decidable (_ ∧ _))

/-- The conversion of a `long long` to the field's type. -/
def narrow : NumberField → Int64 → Int
  | port, v => (toPort v).toNat
  | _, v => v.toInt32.toInt

theorem value_fits (f : NumberField) (c : ConfigManager) : f.Fits (f.value c) := by
  have hint : ∀ x : Int32, -2 ^ 31 ≤ x.toInt ∧ x.toInt < -2 ^ 31 + 2 ^ 32 := fun x =>
    ⟨x.le_toInt, x.toInt_lt⟩
  have hport : ∀ x : UInt16, (0 : Int) ≤ x.toNat ∧ (x.toNat : Int) < 0 + 2 ^ 16 := fun x =>
    ⟨Int.natCast_nonneg _, by have := x.toNat_lt; omega⟩
  cases f with
  | width => exact hint _
  | height => exact hint _
  | fps => exact hint _
  | port => exact hport _
  | baud => exact hint _

theorem toPort_toNat (v : Int64) : ((toPort v).toNat : Int) = v.toInt % 2 ^ 16 := by
  rw [toPort, UInt64.toNat_toUInt16, ← Int64.toNat_toBitVec, ← Int64.toInt_toBitVec,
    BitVec.toInt_eq_toNat_bmod]
  have := v.toBitVec.isLt
  rw [Int.bmod_def]
  split <;> omega

/-- The conversion adds or takes whole rounds of the type. -/
theorem narrow_modEq (f : NumberField) (v : Int64) : f.narrow v ≡ v.toInt [ZMOD f.modulus] := by
  have hint : v.toInt32.toInt ≡ v.toInt [ZMOD 2 ^ 32] := by
    rw [Int64.toInt_toInt32]
    exact Int.bmod_emod
  cases f with
  | width => exact hint
  | height => exact hint
  | fps => exact hint
  | port =>
    show ((toPort v).toNat : Int) ≡ v.toInt [ZMOD 2 ^ 16]
    rw [toPort_toNat]
    exact Int.mod_modEq _ _
  | baud => exact hint

/-- Of the numbers that are the same up to whole rounds the type has one. -/
theorem Fits.unique {f : NumberField} {x y : Int} (hx : f.Fits x) (hy : f.Fits y)
    (h : x ≡ y [ZMOD f.modulus]) : x = y := by
  obtain ⟨k, hk⟩ := (Int.modEq_iff_dvd.mp h)
  obtain ⟨hxlow, hxhigh⟩ := hx
  obtain ⟨hylow, hyhigh⟩ := hy
  cases f <;> simp only [least, modulus] at * <;> omega

theorem Fits.clamp {f : NumberField} {x : Int} (h : f.Fits x) : clamp x = x := by
  obtain ⟨hlow, hhigh⟩ := h
  rw [Json.clamp]
  cases f <;> simp only [least, modulus] at * <;> omega

end NumberField

/-! ### Files -/

/-- A file gives an integer literal for a field: the last member with the section's name is an
object, and the literal is its last member with the field's name. -/
def Gives (content : List UInt8) (f : NumberField) (n : Numeral) : Prop :=
  ∃ (root conf : Cst) (r : List UInt8), root.Reads (skip content) r ∧
    root.member f.path.1 = some conf ∧ conf.member f.path.2 = some (.number n) ∧
    n.digits ≠ [] ∧ n.fraction = none ∧ n.exponent = none

/-- The field holds the literal's integer, or the integer has no place in it and the field is as it
was before. -/
def Kept (f : NumberField) (n : Numeral) (before after : ConfigManager) : Prop :=
  f.value after = n.value ∨ ¬ f.Fits n.value ∧ f.value after = f.value before

/-- An object with one member. -/
def single (key : List UInt8) (v : Cst) : Cst :=
  .container true (.last (some ⟨[], key.map .plain, []⟩) [] v [])

theorem single_member (key : List UInt8) (v : Cst) : (single key v).member key = some v := by
  have hkey : labelKey (some ⟨[], key.map .plain, []⟩) = key := by
    rw [labelKey, List.map_map]
    exact List.map_id _
  rw [single, Cst.member, Items.values, hkey]
  exact List.lookup_cons_self

theorem single_lexemes {key : List UInt8} (hkey : ConfigManager.PlainText key) {v : Cst}
    (hv : ∀ x ∈ v.lexemes, x.Readable) : ∀ x ∈ (single key v).lexemes, x.Readable := by
  have hblank : (Lexeme.blank []).Readable := by simp [Lexeme.Readable]
  simp only [single, Cst.lexemes, Items.lexemes, labelLexemes, List.cons_append,
    List.forall_mem_cons, List.forall_mem_append, List.forall_mem_map]
  exact ⟨hblank, hblank, fun b hb => (hkey b hb).2, hblank, hblank, hv⟩

/-- A file with one number in it. -/
def oneField (f : NumberField) (n : Numeral) : Cst := single f.path.1 (single f.path.2 (.number n))

theorem oneField_gives (f : NumberField) {n : Numeral} (hn : n.IsJson) (hf : n.fraction = none)
    (hx : n.exponent = none) : Gives (oneField f n).text f n := by
  have hnames : ConfigManager.PlainText f.path.1 ∧ ConfigManager.PlainText f.path.2 := by
    cases f <;> exact ⟨by decide, by decide⟩
  have hnumeral : ∀ x ∈ (Cst.number n).lexemes, x.Readable := by
    simpa only [Cst.lexemes, List.forall_mem_singleton] using
      @Lexeme.IsJson.readable (.numeral n) hn
  have hreads : (oneField f n).Reads (skip (oneField f n).text) [] := by
    refine ⟨(List.append_nil _).symm, ⟨rfl, rfl, trivial⟩, ?_, ?_, .inl ⟨rfl, rfl, trivial⟩⟩
    · exact single_lexemes hnames.1 (single_lexemes hnames.2 hnumeral)
    · intro m hm
      cases hm
  exact ⟨_, _, [], hreads, single_member _ _, single_member _ _, hn.digits_run.1, hf, hx⟩

namespace ConfigManager

/-- A file that gives an integer literal is accepted, and the field gets what `long long` and the
field's type make of it. -/
theorem load_gives {content : List UInt8} {f : NumberField} {n : Numeral} (h : Gives content f n)
    (toLong : List UInt8 → Int64) (c : ConfigManager) :
    (c.load toLong (some content)).2 = true ∧
      f.value (c.load toLong (some content)).1 = f.narrow (atoll n.text) := by
  obtain ⟨root, conf, r, hreads, hconf, hn, -, hf, hx⟩ := h
  have hobject : root.node.isNull = false := by
    have := member_isObject hconf
    cases hroot : root.node <;> simp_all [JsonNode.isObject, JsonNode.isNull]
  have hload : c.load toLong (some content) =
      ({ camera := loadCamera toLong c.camera (root.node.get (ascii "camera"))
         network := loadNetwork toLong c.network (root.node.get (ascii "network"))
         serial := loadSerial toLong c.serial (root.node.get (ascii "serial")) }, true) := by
    rw [load, parse_reads hreads]
    simp [hobject]
  have hget := get_member hconf
  have hnode : conf.node.get f.path.2 = .int (atoll n.text) := by
    rw [get_member hn, Cst.node, Numeral.node, hf, hx]
    rfl
  have hconfObject := member_isObject hn
  rw [hload]
  refine ⟨rfl, ?_⟩
  cases f <;> simp only [NumberField.path] at hget hnode <;>
    simp only [NumberField.value, NumberField.narrow, loadCamera, loadNetwork, loadSerial, hget,
      hconfObject, hnode, JsonNode.intOr, if_true]

/-- The integer of a literal is kept exactly when it fits its field, or when what `long long` makes
of it is the old number up to whole rounds of the field's type. -/
theorem load_kept_iff {content : List UInt8} {f : NumberField} {n : Numeral} (h : Gives content f n)
    (toLong : List UInt8 → Int64) (c : ConfigManager) :
    (c.load toLong (some content)).2 = true ∧
      (Kept f n c (c.load toLong (some content)).1 ↔
        f.Fits n.value ∨ clamp n.value ≡ f.value c [ZMOD f.modulus]) := by
  obtain ⟨haccepted, hvalue⟩ := load_gives h toLong c
  obtain ⟨root, conf, r, hreads, hconf, hn, -, hf, hx⟩ := h
  refine ⟨haccepted, ?_⟩
  have hreadable : (Lexeme.numeral n).Readable :=
    hreads.lexemes _ (member_lexemes hconf (member_lexemes hn (by simp [Cst.lexemes])))
  have hmod : f.value (c.load toLong (some content)).1 ≡ clamp n.value [ZMOD f.modulus] := by
    rw [hvalue, ← atoll_numeral hreadable hf hx]
    exact f.narrow_modEq _
  have hfits := f.value_fits (c.load toLong (some content)).1
  constructor
  · rintro (hkept | ⟨-, hkept⟩)
    · exact .inl (hkept ▸ hfits)
    · exact .inr (hkept ▸ hmod.symm)
  · intro hcond
    by_cases hn : f.Fits n.value
    · rw [hn.clamp] at hmod
      exact .inl (hfits.unique hn hmod)
    · have hold := hcond.resolve_left hn
      exact .inr ⟨hn, hfits.unique (f.value_fits c) (hmod.trans hold)⟩

/-- A width of 640 is kept. -/
theorem load_kept_width :
    Kept .width (printed 640) {}
      (load (fun _ => 0) {} (some (oneField .width (printed 640)).text)).1 :=
  (load_kept_iff (oneField_gives .width (printed_isJson 640) rfl rfl) _ {}).2.mpr
    (.inl (by rw [printed_value]; decide))

/-- A file that sets the port to 70000 is accepted, and the port is then 4464. -/
theorem port_wraps :
    (oneField .port (printed 70000)).text =
        ascii "\x7b\"network\":\x7b\"port\":70000\x7d\x7d" ∧
      (∀ toLong, (load toLong {} (some (oneField .port (printed 70000)).text)).2 = true ∧
        (load toLong {} (some (oneField .port (printed 70000)).text)).1.network.port = 4464) ∧
      ¬ ∀ content f n toLong c, Gives content f n →
        Kept f n c (load toLong c (some content)).1 := by
  have hgives := oneField_gives .port (printed_isJson 70000) rfl rfl
  have hload : ∀ toLong, (load toLong {} (some (oneField .port (printed 70000)).text)).2 = true ∧
      (load toLong {} (some (oneField .port (printed 70000)).text)).1.network.port = 4464 := by
    intro toLong
    obtain ⟨haccepted, hvalue⟩ := load_gives hgives toLong {}
    refine ⟨haccepted, UInt16.toNat_inj.mp (Int.ofNat_inj.mp (hvalue.trans ?_))⟩
    decide
  refine ⟨by decide, hload, fun hall => ?_⟩
  have hport := (hload fun _ => 0).2
  rcases hall _ _ _ (fun _ => 0) {} hgives with hkept | ⟨-, hkept⟩
  · rw [printed_value, NumberField.value, hport] at hkept
    exact absurd hkept (by decide)
  · rw [NumberField.value, hport] at hkept
    exact absurd hkept (by decide)

end ConfigManager

end Patrol.Config
