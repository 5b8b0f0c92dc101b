import Patrol.Json.Cst

/-! The members of an object: which of those with one name counts. -/

namespace Patrol.Json

open ProofKit

/-- The values after an opening bracket, with their keys. -/
def Items.values : Items → List (List UInt8 × Cst)
  | .close _ => []
  | .cut _ => []
  | .last label _ v _ => [(labelKey label, v)]
  | .more label _ v _ items => (labelKey label, v) :: items.values

/-- The last value of an object with the given key. -/
def Cst.member (key : List UInt8) : Cst → Option Cst
  | .container true items => items.values.reverse.lookup key
  | _ => none

theorem members_values : ∀ items : Items, items.members = items.values.map fun m => (m.1, m.2.node)
  | .close _ => rfl
  | .cut _ => rfl
  | .last _ _ _ _ => rfl
  | .more label _ v _ items => by
    rw [Items.members, Items.values, List.map_cons, members_values items]

theorem values_lexemes {key : List UInt8} {v : Cst} {x : Lexeme} (hx : x ∈ v.lexemes) :
    ∀ {items : Items}, (key, v) ∈ items.values → x ∈ items.lexemes
  | .close _, h => by cases h
  | .cut _, h => by cases h
  | .last label w v₀ w', h => by
    obtain ⟨rfl, rfl⟩ := Prod.mk.inj (List.mem_singleton.mp h)
    simp [Items.lexemes, hx]
  | .more label w v₀ w' items, h => by
    rcases List.mem_cons.mp h with h | h
    · obtain ⟨rfl, rfl⟩ := Prod.mk.inj h
      simp [Items.lexemes, hx]
    · simp [Items.lexemes, values_lexemes hx h]

theorem member_lexemes {key : List UInt8} {c v : Cst} (h : c.member key = some v) {x : Lexeme}
    (hx : x ∈ v.lexemes) : x ∈ c.lexemes := by
  rw [Cst.member.eq_def] at h
  split at h
  · next items =>
    exact values_lexemes hx (List.mem_reverse.mp (OrderedMap.lookup_mem h))
  · cases h

/-- Of the entries with one key the last stays. -/
theorem entriesOf_lookup (key : List UInt8) (ms : List (List UInt8 × JsonNode)) :
    (entriesOf ms).lookup key = ms.reverse.lookup key := by
  induction ms using List.reverseRecOn with
  | nil => rfl
  | append_singleton ms m ih =>
    have hinsert : entriesOf (ms ++ [m]) = OrderedMap.insert m.1 m.2 (entriesOf ms) := by
      rw [entriesOf, List.foldl_append]
      rfl
    rw [hinsert, OrderedMap.lookup_insert, List.reverse_append, List.reverse_singleton,
      List.singleton_append, OrderedMap.lookup_cons, ih]

/-- `operator[]` finds the last member with the key. -/
theorem get_member {key : List UInt8} {c v : Cst} (h : c.member key = some v) :
    c.node.get key = v.node := by
  rw [Cst.member.eq_def] at h
  split at h
  · next items =>
    rw [Cst.node, JsonNode.get, entriesOf_lookup, members_values, ← List.map_reverse,
      OrderedMap.lookup_map Cst.node, h]
    rfl
  · cases h

theorem member_isObject {key : List UInt8} {c v : Cst} (h : c.member key = some v) :
    c.node.isObject = true := by
  rw [Cst.member.eq_def] at h
  split at h
  · rfl
  · cases h

end Patrol.Json
