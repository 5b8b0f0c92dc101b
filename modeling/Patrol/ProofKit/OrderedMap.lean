import Mathlib.Data.List.Basic

/-! Maps as lists of entries in the order of their keys. -/

namespace ProofKit.OrderedMap

variable {K V W : Type*}

section Lookup

variable [BEq K]

theorem lookup_cons (k k' : K) (v : V) (m : List (K × V)) :
    List.lookup k ((k', v) :: m) = if k == k' then some v else List.lookup k m := by
  rw [List.lookup_cons]
  cases k == k' <;> rfl

theorem lookup_map (f : V → W) (k : K) (m : List (K × V)) :
    List.lookup k (m.map fun e => (e.1, f e.2)) = (List.lookup k m).map f := by
  induction m with
  | nil => rfl
  | cons entry m ih =>
    obtain ⟨k₀, v₀⟩ := entry
    rw [List.map_cons, lookup_cons, lookup_cons, ih]
    split <;> rfl

theorem lookup_mem [LawfulBEq K] {k : K} {v : V} {m : List (K × V)}
    (h : List.lookup k m = some v) : (k, v) ∈ m := by
  obtain ⟨before, after, rfl, -⟩ := List.lookup_eq_some_iff.mp h
  simp

end Lookup

variable [Ord K]

/-- Puts a value at a key, in the place of the value that is there. -/
def insert (k : K) (v : V) : List (K × V) → List (K × V)
  | [] => [(k, v)]
  | (k', v') :: m =>
    match compare k k' with
    | .lt => (k, v) :: (k', v') :: m
    | .eq => (k, v) :: m
    | .gt => (k', v') :: insert k v m

/-- The keys ascend. -/
def Sorted (m : List (K × V)) : Prop :=
  m.Pairwise fun a b => compare a.1 b.1 = .lt

section Insert

variable [BEq K] [LawfulBEq K]

/-- The new value is at its key, and all others are where they were. -/
theorem lookup_insert [Std.LawfulEqOrd K] (k k' : K) (v : V) (m : List (K × V)) :
    List.lookup k' (insert k v m) = if k' == k then some v else List.lookup k' m := by
  induction m with
  | nil => rw [insert, lookup_cons]
  | cons entry m ih =>
    obtain ⟨k₀, v₀⟩ := entry
    rw [insert]
    split
    · rw [lookup_cons]
    · next h =>
      obtain rfl := Std.LawfulEqOrd.eq_of_compare h
      rw [lookup_cons, lookup_cons]
      split <;> rfl
    · next h =>
      have hne : k ≠ k₀ := by
        rintro rfl
        rw [Std.ReflOrd.compare_self] at h
        cases h
      rw [lookup_cons, ih, lookup_cons]
      split
      · next h₀ =>
        rw [if_neg]
        simp only [beq_iff_eq] at h₀ ⊢
        rintro rfl
        exact hne h₀
      · rfl

/-- A key before all others of a map is not in it. -/
theorem lookup_before [Std.LawfulEqOrd K] {k : K} {m : List (K × V)}
    (h : ∀ e ∈ m, compare k e.1 = .lt) : List.lookup k m = none := by
  induction m with
  | nil => rfl
  | cons entry m ih =>
    obtain ⟨k₀, v₀⟩ := entry
    simp only [List.forall_mem_cons] at h
    rw [lookup_cons, if_neg, ih h.2]
    simp only [beq_iff_eq]
    rintro rfl
    have hlt := h.1
    rw [Std.ReflOrd.compare_self] at hlt
    cases hlt

end Insert

/-- The later of two values at a key stays. -/
theorem insert_insert [Std.ReflOrd K] (k : K) (v w : V) (m : List (K × V)) :
    insert k v (insert k w m) = insert k v m := by
  induction m with
  | nil => simp only [insert, Std.ReflOrd.compare_self]
  | cons entry m ih =>
    obtain ⟨k₀, v₀⟩ := entry
    cases h : compare k k₀ with
    | lt => simp only [insert, h, Std.ReflOrd.compare_self]
    | eq => simp only [insert, h, Std.ReflOrd.compare_self]
    | gt => simp only [insert, h, ih]

section Sorted

variable [Std.TransOrd K] [Std.LawfulEqOrd K]

/-- Where an insertion goes: between two parts of the map, in the place of the entry with its key if
there is one. -/
theorem insert_split [BEq K] [LawfulBEq K] (k : K) (v : V) {m : List (K × V)} (h : Sorted m) :
    ∃ a b, insert k v m = a ++ (k, v) :: b ∧ (∀ e ∈ a, compare e.1 k = .lt) ∧
      (∀ e ∈ b, compare k e.1 = .lt) ∧
      (List.lookup k m = none ∧ m = a ++ b ∨
        ∃ v', List.lookup k m = some v' ∧ m = a ++ (k, v') :: b) := by
  induction m with
  | nil => exact ⟨[], [], rfl, nofun, nofun, Or.inl ⟨rfl, rfl⟩⟩
  | cons entry m ih =>
    obtain ⟨k₀, v₀⟩ := entry
    obtain ⟨hhead, htail⟩ := List.pairwise_cons.mp h
    rw [insert]
    split
    · next hlt =>
      have hbefore : ∀ e ∈ (k₀, v₀) :: m, compare k e.1 = .lt := by
        simp only [List.forall_mem_cons]
        exact ⟨hlt, fun e he => Std.TransCmp.lt_trans hlt (hhead e he)⟩
      exact ⟨[], (k₀, v₀) :: m, rfl, nofun, hbefore, Or.inl ⟨lookup_before hbefore, rfl⟩⟩
    · next heq =>
      obtain rfl := Std.LawfulEqOrd.eq_of_compare heq
      exact ⟨[], m, rfl, nofun, hhead, Or.inr ⟨v₀, by rw [lookup_cons, if_pos BEq.rfl], rfl⟩⟩
    · next hgt =>
      obtain ⟨a, b, hinsert, ha, hb, hm⟩ := ih htail
      have hne : k ≠ k₀ := by
        rintro rfl
        rw [Std.ReflOrd.compare_self] at hgt
        cases hgt
      refine ⟨(k₀, v₀) :: a, b, by rw [hinsert]; rfl, ?_, hb, ?_⟩
      · simp only [List.forall_mem_cons]
        exact ⟨Std.OrientedCmp.gt_iff_lt.mp hgt, ha⟩
      · rw [lookup_cons, if_neg (by simpa using hne)]
        rcases hm with ⟨hnone, rfl⟩ | ⟨v', hsome, rfl⟩
        · exact Or.inl ⟨hnone, rfl⟩
        · exact Or.inr ⟨v', hsome, rfl⟩

theorem insert_sorted (k : K) (v : V) {m : List (K × V)} (h : Sorted m) : Sorted (insert k v m) := by
  classical
  obtain ⟨a, b, hinsert, ha, hb, hm⟩ := insert_split k v h
  have hab : Sorted (a ++ b) := by
    rcases hm with ⟨-, rfl⟩ | ⟨v', -, rfl⟩
    · exact h
    · exact h.sublist (List.Sublist.append_left (List.sublist_cons_self _ _) a)
  obtain ⟨hsa, hsb, hcross⟩ := List.pairwise_append.mp hab
  rw [hinsert]
  refine List.pairwise_append.mpr ⟨hsa, List.pairwise_cons.mpr ⟨hb, hsb⟩, ?_⟩
  intro x hx y hy
  rcases List.mem_cons.mp hy with rfl | hy
  · exact ha x hx
  · exact hcross x hx y hy

end Sorted

end ProofKit.OrderedMap
