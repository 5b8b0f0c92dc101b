import Mathlib.Data.List.Basic
import Mathlib.Data.List.Induction

/-! The last value that a list of writes gives each key.  Where writes to one key supersede each other
and writes to different keys commute, what a list of writes does depends on these values only. -/

namespace ProofKit

variable {K V S : Type*} [DecidableEq K]

/-- The value that the last of the writes to a key gives it. -/
def lastVal (es : List (K × V)) (k : K) : Option V :=
  ((es.filter fun e => e.1 = k).map Prod.snd).getLast?

theorem lastVal_append (es fs : List (K × V)) (k : K) :
    lastVal (es ++ fs) k = (lastVal fs k).or (lastVal es k) := by
  simp only [lastVal, List.filter_append, List.map_append, List.getLast?_append]

theorem lastVal_singleton (e : K × V) (k : K) :
    lastVal [e] k = if e.1 = k then some e.2 else none := by
  by_cases h : e.1 = k <;> simp [lastVal, h]

theorem lastVal_concat (es : List (K × V)) (e : K × V) (k : K) :
    lastVal (es ++ [e]) k = if e.1 = k then some e.2 else lastVal es k := by
  rw [lastVal_append, lastVal_singleton]
  split <;> rfl

theorem lastVal_eq_none {es : List (K × V)} {k : K} :
    lastVal es k = none ↔ ∀ e ∈ es, e.1 ≠ k := by
  simp only [lastVal, List.getLast?_eq_none_iff, List.map_eq_nil_iff, List.filter_eq_nil_iff,
    decide_eq_true_eq, ne_eq]

/-- The last value is one that was written. -/
theorem mem_of_lastVal {es : List (K × V)} {k : K} {v : V} (h : lastVal es k = some v) :
    (k, v) ∈ es := by
  obtain ⟨⟨k', v'⟩, hfilter, rfl⟩ := List.mem_map.mp (List.mem_of_getLast? h)
  obtain ⟨he, hk⟩ := List.mem_filter.mp hfilter
  obtain rfl : k' = k := by simpa using hk
  exact he

/-- Without the writes to a key, the other keys keep their values. -/
theorem lastVal_filter (es : List (K × V)) (k k' : K) :
    lastVal (es.filter fun e => e.1 ≠ k) k' = if k' = k then none else lastVal es k' := by
  split
  · next heq =>
    apply lastVal_eq_none.mpr
    intro e he
    simpa [heq] using (List.mem_filter.mp he).2
  · next hne =>
    have hboth : (es.filter fun e => e.1 ≠ k).filter (fun e => e.1 = k') =
        es.filter fun e => e.1 = k' := by
      rw [List.filter_filter]
      apply List.filter_congr
      intro e he
      by_cases h : e.1 = k' <;> simp [h, hne]
    rw [lastVal, hboth, lastVal]

section Writes

variable {write : S → K × V → S}
  (habsorb : ∀ s k v v', write (write s (k, v)) (k, v') = write s (k, v'))
  (hcomm : ∀ s k k' v v', k ≠ k' →
    write (write s (k, v)) (k', v') = write (write s (k', v')) (k, v))

include habsorb hcomm

/-- The writes to a key can be replaced by the last of them, made at the end. -/
theorem foldl_extract (es : List (K × V)) (k : K) (s : S) :
    es.foldl write s =
      match lastVal es k with
      | none => (es.filter fun e => e.1 ≠ k).foldl write s
      | some v => write ((es.filter fun e => e.1 ≠ k).foldl write s) (k, v) := by
  induction es using List.reverseRecOn with
  | nil => rfl
  | append_singleton es e ih =>
    obtain ⟨k', v'⟩ := e
    rw [List.foldl_append, List.foldl_cons, List.foldl_nil, lastVal_concat, List.filter_append]
    by_cases hk : k' = k
    · subst hk
      rw [if_pos rfl, List.filter_cons_of_neg (by simp), List.filter_nil, List.append_nil, ih]
      cases lastVal es k' with
      | none => rfl
      | some v => exact habsorb _ _ _ _
    · rw [if_neg hk, List.filter_cons_of_pos (by simpa using hk), List.filter_nil, ih]
      cases lastVal es k with
      | none => rw [List.foldl_append, List.foldl_cons, List.foldl_nil]
      | some v =>
        rw [List.foldl_append, List.foldl_cons, List.foldl_nil]
        exact hcomm _ _ _ _ _ (Ne.symm hk)

/-- Two lists of writes that give every key the same last value do the same. -/
theorem foldl_eq_of_lastVal {es fs : List (K × V)} (h : ∀ k, lastVal es k = lastVal fs k) (s : S) :
    es.foldl write s = fs.foldl write s := by
  induction hn : es.length using Nat.strongRecOn generalizing es fs with
  | ind n ih =>
    rcases List.eq_nil_or_concat es with rfl | ⟨es', ⟨k, v⟩, rfl⟩
    · rcases List.eq_nil_or_concat fs with rfl | ⟨fs', ⟨k, v⟩, rfl⟩
      · rfl
      · have hk := h k
        rw [List.concat_eq_append, lastVal_concat, if_pos rfl] at hk
        cases hk
    · rw [List.concat_eq_append] at *
      have hlast : lastVal (es' ++ [(k, v)]) k = some v := by
        rw [lastVal_concat, if_pos rfl]
      have hshort : ((es' ++ [(k, v)]).filter fun e => e.1 ≠ k).length < n := by
        rw [← hn, List.filter_append, List.filter_cons_of_neg (by simp), List.filter_nil,
          List.append_nil, List.length_append]
        exact Nat.lt_succ_of_le (List.length_filter_le _ _)
      have hrest : ((es' ++ [(k, v)]).filter fun e => e.1 ≠ k).foldl write s =
          (fs.filter fun e => e.1 ≠ k).foldl write s := by
        apply ih _ hshort _ rfl
        intro k'
        rw [lastVal_filter, lastVal_filter, h k']
      rw [foldl_extract habsorb hcomm (es' ++ [(k, v)]) k, foldl_extract habsorb hcomm fs k, ← h k,
        hlast, hrest]

end Writes

end ProofKit
