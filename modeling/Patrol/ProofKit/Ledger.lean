import Mathlib.Data.Multiset.AddSub
import Patrol.ProofKit.Machine

/-! Ledgers: what has been acquired and released, in this order.  Nothing is released in a balanced
ledger that is not live. -/

namespace ProofKit

inductive Entry (R : Type*)
  | acquire (r : R)
  | release (r : R)
deriving DecidableEq, Repr

namespace Ledger

variable {R : Type*} [DecidableEq R]

def post (held : Multiset R) : Entry R → Multiset R
  | .acquire r => r ::ₘ held
  | .release r => held.erase r

/-- What has been acquired and not yet released. -/
def live (log : List (Entry R)) : Multiset R := log.foldl post 0

/-- Only what is live can be released. -/
def Allowed (log : List (Entry R)) : Entry R → Prop
  | .acquire _ => True
  | .release r => r ∈ live log

def Balanced (log : List (Entry R)) : Prop := EachOp Allowed log

theorem live_concat (log : List (Entry R)) (e : Entry R) :
    live (log ++ [e]) = post (live log) e := by
  rw [live, List.foldl_append]
  rfl

theorem balanced_nil : Balanced ([] : List (Entry R)) := eachOp_nil

theorem Balanced.acquire {log : List (Entry R)} (h : Balanced log) (r : R) :
    Balanced (log ++ [.acquire r]) :=
  eachOp_concat.mpr ⟨h, trivial⟩

theorem Balanced.release {log : List (Entry R)} (h : Balanced log) {r : R} (hr : r ∈ live log) :
    Balanced (log ++ [.release r]) :=
  eachOp_concat.mpr ⟨h, hr⟩

theorem Balanced.acquireAll {log : List (Entry R)} (h : Balanced log) (rs : List R) :
    Balanced (log ++ rs.map .acquire) ∧
      live (log ++ rs.map .acquire) = live log + (rs : Multiset R) := by
  induction rs generalizing log with
  | nil => simpa using h
  | cons r rs ih =>
    rw [List.map_cons, List.append_cons]
    obtain ⟨hbalanced, hlive⟩ := ih (h.acquire r)
    refine ⟨hbalanced, ?_⟩
    rw [hlive, live_concat, post, ← Multiset.cons_coe, Multiset.cons_add, Multiset.add_cons]

/-- Releasing a part of what is live, one by one, leaves the rest. -/
theorem Balanced.releaseAll {log : List (Entry R)} (h : Balanced log) (rs : List R)
    {rest : Multiset R} (hlive : live log = rest + (rs : Multiset R)) :
    Balanced (log ++ rs.map .release) ∧ live (log ++ rs.map .release) = rest := by
  induction rs generalizing log with
  | nil =>
    rw [List.map_nil, List.append_nil]
    exact ⟨h, by simpa using hlive⟩
  | cons r rs ih =>
    rw [← Multiset.cons_coe, Multiset.add_cons] at hlive
    rw [List.map_cons, List.append_cons]
    apply ih
    · exact h.release (by rw [hlive]; exact Multiset.mem_cons_self _ _)
    · rw [live_concat, hlive]
      exact Multiset.erase_cons_head _ _

/-- Of every resource, what was acquired was released or is live. -/
theorem Balanced.count {log : List (Entry R)} (h : Balanced log) (r : R) :
    log.count (.release r) + (live log).count r = log.count (.acquire r) := by
  induction log using List.reverseRecOn with
  | nil => simp [live]
  | append_singleton log e ih =>
    obtain ⟨hlog, he⟩ := eachOp_concat.mp h
    have hih := ih hlog
    rw [live_concat, List.count_append, List.count_append]
    cases e with
    | acquire r' =>
      rw [post, Multiset.count_cons]
      by_cases hr : r = r'
      · subst hr
        simp
        omega
      · have hne : Entry.acquire r' ≠ Entry.acquire r := fun heq => hr (Entry.acquire.inj heq).symm
        simp [hr, hne, hih]
    | release r' =>
      rw [post]
      by_cases hr : r = r'
      · subst hr
        have hpos := Multiset.count_pos.mpr he
        rw [Multiset.count_erase_self]
        simp
        omega
      · have hne : Entry.release r' ≠ Entry.release r := fun heq => hr (Entry.release.inj heq).symm
        rw [Multiset.count_erase_of_ne hr]
        simp [hne, hih]

/-- All that was acquired has been released. -/
structure Settled (log : List (Entry R)) : Prop where
  balanced : Balanced log
  live : live log = 0

theorem Settled.count {log : List (Entry R)} (h : Settled log) (r : R) :
    log.count (.release r) = log.count (.acquire r) := by
  have hcount := h.balanced.count r
  rwa [h.live, Multiset.count_zero, Nat.add_zero] at hcount

end Ledger

end ProofKit
