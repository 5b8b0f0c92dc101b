import Mathlib.Order.Basic
import Mathlib.Order.Nat
import Patrol.ProofKit.Ledger

/-! Handles: an object that owns at most one descriptor.  It opens one anew after it has closed the one
it has, sets it up in stages, and closes it where a stage fails.  The descriptor is negative where the
object owns none. -/

namespace ProofKit

/-- An object with the descriptor that it owns, and the ledger of descriptors so far. -/
structure Handle where
  fd : Int := -1
  calls : List (Entry Int) := []
deriving DecidableEq, Repr

namespace Handle

/-- `if (fd >= 0) { ::close(fd); fd = -1; }` -/
def close (h : Handle) : Handle :=
  if 0 ≤ h.fd then { fd := -1, calls := h.calls ++ [.release h.fd] } else h

/-- A descriptor from the system, or none, and the results of the stages that set it up. -/
def acquire (h : Handle) (opened : Option Nat) (stages : List Bool) : Handle × Bool :=
  match opened with
  | none => ({ h.close with fd := -1 }, false)
  | some fd =>
    let h : Handle := { fd, calls := h.close.calls ++ [.acquire (fd : Int)] }
    if stages.all id then (h, true) else (h.close, false)

def owned (h : Handle) : Multiset Int := if 0 ≤ h.fd then {h.fd} else 0

/-- What is live is what the object owns, and descriptors that others have. -/
structure Accounts (h : Handle) (others : Multiset Int) : Prop where
  balanced : Ledger.Balanced h.calls
  live : Ledger.live h.calls = h.owned + others

theorem accounts_init : Accounts {} 0 := ⟨Ledger.balanced_nil, rfl⟩

theorem owned_of_neg {h : Handle} (hfd : h.fd < 0) : h.owned = 0 :=
  if_neg (by omega)

theorem owned_of_nonneg {h : Handle} (hfd : 0 ≤ h.fd) : h.owned = {h.fd} := if_pos hfd

theorem close_fd (h : Handle) : h.close.fd < 0 := by
  unfold close
  split
  · exact Int.negSucc_lt_zero 0
  · next hfd => exact Int.not_le.mp hfd

variable {h : Handle} {others : Multiset Int}

theorem Accounts.close (ha : Accounts h others) : Accounts h.close others := by
  unfold Handle.close
  split
  · next hfd =>
    have hlive := ha.live
    rw [owned_of_nonneg hfd] at hlive
    refine ⟨ha.balanced.release (by rw [hlive]; simp), ?_⟩
    rw [Ledger.live_concat, hlive, Ledger.post, Multiset.singleton_add, Multiset.erase_cons_head]
    exact (Multiset.zero_add others).symm
  · exact ha

/-- What is live after `close` are the descriptors of others. -/
theorem Accounts.live_close (ha : Accounts h others) : Ledger.live h.close.calls = others := by
  rw [ha.close.live, owned_of_neg h.close_fd, Multiset.zero_add]

theorem Accounts.acquire (ha : Accounts h others) (opened : Option Nat) (stages : List Bool) :
    Accounts (h.acquire opened stages).1 others := by
  cases opened with
  | none =>
    refine ⟨ha.close.balanced, ?_⟩
    exact ha.live_close.trans (Multiset.zero_add others).symm
  | some fd =>
    have hopen : Accounts { fd, calls := h.close.calls ++ [.acquire (fd : Int)] } others := by
      refine ⟨ha.close.balanced.acquire _, ?_⟩
      rw [Ledger.live_concat, ha.live_close, owned_of_nonneg (Int.natCast_nonneg fd), Ledger.post,
        Multiset.singleton_add]
    unfold Handle.acquire
    dsimp only
    split
    · exact hopen
    · exact hopen.close

/-- It says that it is open exactly if it owns a descriptor. -/
theorem acquire_owns (h : Handle) (opened : Option Nat) (stages : List Bool) :
    (h.acquire opened stages).2 = true ↔ 0 ≤ (h.acquire opened stages).1.fd := by
  cases opened with
  | none => exact iff_of_false Bool.false_ne_true (Int.not_le.mpr (Int.negSucc_lt_zero 0))
  | some fd =>
    unfold Handle.acquire
    dsimp only
    split
    · exact iff_of_true rfl (Int.natCast_nonneg fd)
    · exact iff_of_false Bool.false_ne_true (Int.not_le.mpr (close_fd _))

/-- There are never more than `n` live descriptors. -/
def AtMost (n : Nat) (calls : List (Entry Int)) : Prop :=
  Always (fun calls => (Ledger.live calls).card ≤ n) calls

theorem AtMost.concat {n : Nat} {calls : List (Entry Int)} (h : AtMost n calls) {e : Entry Int}
    (he : (Ledger.live (calls ++ [e])).card ≤ n) : AtMost n (calls ++ [e]) :=
  always_concat.mpr ⟨h, he⟩

theorem card_owned_le (h : Handle) : h.owned.card ≤ 1 := by
  unfold owned
  split
  · exact Nat.le_of_eq (Multiset.card_singleton _)
  · exact Nat.zero_le 1

theorem Accounts.card_le (ha : Accounts h others) :
    (Ledger.live h.calls).card ≤ 1 + others.card := by
  rw [ha.live, Multiset.card_add]
  exact Nat.add_le_add_right h.card_owned_le _

theorem Accounts.close_atMost (ha : Accounts h others) {n : Nat} (hn : AtMost n h.calls) :
    AtMost n h.close.calls := by
  have hlive := ha.live_close
  have hle : others.card ≤ n := by
    have hlast := hn.last
    rw [ha.live, Multiset.card_add] at hlast
    omega
  unfold Handle.close at hlive ⊢
  split at hlive
  · next hfd =>
    rw [if_pos hfd]
    exact hn.concat (by rw [hlive]; exact hle)
  · next hfd =>
    rw [if_neg hfd]
    exact hn

theorem Accounts.acquire_atMost (ha : Accounts h others) {n : Nat} (hn : AtMost n h.calls)
    (hroom : 1 + others.card ≤ n) (opened : Option Nat) (stages : List Bool) :
    AtMost n (h.acquire opened stages).1.calls := by
  have hclosed := ha.close_atMost hn
  cases opened with
  | none => exact hclosed
  | some fd =>
    have hopen : Accounts { fd, calls := h.close.calls ++ [.acquire (fd : Int)] } others :=
      ha.acquire (some fd) []
    have hmost := hclosed.concat (hopen.card_le.trans hroom)
    unfold Handle.acquire
    dsimp only
    split
    · exact hmost
    · exact hopen.close_atMost hmost

/-- A descriptor for someone else. -/
theorem Accounts.lend (ha : Accounts h others) (fd : Int) :
    Accounts { h with calls := h.calls ++ [.acquire fd] } (fd ::ₘ others) := by
  refine ⟨ha.balanced.acquire fd, ?_⟩
  rw [Ledger.live_concat, ha.live, Ledger.post]
  exact (Multiset.add_cons fd _ _).symm

/-- A descriptor that someone else closes. -/
theorem Accounts.restore {fd : Int} (ha : Accounts h (fd ::ₘ others)) :
    Accounts { h with calls := h.calls ++ [.release fd] } others := by
  have hlive := ha.live
  rw [Multiset.add_cons] at hlive
  refine ⟨ha.balanced.release (by rw [hlive]; exact Multiset.mem_cons_self _ _), ?_⟩
  rw [Ledger.live_concat, hlive, Ledger.post, Multiset.erase_cons_head]
  rfl

end Handle

end ProofKit
