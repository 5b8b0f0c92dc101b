import Mathlib.Data.Multiset.Filter
import Mathlib.Logic.Function.Basic
import Patrol.ProofKit.Handle

/-! Several objects that own descriptors of one process.  The system hands out a descriptor that is not
live; so no two objects ever own the same one, and none closes what another owns. -/

namespace ProofKit

/-- The descriptor of each object, and the ledger of descriptors so far. -/
structure HandleTable (ι : Type*) where
  fd : ι → Int := fun _ => -1
  calls : List (Entry Int) := []

namespace HandleTable

variable {ι : Type*}

/-- The handle of an object. -/
def handle (t : HandleTable ι) (i : ι) : Handle := ⟨t.fd i, t.calls⟩

/-- What is live is what the objects own, and each object owns its own. -/
structure Owned (t : HandleTable ι) : Prop where
  balanced : Ledger.Balanced t.calls
  nodup : (Ledger.live t.calls).Nodup
  live : ∀ fd, fd ∈ Ledger.live t.calls ↔ 0 ≤ fd ∧ ∃ i, t.fd i = fd
  distinct : ∀ i j, 0 ≤ t.fd i → t.fd i = t.fd j → i = j

theorem owned_init : Owned ({} : HandleTable ι) where
  balanced := Ledger.balanced_nil
  nodup := Multiset.nodup_zero
  live fd := by
    refine iff_of_false (Multiset.notMem_zero fd) ?_
    rintro ⟨hpos, i, hfd⟩
    have hnone : (-1 : Int) = fd := hfd
    omega
  distinct i j h := by
    have hpos : (0 : Int) ≤ -1 := h
    omega

/-- What is live when an object has closed its descriptor. -/
def others (t : HandleTable ι) (i : ι) : Multiset Int :=
  if 0 ≤ t.fd i then (Ledger.live t.calls).erase (t.fd i) else Ledger.live t.calls

variable {t : HandleTable ι}

theorem Owned.accounts (h : t.Owned) (i : ι) : (t.handle i).Accounts (t.others i) where
  balanced := h.balanced
  live := by
    unfold others
    by_cases hfd : 0 ≤ t.fd i
    · have hmem : t.fd i ∈ Ledger.live t.calls := (h.live _).mpr ⟨hfd, i, rfl⟩
      rw [if_pos hfd, Handle.owned_of_nonneg hfd, Multiset.singleton_add]
      exact (Multiset.cons_erase hmem).symm
    · rw [if_neg hfd, Handle.owned_of_neg (Int.not_le.mp hfd), Multiset.zero_add]
      rfl

theorem Owned.nodup_others (h : t.Owned) (i : ι) : (t.others i).Nodup := by
  unfold others
  split
  · exact h.nodup.erase _
  · exact h.nodup

theorem Owned.mem_others (h : t.Owned) (i : ι) (fd : Int) :
    fd ∈ t.others i ↔ 0 ≤ fd ∧ ∃ j, j ≠ i ∧ t.fd j = fd := by
  unfold others
  split
  · next hi =>
    rw [h.nodup.mem_erase_iff, h.live]
    constructor
    · rintro ⟨hne, hfd, j, rfl⟩
      exact ⟨hfd, j, fun hj => hne (by rw [hj]), rfl⟩
    · rintro ⟨hfd, j, hj, rfl⟩
      exact ⟨fun heq => hj (h.distinct j i hfd heq), hfd, j, rfl⟩
  · next hi =>
    rw [h.live]
    constructor
    · rintro ⟨hfd, j, rfl⟩
      exact ⟨hfd, j, fun hj => hi (by rwa [← hj]), rfl⟩
    · rintro ⟨hfd, j, -, rfl⟩
      exact ⟨hfd, j, rfl⟩

/-- When no object has a descriptor, all have been closed. -/
theorem Owned.settled (h : t.Owned) (hnone : ∀ i, t.fd i < 0) : Ledger.Settled t.calls where
  balanced := h.balanced
  live := by
    apply Multiset.eq_zero_of_forall_notMem
    intro fd hmem
    obtain ⟨hpos, i, rfl⟩ := (h.live fd).mp hmem
    exact absurd hpos (Int.not_le.mpr (hnone i))

variable [DecidableEq ι]

/-- An operation of one object. -/
def put (t : HandleTable ι) (i : ι) (h : Handle) : HandleTable ι :=
  ⟨Function.update t.fd i h.fd, h.calls⟩

/-- An object keeps the accounts of its handle, and has no descriptor that another owns. -/
theorem Owned.put (h : t.Owned) (i : ι) {h' : Handle} (hacc : h'.Accounts (t.others i))
    (hfresh : 0 ≤ h'.fd → h'.fd ∉ t.others i) : (t.put i h').Owned := by
  have hfd : ∀ j, j ≠ i → Function.update t.fd i h'.fd j = t.fd j :=
    fun j hj => Function.update_of_ne hj _ _
  have hself : Function.update t.fd i h'.fd i = h'.fd := Function.update_self _ _ _
  have hmem : ∀ fd, fd ∈ h'.owned ↔ 0 ≤ fd ∧ h'.fd = fd := by
    intro fd
    unfold Handle.owned
    split
    · next hpos =>
      rw [Multiset.mem_singleton]
      constructor
      · rintro rfl
        exact ⟨hpos, rfl⟩
      · exact fun heq => heq.2.symm
    · next hneg =>
      refine iff_of_false (Multiset.notMem_zero fd) ?_
      rintro ⟨hpos, rfl⟩
      exact hneg hpos
  refine ⟨hacc.balanced, ?_, ?_, ?_⟩
  · show (Ledger.live h'.calls).Nodup
    rw [hacc.live]
    by_cases hpos : 0 ≤ h'.fd
    · rw [Handle.owned_of_nonneg hpos, Multiset.singleton_add, Multiset.nodup_cons]
      exact ⟨hfresh hpos, h.nodup_others i⟩
    · rw [Handle.owned_of_neg (Int.not_le.mp hpos), Multiset.zero_add]
      exact h.nodup_others i
  · intro fd
    show fd ∈ Ledger.live h'.calls ↔ 0 ≤ fd ∧ ∃ j, Function.update t.fd i h'.fd j = fd
    rw [hacc.live, Multiset.mem_add, hmem, h.mem_others]
    constructor
    · rintro (⟨hpos, rfl⟩ | ⟨hpos, j, hj, rfl⟩)
      · exact ⟨hpos, i, hself⟩
      · exact ⟨hpos, j, hfd j hj⟩
    · rintro ⟨hpos, j, rfl⟩
      by_cases hj : j = i
      · subst hj
        exact Or.inl ⟨hpos, hself.symm⟩
      · rw [hfd j hj] at hpos ⊢
        exact Or.inr ⟨hpos, j, hj, rfl⟩
  · intro j k hpos heq
    change 0 ≤ Function.update t.fd i h'.fd j at hpos
    change Function.update t.fd i h'.fd j = Function.update t.fd i h'.fd k at heq
    by_cases hj : j = i <;> by_cases hk : k = i
    · rw [hj, hk]
    · subst hj
      rw [hself] at hpos heq
      rw [hfd k hk] at heq
      exact absurd ((h.mem_others j _).mpr ⟨hpos, k, hk, heq.symm⟩) (hfresh hpos)
    · subst hk
      rw [hfd j hj] at hpos heq
      rw [hself] at heq
      exact absurd ((h.mem_others k _).mpr ⟨heq ▸ hpos, j, hj, heq⟩) (hfresh (heq ▸ hpos))
    · rw [hfd j hj] at hpos heq
      rw [hfd k hk] at heq
      exact h.distinct j k hpos heq

theorem Owned.close (h : t.Owned) (i : ι) : (t.put i (t.handle i).close).Owned :=
  h.put i (h.accounts i).close fun hpos => absurd hpos (Int.not_le.mpr (Handle.close_fd _))

/-- The descriptor that the system hands out is not live. -/
def Fresh (t : HandleTable ι) (i : ι) (opened : Option Nat) : Prop :=
  ∀ fd : Nat, opened = some fd → (fd : Int) ∉ Ledger.live (t.handle i).close.calls

theorem Owned.acquire (h : t.Owned) (i : ι) {opened : Option Nat} (hfresh : t.Fresh i opened)
    (stages : List Bool) : (t.put i ((t.handle i).acquire opened stages).1).Owned := by
  apply h.put i ((h.accounts i).acquire opened stages)
  intro hpos
  cases opened with
  | none =>
    have hnone : (0 : Int) ≤ -1 := hpos
    omega
  | some fd =>
    have hlive := hfresh fd rfl
    rw [(h.accounts i).live_close] at hlive
    unfold Handle.acquire at hpos ⊢
    dsimp only at hpos ⊢
    split at hpos
    · next hall =>
      rw [if_pos hall]
      exact hlive
    · exact absurd hpos (Int.not_le.mpr (Handle.close_fd _))

end HandleTable

end ProofKit
