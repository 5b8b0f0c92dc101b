import Mathlib.Order.Basic
import Mathlib.Order.Nat
import Patrol.ProofKit.Fallible

/-! Progress of computations that move an index through a text, note where the index is and can throw.
The index never goes back and never leaves the text, and each character that it passes pays for `rate`
notes. -/

namespace ProofKit

universe u v

/-- The notes lead from one index to another, never back and never past the size of the text. -/
inductive Walk (size : Nat) : Nat → List Nat → Nat → Prop
  | stay {pos : Nat} (h : pos ≤ size) : Walk size pos [] pos
  | note {pos next last : Nat} {notes : List Nat} (h : pos ≤ next)
      (rest : Walk size next notes last) : Walk size pos (next :: notes) last

namespace Walk

variable {size pos mid last : Nat} {notes notes' : List Nat}

theorem inside (h : Walk size pos notes last) : last ≤ size := by
  induction h with
  | stay h => exact h
  | note _ _ ih => exact ih

theorem le (h : Walk size pos notes last) : pos ≤ last := by
  induction h with
  | stay => exact le_rfl
  | note h _ ih => exact h.trans ih

theorem append (h : Walk size pos notes mid) (h' : Walk size mid notes' last) :
    Walk size pos (notes ++ notes') last := by
  induction h with
  | stay => exact h'
  | note hle _ ih => exact .note hle (ih h')

theorem mem_between {p : Nat} (h : Walk size pos notes last) (hp : p ∈ notes) :
    pos ≤ p ∧ p ≤ last := by
  induction h with
  | stay => cases hp
  | note hle rest ih =>
    rcases List.mem_cons.mp hp with rfl | hp
    · exact ⟨hle, rest.le⟩
    · exact ⟨hle.trans (ih hp).1, (ih hp).2⟩

theorem mem_inside {p : Nat} (h : Walk size pos notes last) (hp : p ∈ notes) : p ≤ size :=
  (h.mem_between hp).2.trans h.inside

/-- The last note is where the walk ends. -/
theorem getLast? (h : Walk size pos notes last) : (pos :: notes).getLast? = some last := by
  induction h with
  | stay => rfl
  | note _ _ ih => rw [List.getLast?_cons_cons, ih]

theorem rises (h : Walk size pos notes last) : (pos :: notes).Pairwise (· ≤ ·) := by
  induction h with
  | stay => exact List.pairwise_singleton _ _
  | note hle rest ih =>
    refine List.pairwise_cons.mpr ⟨?_, ih⟩
    intro p hp
    exact (Walk.note hle rest).mem_between hp |>.1

end Walk

/-- A walk on which the characters passed pay for the notes and for `slack` more. -/
structure Advances (rate size slack pos : Nat) (notes : List Nat) (last : Nat) : Prop where
  walk : Walk size pos notes last
  paid : notes.length + slack ≤ rate * (last - pos)

namespace Advances

variable {rate size slack slack' total pos mid last : Nat} {notes notes' : List Nat}

theorem stay (h : pos ≤ size) : Advances rate size 0 pos [] pos :=
  ⟨.stay h, Nat.zero_le _⟩

theorem weaken (h : Advances rate size slack pos notes last) (hslack : slack' ≤ slack) :
    Advances rate size slack' pos notes last :=
  ⟨h.walk, (Nat.add_le_add_left hslack _).trans h.paid⟩

theorem append (h : Advances rate size slack pos notes mid)
    (h' : Advances rate size slack' mid notes' last) (htotal : total ≤ slack + slack') :
    Advances rate size total pos (notes ++ notes') last := by
  refine ⟨h.walk.append h'.walk, ?_⟩
  have hsplit : last - pos = (mid - pos) + (last - mid) := by
    have := h.walk.le
    have := h'.walk.le
    omega
  have hpaid := Nat.add_le_add h.paid h'.paid
  rw [hsplit, Nat.mul_add, List.length_append]
  omega

/-- A note of the index where it is takes one of the slack. -/
theorem note (h : Advances rate size (slack + 1) pos notes last) :
    Advances rate size slack pos (pos :: notes) last := by
  refine ⟨.note le_rfl h.walk, ?_⟩
  have := h.paid
  rw [List.length_cons]
  omega

/-- The index moves on, with one note. -/
theorem move (h : pos < last) (hlast : last ≤ size) (hslack : slack < rate) :
    Advances rate size slack pos [last] last := by
  refine ⟨.note h.le (.stay hlast), ?_⟩
  have : rate * 1 ≤ rate * (last - pos) := Nat.mul_le_mul_left _ (by omega)
  rw [List.length_singleton]
  omega

theorem lt (h : Advances rate size (slack + 1) pos notes last) : pos < last := by
  have := h.paid
  by_contra hle
  rw [Nat.sub_eq_zero_of_le (not_lt.mp hle)] at this
  omega

end Advances

section Fallible

variable {ε : Type u} {α β : Type v}

/-- The notes of what comes after a computation: none where it throws. -/
def after (x : Except ε α) (notes : α → List Nat) : List Nat :=
  match x with
  | .ok a => notes a
  | .error _ => []

@[simp] theorem after_ok (a : α) (notes : α → List Nat) :
    after (.ok a : Except ε α) notes = notes a := rfl

@[simp] theorem after_error (e : ε) (notes : α → List Nat) :
    after (.error e : Except ε α) notes = [] := rfl

/-- A computation advances to the index of what it returns.  Where it throws, its notes may be `excess`
more than the rest of the text pays for. -/
def Tracks (rate size : Nat) (index : α → Nat) (thrown : ε → Prop) (slack excess pos : Nat)
    (notes : List Nat) (x : Except ε α) : Prop :=
  match x with
  | .ok a => Advances rate size slack pos notes (index a)
  | .error e =>
    (∃ last, Walk size pos notes last) ∧ notes.length ≤ rate * (size - pos) + excess ∧ thrown e

namespace Tracks

variable {rate size slack slack' total excess excess' pos mid : Nat} {notes : List Nat}
variable {index : α → Nat} {index' : β → Nat} {thrown thrown' : ε → Prop}
variable {x : Except ε α} {f : α → Except ε β}

theorem walks (h : Tracks rate size index thrown slack excess pos notes x) :
    ∃ last, Walk size pos notes last := by
  cases x with
  | ok a => exact ⟨_, h.walk⟩
  | error e => exact h.1

/-- The notes are no more than the rest of the text pays for, and the excess. -/
theorem bounded (h : Tracks rate size index thrown slack excess pos notes x) :
    notes.length ≤ rate * (size - pos) + excess := by
  cases x with
  | ok a =>
    have hadvances : Advances rate size slack pos notes (index a) := h
    have hpaid := hadvances.paid
    have : rate * (index a - pos) ≤ rate * (size - pos) :=
      Nat.mul_le_mul_left _ (Nat.sub_le_sub_right hadvances.walk.inside _)
    omega
  | error e => exact h.2.1

theorem throws (h : pos ≤ size) {e : ε} (he : thrown e) :
    Tracks rate size index thrown slack excess pos [] (.error e) :=
  ⟨⟨pos, .stay h⟩, Nat.zero_le _, he⟩

theorem weaken (h : Tracks rate size index thrown slack excess pos notes x)
    (hslack : slack' ≤ slack) (hexcess : excess ≤ excess') (hthrown : ∀ e, thrown e → thrown' e) :
    Tracks rate size index thrown' slack' excess' pos notes x := by
  cases x with
  | ok a => exact Advances.weaken h hslack
  | error e => exact ⟨h.1, h.2.1.trans (Nat.add_le_add_left hexcess _), hthrown e h.2.2⟩

theorem relax (h : Tracks rate size index thrown slack excess pos notes x)
    (hslack : slack' ≤ slack) (hexcess : excess ≤ excess') :
    Tracks rate size index thrown slack' excess' pos notes x :=
  h.weaken hslack hexcess fun _ he => he

theorem throwing (h : Tracks rate size index thrown slack excess pos notes x)
    (hthrown : ∀ e, thrown e → thrown' e) :
    Tracks rate size index thrown' slack excess pos notes x :=
  h.weaken (Nat.le_refl slack) (Nat.le_refl excess) hthrown

theorem note (h : Tracks rate size index thrown (slack + 1) excess pos notes x) :
    Tracks rate size index thrown slack (excess + 1) pos (pos :: notes) x := by
  cases x with
  | ok a => exact Advances.note h
  | error e =>
    obtain ⟨⟨last, hwalk⟩, hlength, he⟩ := h
    exact ⟨⟨last, .note le_rfl hwalk⟩, Nat.succ_le_succ hlength, he⟩

/-- A computation after an advance: what is left of the advance pays for its excess too. -/
theorem advance {notes' : List Nat} (h : Advances rate size slack pos notes mid)
    (hx : Tracks rate size index thrown slack' excess' mid notes' x)
    (htotal : total ≤ slack + slack') (hexcess : excess' ≤ excess + slack) :
    Tracks rate size index thrown total excess pos (notes ++ notes') x := by
  cases x with
  | ok a => exact h.append hx htotal
  | error e =>
    obtain ⟨⟨last, hwalk⟩, hlength, he⟩ := hx
    refine ⟨⟨last, h.walk.append hwalk⟩, ?_, he⟩
    have hsplit : size - pos = (mid - pos) + (size - mid) := by
      have := h.walk.le
      have := h.walk.inside
      omega
    have hpaid := h.paid
    rw [hsplit, Nat.mul_add, List.length_append]
    omega

/-- A sequence of computations has the notes of the first and then those of the second. -/
theorem bind {notes' : α → List Nat} (hx : Tracks rate size index thrown slack excess pos notes x)
    (hf : ∀ a, Advances rate size slack pos notes (index a) →
      Tracks rate size index' thrown slack' excess' (index a) (notes' a) (f a))
    (htotal : total ≤ slack + slack') (hexcess : excess' ≤ excess + slack) :
    Tracks rate size index' thrown total excess pos (notes ++ after x notes') (x >>= f) := by
  cases x with
  | ok a => exact advance hx (hf a hx) htotal hexcess
  | error e =>
    rw [after_error, List.append_nil]
    exact hx

/-- What is made of a result keeps its index. -/
theorem map (h : Tracks rate size index thrown slack excess pos notes x) (index' : β → Nat)
    (g : α → β) (hg : ∀ a, index' (g a) = index a) :
    Tracks rate size index' thrown slack excess pos notes (x >>= fun a => .ok (g a)) := by
  cases x with
  | ok a =>
    rw [ok_bind, Tracks, hg]
    exact h
  | error e => exact h

end Tracks

end Fallible

end ProofKit
