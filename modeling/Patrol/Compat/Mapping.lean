import Patrol.Compat.FrameVector

/-! What `get_vaddr_frames` finds in mappings without page structures: its two loops over areas and
their pages take the pages of one range, up to the first that cannot be taken. -/

namespace Patrol.Compat

open ProofKit

variable (K : Kernel)

/-- A pointer to a page structure. -/
def Kernel.IsPage (p : UInt64) : Prop :=
  K.pfnValid (K.pageToPfn p) = true ∧ K.pfnToPage (K.pageToPfn p) = p

/-- What the kernel documents of the inline functions. -/
structure Kernel.Documented : Prop where
  pfns_in_place {vec : FrameVector} : vec.isPfns = true → K.frameVectorPfns vec = vec
  pages_in_place {vec : FrameVector} : vec.isPfns = false → K.frameVectorPages vec = .ok vec
  pages_converted {vec vec' : FrameVector} : vec.isPfns = true →
    frameVectorToPages K vec = some (0, vec') → K.frameVectorPages vec = .ok vec'
  pfn_of_page {n : UInt64} : K.pfnValid n = true → K.pageToPfn (K.pfnToPage n) = n

/-- What the kernel documents of an address space. -/
structure AddressSpace.Documented (mm : AddressSpace) : Prop where
  page_pos : 0 < K.pageSize
  covers {a : UInt64} {v : Vma} : mm.findVmaIntersection a (a + 1) = some v →
    v.vmStart ≤ a ∧ a < v.vmEnd
  /-- Areas do not overlap. -/
  only {a b : UInt64} {v : Vma} : mm.findVmaIntersection a (a + 1) = some v →
    v.vmStart ≤ b → b < v.vmEnd → mm.findVmaIntersection b (b + 1) = some v
  /-- There is no area in the last page of all addresses. -/
  user {a : UInt64} {v : Vma} : mm.findVmaIntersection a (a + 1) = some v →
    v.vmEnd.toNat + K.pageSize.toNat < UInt64.size
  follow_neg {v : Vma} {a : UInt64} {err : Int} : mm.followPfn v a = .error err → err < 0
  pinned_neg {start : UInt64} {n flags : UInt32} {err : Int} :
    (mm.getUserPagesLocked start n flags).1 = .error err → err < 0
  pinned_le {start : UInt64} {n flags : UInt32} {pages : List UInt64} :
    (mm.getUserPagesLocked start n flags).1 = .ok pages → pages.length ≤ n.toNat
  pinned_page {start : UInt64} {n flags : UInt32} {pages : List UInt64} :
    (mm.getUserPagesLocked start n flags).1 = .ok pages → ∀ p ∈ pages, K.IsPage p

/-! ### Pages one after another -/

/-- The frame number of the page at an address: where its area has no page structures and covers the
whole page.  The error is that of `follow_pfn`, if it is asked. -/
def frameAt (mm : AddressSpace) (a : UInt64) : Except (Option Int) UInt64 :=
  match mm.findVmaIntersection a (a + 1) with
  | none => .error none
  | some v =>
    if v.ioOrPfnmap ∧ a + K.pageSize ≤ v.vmEnd then (mm.followPfn v a).mapError some
    else .error none

/-- The frame numbers of at most `n` pages, up to the first that has none, and the error there. -/
def framesFrom (mm : AddressSpace) : Nat → UInt64 → List UInt64 × Option Int
  | 0, _ => ([], none)
  | n + 1, a =>
    match frameAt K mm a with
    | .error err => ([], err)
    | .ok pfn =>
      let r := framesFrom mm n (a + K.pageSize)
      (pfn :: r.1, r.2)

theorem framesFrom_of_none {mm : AddressSpace} {a : UInt64} (h : frameAt K mm a = .error none)
    (n : Nat) : framesFrom K mm n a = ([], none) := by
  cases n with
  | zero => rfl
  | succ n => rw [framesFrom, h]

theorem framesFrom_length_le (mm : AddressSpace) (n : Nat) (a : UInt64) :
    (framesFrom K mm n a).1.length ≤ n := by
  induction n generalizing a with
  | zero => exact Nat.le_refl 0
  | succ n ih =>
    rw [framesFrom]
    cases frameAt K mm a with
    | error => exact Nat.zero_le _
    | ok => exact Nat.succ_le_succ (ih _)

theorem framesFrom_neg {mm : AddressSpace} (hmm : mm.Documented K) {n : Nat} {a : UInt64} {err : Int}
    (h : (framesFrom K mm n a).2 = some err) : err < 0 := by
  induction n generalizing a with
  | zero => cases h
  | succ n ih =>
    rw [framesFrom] at h
    cases hframe : frameAt K mm a with
    | ok pfn =>
      rw [hframe] at h
      exact ih h
    | error e =>
      rw [hframe] at h
      rw [frameAt] at hframe
      split at hframe
      · cases hframe
        cases h
      · next v _ =>
        split at hframe
        · cases hfollow : mm.followPfn v a with
          | ok pfn =>
            rw [hfollow] at hframe
            cases hframe
          | error e' =>
            rw [hfollow] at hframe
            cases hframe
            cases h
            exact hmm.follow_neg hfollow
        · cases hframe
          cases h

/-! ### Writing slots -/

/-- The vectors differ in their slots alone. -/
structure SameHeader (vec vec' : FrameVector) : Prop where
  nrAllocated : vec'.nrAllocated = vec.nrAllocated
  nrFrames : vec'.nrFrames = vec.nrFrames
  gotRef : vec'.gotRef = vec.gotRef
  isPfns : vec'.isPfns = vec.isPfns

theorem SameHeader.refl (vec : FrameVector) : SameHeader vec vec := ⟨rfl, rfl, rfl, rfl⟩

theorem SameHeader.trans {v v' v'' : FrameVector} (h : SameHeader v v') (h' : SameHeader v' v'') :
    SameHeader v v'' :=
  ⟨h'.1.trans h.1, h'.2.trans h.2, h'.3.trans h.3, h'.4.trans h.4⟩

/-- From index `i` on, the slots hold `ws`; the others are as they were. -/
structure Filled (vec : FrameVector) (i : Nat) (ws : List UInt64) (vec' : FrameVector) : Prop where
  header : SameHeader vec vec'
  ptrs : vec'.ptrs = vec.ptrs.take i ++ (ws ++ vec.ptrs.drop (i + ws.length))

theorem Filled.nil (vec : FrameVector) (i : Nat) : Filled vec i [] vec :=
  ⟨SameHeader.refl vec, by simp⟩

theorem FrameVector.store_filled {vec : FrameVector} {i : Nat} (w : UInt64)
    (h : i < vec.nrAllocated.toNat) : ∃ vec', vec.store i w = some vec' ∧ Filled vec i [w] vec' := by
  rw [← vec.room] at h
  refine ⟨_, if_pos h, ⟨rfl, rfl, rfl, rfl⟩, ?_⟩
  simp [List.set_eq_take_append_cons_drop, h]

theorem FrameVector.length_take (vec : FrameVector) {i : Nat} (h : i ≤ vec.nrAllocated.toNat) :
    (vec.ptrs.take i).length = i := by
  rw [List.length_take, vec.room]
  omega

section Filled

variable {vec vec' vec'' : FrameVector} {i : Nat} {ws ws' : List UInt64}

theorem Filled.take (h : Filled vec i ws vec') (hi : i ≤ vec.nrAllocated.toNat) :
    vec'.ptrs.take (i + ws.length) = vec.ptrs.take i ++ ws := by
  have hlen := vec.length_take hi
  rw [h.ptrs, List.take_append, hlen, List.take_of_length_le (by omega)]
  simp

theorem Filled.drop (h : Filled vec i ws vec') (hi : i ≤ vec.nrAllocated.toNat) {j : Nat}
    (hj : i + ws.length ≤ j) : vec'.ptrs.drop j = vec.ptrs.drop j := by
  have hlen := vec.length_take hi
  rw [h.ptrs, List.drop_append, hlen, List.drop_of_length_le (by omega), List.drop_append,
    List.drop_of_length_le (by omega), List.drop_drop]
  simp [show i + ws.length + (j - i - ws.length) = j by omega]

/-- Writes and the writes after them. -/
theorem Filled.append (h : Filled vec i ws vec') (h' : Filled vec' (i + ws.length) ws' vec'')
    (hi : i ≤ vec.nrAllocated.toNat) : Filled vec i (ws ++ ws') vec'' := by
  refine ⟨h.header.trans h'.header, ?_⟩
  rw [h'.ptrs, h.take hi, h.drop hi (Nat.le_add_right _ _)]
  simp [Nat.add_assoc]

end Filled

/-! ### The loops -/

section Loops

variable {K} {mm : AddressSpace} {vma : Vma}

/-- The next page of an area that covers it whole. -/
theorem AddressSpace.Documented.next (hmm : mm.Documented K) {a b : UInt64}
    (hvma : mm.findVmaIntersection a (a + 1) = some vma) (hb : b ≤ vma.vmEnd) :
    (b + K.pageSize).toNat = b.toNat + K.pageSize.toNat := by
  have huser := hmm.user hvma
  have hb' := UInt64.le_iff_toNat_le.mp hb
  rw [UInt64.toNat_add]
  exact Nat.mod_eq_of_lt (by simp only [UInt64.size] at huser; omega)

/-- What the inner loop does of the walk over the pages: it takes `pfns`. -/
structure Took (K : Kernel) (mm : AddressSpace) (vma : Vma) (left : Nat) (start : UInt64) (ret : Nat)
    (vec : FrameVector) (pfns : List UInt64) (r : Followed) : Prop where
  filled : Filled vec ret pfns r.vec
  ret : r.ret = ret + pfns.length
  le : pfns.length ≤ left
  low : vma.vmStart ≤ r.start
  high : r.start ≤ vma.vmEnd
  unmoved : pfns = [] → r.start = start
  frames : framesFrom K mm left start =
    (pfns ++ (framesFrom K mm (left - pfns.length) r.start).1,
      (framesFrom K mm (left - pfns.length) r.start).2)
  failed : ∀ err, r.err = some err → framesFrom K mm (left - pfns.length) r.start = ([], some err)
  done : r.err = none → left ≤ pfns.length ∨ ¬ r.start + K.pageSize ≤ vma.vmEnd

theorem followPages_took (hmm : mm.Documented K) {a : UInt64}
    (hvma : mm.findVmaIntersection a (a + 1) = some vma) (hio : vma.ioOrPfnmap = true)
    (left ret : Nat) {start : UInt64} (vec : FrameVector) (hlow : vma.vmStart ≤ start)
    (hhigh : start ≤ vma.vmEnd) (hroom : ret + left ≤ vec.nrAllocated.toNat) :
    ∃ r pfns, followPages K mm vma left start ret vec = some r ∧
      Took K mm vma left start ret vec pfns r := by
  induction left generalizing start ret vec with
  | zero =>
    exact ⟨_, [], rfl, Filled.nil vec ret, rfl, Nat.le_refl _, hlow, hhigh, fun _ => rfl, rfl,
      by simp, by simp⟩
  | succ left ih =>
    rw [followPages]
    by_cases hpage : start + K.pageSize ≤ vma.vmEnd
    · rw [if_pos hpage]
      have hnext := hmm.next hvma hhigh
      have hpos := UInt64.lt_iff_toNat_lt.mp hmm.page_pos
      have hend := UInt64.le_iff_toNat_le.mp hpage
      have hlt : start < vma.vmEnd := UInt64.lt_iff_toNat_lt.mpr (by simp at hpos; omega)
      have hframe : frameAt K mm start = (mm.followPfn vma start).mapError some := by
        rw [frameAt, hmm.only hvma hlow hlt]
        exact if_pos ⟨hio, hpage⟩
      cases hfollow : mm.followPfn vma start with
      | error err =>
        rw [hfollow] at hframe
        have hfrom : framesFrom K mm (left + 1) start = ([], some err) := by
          rw [framesFrom, hframe]
          rfl
        exact ⟨_, [], rfl, Filled.nil vec ret, rfl, Nat.zero_le _, hlow, hhigh, fun _ => rfl, rfl,
          fun err' herr => by cases herr; exact hfrom, by simp⟩
      | ok pfn =>
        rw [hfollow] at hframe
        obtain ⟨vec', hstore, hfilled⟩ := vec.store_filled pfn (show ret < _ by omega)
        have hlow' : vma.vmStart ≤ start + K.pageSize := by
          have := UInt64.le_iff_toNat_le.mp hlow
          exact UInt64.le_iff_toNat_le.mpr (by omega)
        obtain ⟨r, pfns, hr, ht⟩ := ih (ret + 1) vec' hlow' hpage
          (by rw [hfilled.header.nrAllocated]; omega)
        have hfrom : framesFrom K mm (left + 1) start =
            (pfn :: (framesFrom K mm left (start + K.pageSize)).1,
              (framesFrom K mm left (start + K.pageSize)).2) := by
          rw [framesFrom, hframe]
          rfl
        refine ⟨r, pfn :: pfns, ?_, hfilled.append ht.filled (by omega), ?_, ?_, ht.low, ht.high,
          nofun, ?_, ?_, ?_⟩
        · simp only [hstore, Option.bind_some]
          exact hr
        · rw [ht.ret, List.length_cons]
          omega
        · exact Nat.succ_le_succ ht.le
        · rw [hfrom, ht.frames, List.length_cons, Nat.succ_sub_succ]
          rfl
        · rw [List.length_cons, Nat.succ_sub_succ]
          exact ht.failed
        · rw [List.length_cons]
          exact fun herr => (ht.done herr).imp_left Nat.succ_le_succ
    · rw [if_neg hpage]
      exact ⟨_, [], rfl, Filled.nil vec ret, rfl, Nat.zero_le _, hlow, hhigh, fun _ => rfl, rfl,
        by simp, fun _ => Or.inr hpage⟩

/-- What `ret` is at `out` after the frames of a walk. -/
def returned (ret : Nat) (walk : List UInt64 × Option Int) : Int :=
  if ret + walk.1.length = 0 then walk.2.getD 0 else ↑(ret + walk.1.length)

theorem returned_nil (err : Option Int) : returned 0 ([], err) = err.getD 0 := rfl

theorem returned_of_pos {pfns : List UInt64} (h : 0 < pfns.length) (err : Option Int) :
    returned 0 (pfns, err) = (pfns.length : Int) := by
  rw [returned, if_neg (by simp only; omega), Nat.zero_add]

/-- The two loops take the pages from `start` on, one after another, and return with fuel for an
area for each frame. -/
theorem followAreas_eq (hK : K.Documented) (hmm : mm.Documented K)
    {n fuel : Nat} (ret : Nat) {start : UInt64} (vec : FrameVector)
    (hvma : mm.findVmaIntersection start (start + 1) = some vma) (hio : vma.ioOrPfnmap = true)
    (hvec : vec.isPfns = true) (hret : ret ≤ n) (hroom : n ≤ vec.nrAllocated.toNat)
    (hfuel : n - ret < fuel) :
    ∃ vec', followAreas K mm n fuel vma start ret vec =
        some (returned ret (framesFrom K mm (n - ret) start), vec') ∧
      Filled vec ret (framesFrom K mm (n - ret) start).1 vec' := by
  induction fuel generalizing vma start ret vec with
  | zero => omega
  | succ fuel ih =>
    obtain ⟨hstart, hlt⟩ := hmm.covers hvma
    obtain ⟨r, pfns, hr, ht⟩ := followPages_took hmm hvma hio (n - ret) ret vec hstart
      (UInt64.le_of_lt hlt) (by omega)
    -- Where the walk ends here, it has taken `pfns`, and the result is that of the loops.
    have hstop : ∀ err, framesFrom K mm (n - ret - pfns.length) r.start = ([], err) →
        framesFrom K mm (n - ret) start = (pfns, err) := by
      intro err herr
      rw [ht.frames, herr, List.append_nil]
    have hresult : framesFrom K mm (n - ret - pfns.length) r.start = ([], none) →
        ∃ vec', some ((r.ret : Int), r.vec) =
            some (returned ret (framesFrom K mm (n - ret) start), vec') ∧
          Filled vec ret (framesFrom K mm (n - ret) start).1 vec' := by
      intro hnone
      rw [hstop _ hnone, returned, Option.getD_none, ← ht.ret]
      refine ⟨r.vec, ?_, ht.filled⟩
      split
      · rw [‹r.ret = 0›]
        rfl
      · rfl
    rw [followAreas, hK.pfns_in_place hvec, hr, Option.bind_some]
    cases herr : r.err with
    | some err =>
      rw [hstop _ (ht.failed err herr)]
      refine ⟨r.vec, ?_, ht.filled⟩
      simp only [returned, ht.ret, Option.getD_some]
    | none =>
      by_cases hdone : n ≤ r.ret ∨ r.start < vma.vmEnd
      · have hnone : framesFrom K mm (n - ret - pfns.length) r.start = ([], none) := by
          by_cases hleft : n - ret ≤ pfns.length
          · rw [Nat.sub_eq_zero_of_le hleft]
            rfl
          · have hin : r.start < vma.vmEnd := hdone.resolve_left (by rw [ht.ret]; omega)
            have hpage := (ht.done herr).resolve_left hleft
            refine framesFrom_of_none K ?_ _
            rw [frameAt, hmm.only hvma ht.low hin]
            exact if_neg fun h => hpage h.2
        rw [if_pos hdone]
        exact hresult hnone
      · simp only [if_neg hdone]
        cases hfind : mm.findVmaIntersection r.start (r.start + 1) with
        | none =>
          exact hresult (framesFrom_of_none K (by rw [frameAt, hfind]) _)
        | some vma' =>
          by_cases hio' : vma'.ioOrPfnmap = true
          · have hmoved : pfns ≠ [] := by
              intro hnil
              rw [ht.unmoved hnil] at hdone
              exact hdone (Or.inr hlt)
            have hpos := List.length_pos_of_ne_nil hmoved
            have hleft : n - r.ret = n - ret - pfns.length := by
              rw [ht.ret]
              omega
            obtain ⟨vec', hvec', hfilled⟩ := ih r.ret r.vec hfind hio'
              (by rw [ht.filled.header.isPfns, hvec]) (by rw [ht.ret]; have := ht.le; omega)
              (by rw [ht.filled.header.nrAllocated]; exact hroom) (by omega)
            rw [hleft] at hvec' hfilled
            have hreturned : returned r.ret (framesFrom K mm (n - ret - pfns.length) r.start) =
                returned ret (framesFrom K mm (n - ret) start) := by
              simp only [returned, ht.ret, ht.frames, List.length_append, Nat.add_assoc]
            rw [hreturned] at hvec'
            rw [ht.ret] at hfilled
            refine ⟨vec', ?_, ?_⟩
            · simp only [if_pos hio']
              exact hvec'
            · rw [ht.frames]
              exact ht.filled.append hfilled (by omega)
          · simp only [if_neg hio']
            refine hresult (framesFrom_of_none K ?_ _)
            rw [frameAt, hfind]
            exact if_neg fun h => hio' h.1

end Loops

/-! ### `get_vaddr_frames` -/

theorem leave_of_neg {ret : Int} (h : ret < 0) (locked : Bool) (vec : FrameVector)
    (calls : List (Entry Held)) :
    leave locked ret vec calls =
      (ret, vec, calls ++ if locked then [.release .mmapSem] else []) := by
  simp [leave, show ret ≠ 0 by omega, show ¬ 0 < ret by omega]

theorem leave_zero (locked : Bool) (vec : FrameVector) (calls : List (Entry Held)) :
    leave locked 0 vec calls =
      (-EFAULT, vec, calls ++ if locked then [.release .mmapSem] else []) := by
  simp [leave, EFAULT]

theorem leave_of_pos {n : Nat} (h : 0 < n) (locked : Bool) (vec : FrameVector)
    (calls : List (Entry Held)) :
    leave locked n vec calls =
      ((n : Int), { vec with nrFrames := UInt32.ofNat n },
        calls ++ if locked then [.release .mmapSem] else []) := by
  simp [leave, Nat.pos_iff_ne_zero.mp h, h]

/-- The number of frames that a call asks for: what the vector has slots for, at most. -/
def FrameVector.clamp (vec : FrameVector) (nrFrames : UInt32) : UInt32 :=
  if vec.nrAllocated < nrFrames then vec.nrAllocated else nrFrames

theorem FrameVector.clamp_toNat (vec : FrameVector) (nrFrames : UInt32) :
    (vec.clamp nrFrames).toNat = min nrFrames.toNat vec.nrAllocated.toNat := by
  rw [clamp]
  split
  · next h =>
    have := UInt32.lt_iff_toNat_lt.mp h
    omega
  · next h =>
    have := UInt32.le_iff_toNat_le.mp (UInt32.not_lt.mp h)
    omega

/-- The walk of a call: over as many pages as it asks for and the vector has slots for. -/
def FrameVector.walk (vec : FrameVector) (mm : AddressSpace) (start : UInt64) (nrFrames : UInt32) :
    List UInt64 × Option Int :=
  framesFrom K mm (min nrFrames.toNat vec.nrAllocated.toNat) start

/-- Where the first area has no page structures, the call returns the number of pages up to the first
that it cannot take, or why it could not take the first, and the slots begin with their numbers. -/
theorem getVaddrFrames_walk (hK : K.Documented) {mm : AddressSpace} (hmm : mm.Documented K)
    {start : UInt64} {vma : Vma} (hvma : mm.findVmaIntersection start (start + 1) = some vma)
    (hio : vma.ioOrPfnmap = true) (hdax : vma.fsdax = false) {nrFrames : UInt32}
    (hn : nrFrames ≠ 0) (gupFlags : UInt32) (vec : FrameVector) :
    ∃ vec', getVaddrFrames K mm start nrFrames gupFlags vec =
        some (if (vec.walk K mm start nrFrames).1 = [] then
            (vec.walk K mm start nrFrames).2.getD (-EFAULT)
          else (vec.walk K mm start nrFrames).1.length,
          vec', [.acquire .mmapSem, .release .mmapSem]) ∧
      vec'.gotRef = false ∧ vec'.isPfns = true ∧ vec'.nrAllocated = vec.nrAllocated ∧
      vec'.nrFrames.toNat = (if (vec.walk K mm start nrFrames).1 = [] then vec.nrFrames.toNat
        else (vec.walk K mm start nrFrames).1.length) ∧
      vec'.ptrs = (vec.walk K mm start nrFrames).1 ++
        vec.ptrs.drop (vec.walk K mm start nrFrames).1.length := by
  have hclamp := vec.clamp_toNat nrFrames
  obtain ⟨vec', heq, hfilled⟩ := followAreas_eq hK hmm 0 { vec with gotRef := false, isPfns := true }
    hvma hio rfl (Nat.zero_le (vec.clamp nrFrames).toNat) (by simp only; omega)
    (Nat.lt_succ_self _)
  rw [Nat.sub_zero, hclamp, ← FrameVector.walk] at heq hfilled
  have hle := framesFrom_length_le K mm (min nrFrames.toNat vec.nrAllocated.toNat) start
  have hneg : ∀ err, (vec.walk K mm start nrFrames).2 = some err → err < 0 :=
    fun err => framesFrom_neg K hmm
  rw [← FrameVector.walk] at hle
  have hcall : getVaddrFrames K mm start nrFrames gupFlags vec =
      some (leave true (returned 0 (vec.walk K mm start nrFrames)) vec' [.acquire .mmapSem]) := by
    rw [getVaddrFrames, if_neg hn]
    simp only [hvma, hdax, hio, Bool.false_eq_true, if_false, Bool.not_true]
    rw [← FrameVector.clamp, hclamp, heq]
    rfl
  obtain ⟨hheader, hptrs⟩ := hfilled
  rw [hcall]
  generalize vec.walk K mm start nrFrames = walk at *
  obtain ⟨pfns, err⟩ := walk
  cases pfns with
  | nil =>
    refine ⟨vec', ?_, hheader.gotRef, hheader.isPfns, hheader.nrAllocated, ?_,
      by simpa using hptrs⟩
    · cases err with
      | none =>
        rw [returned_nil, Option.getD_none, leave_zero]
        rfl
      | some err =>
        rw [returned_nil, Option.getD_some, leave_of_neg (hneg err rfl)]
        rfl
    · rw [if_pos rfl, hheader.nrFrames]
  | cons pfn pfns =>
    have hlt : (pfn :: pfns).length < UInt32.size := by
      have hsize := nrFrames.toNat_lt_size
      simp only at hle
      omega
    have hpos : 0 < (pfn :: pfns).length := Nat.succ_pos _
    refine ⟨{ vec' with nrFrames := UInt32.ofNat (pfn :: pfns).length }, ?_, hheader.gotRef,
      hheader.isPfns, hheader.nrAllocated, ?_, by simpa using hptrs⟩
    · rw [returned_of_pos hpos, leave_of_pos hpos]
      simp
    · rw [if_neg (by simp)]
      exact UInt32.toNat_ofNat_of_lt' hlt

/-- Page structures of 64 bytes from `0x9000` on, for the first thousand frames. -/
def plainKernel : Kernel where
  headerSize := 16
  pageSize := 16384
  pfnValid n := n < 1000
  pfnToPage n := n + 0x9000
  pageToPfn p := p - 0x9000
  frameVectorPages vec := .ok vec
  frameVectorPfns vec := vec

/-- The same, with the conversion that `frame_vector_pages` makes. -/
def inlineKernel : Kernel :=
  { plainKernel with
    frameVectorPages := fun vec =>
      match vec.isPfns, frameVectorToPages plainKernel vec with
      | true, some (0, vec') => .ok vec'
      | true, _ => .error (-EINVAL)
      | false, _ => .ok vec }

theorem inlineKernel_documented : inlineKernel.Documented := by
  refine ⟨fun _ => rfl, fun h => ?_, fun {vec vec'} h hcall => ?_, fun {n} _ => ?_⟩
  · simp only [inlineKernel, h]
  · have hplain : frameVectorToPages plainKernel vec = some (0, vec') := hcall
    simp only [inlineKernel, h, hplain]
  · exact UInt64.add_sub_cancel n 0x9000

/-- A new vector of two slots. -/
def newVector : FrameVector := ⟨2, 0, true, true, [7, 7], rfl, by decide⟩

/-- Two areas of a device, one after the other: the second ends in its second page. -/
def deviceSpace : AddressSpace where
  findVmaIntersection a _ :=
    if 0x10000 ≤ a ∧ a < 0x14000 then some ⟨0x10000, 0x14000, true, false⟩
    else if 0x14000 ≤ a ∧ a < 0x1a000 then some ⟨0x14000, 0x1a000, true, false⟩
    else none
  getUserPagesLocked _ _ _ := (.error (-EFAULT), true)
  followPfn _ a := .ok (a / 0x4000)

theorem deviceSpace_find {a b : UInt64} {v : Vma}
    (h : deviceSpace.findVmaIntersection a b = some v) :
    ((0x10000 ≤ a ∧ a < 0x14000) ∧ v = ⟨0x10000, 0x14000, true, false⟩) ∨
      ((0x14000 ≤ a ∧ a < 0x1a000) ∧ v = ⟨0x14000, 0x1a000, true, false⟩) := by
  simp only [deviceSpace] at h
  split at h
  · next hin => exact Or.inl ⟨hin, (Option.some.inj h).symm⟩
  · split at h
    · next hin => exact Or.inr ⟨hin, (Option.some.inj h).symm⟩
    · cases h

theorem deviceSpace_documented : deviceSpace.Documented inlineKernel where
  page_pos := by decide
  covers h := by
    rcases deviceSpace_find h with ⟨hin, rfl⟩ | ⟨hin, rfl⟩ <;> exact hin
  only h hlow hhigh := by
    rcases deviceSpace_find h with ⟨-, rfl⟩ | ⟨-, rfl⟩
    · exact if_pos ⟨hlow, hhigh⟩
    · have hnot : ¬ (_ < (0x14000 : UInt64)) := UInt64.not_lt.mpr hlow
      exact (if_neg fun hin => hnot hin.2).trans (if_pos ⟨hlow, hhigh⟩)
  user h := by
    rcases deviceSpace_find h with ⟨-, rfl⟩ | ⟨-, rfl⟩ <;> decide
  follow_neg h := by cases h
  pinned_neg h := by
    cases h
    decide
  pinned_le h := by cases h
  pinned_page h := by cases h

theorem getVaddrFrames_walk_device :
    ∃ vec', getVaddrFrames inlineKernel deviceSpace 0x10000 3 0 newVector =
        some (2, vec', [.acquire .mmapSem, .release .mmapSem]) ∧ vec'.ptrs = [4, 5] := by
  have hwalk : newVector.walk inlineKernel deviceSpace 0x10000 3 = ([4, 5], none) := by decide
  have hvma : deviceSpace.findVmaIntersection 0x10000 (0x10000 + 1) =
      some ⟨0x10000, 0x14000, true, false⟩ := by decide
  obtain ⟨vec', hcall, -, -, -, -, hptrs⟩ := getVaddrFrames_walk inlineKernel
    inlineKernel_documented deviceSpace_documented hvma rfl rfl (show (3 : UInt32) ≠ 0 by decide) 0
    newVector
  rw [hwalk] at hcall hptrs
  exact ⟨vec', hcall, hptrs⟩

end Patrol.Compat
