import Patrol.Compat.Mapping

/-! The references of a frame vector over its life: `put_vaddr_frames` gives back what
`get_vaddr_frames` took, whatever conversions there are between. -/

namespace Patrol.Compat

open ProofKit

variable (K : Kernel)

inductive Op
  | get (mm : AddressSpace) (start : UInt64) (nrFrames gupFlags : UInt32)
  | put
  | toPages
  | toPfns

/-- One call on a vector, with the references that it takes and gives back. -/
def perform (vec : FrameVector) : Op → Option (FrameVector × List (Entry Held))
  | .get mm start nrFrames gupFlags => (getVaddrFrames K mm start nrFrames gupFlags vec).map (·.2)
  | .put => putVaddrFrames K vec
  | .toPages => (frameVectorToPages K vec).map fun r => (r.2, [])
  | .toPfns => (frameVectorToPfns K vec).map fun vec => (vec, [])

/-- The calls on a vector and the references so far, and nothing after a fault. -/
def machine (vec : FrameVector) : Machine (Option (FrameVector × List (Entry Held))) Op where
  init := some (vec, [])
  step s op := s.bind fun s => (perform K s.1 op).map fun r => (r.1, s.2 ++ r.2)

def Op.Documented : Op → Prop
  | .get mm _ _ _ => mm.Documented K
  | _ => True

/-- The vector has been put, or is new, when `get_vaddr_frames` is called with it. -/
def Prepared (vec : FrameVector) (before : List Op) : Op → Prop
  | .get _ _ _ _ => ∀ s ∈ (machine K vec).run before, s.1.nrFrames = 0
  | _ => True

/-! ### What the words of a vector are -/

/-- The slots in use. -/
def FrameVector.words (vec : FrameVector) : List UInt64 := vec.ptrs.take vec.nrFrames.toNat

theorem FrameVector.words_nil {vec : FrameVector} (h : vec.nrFrames = 0) : vec.words = [] := by
  rw [words, h]
  rfl

theorem FrameVector.length_words {vec : FrameVector} (h : vec.nrFrames ≤ vec.nrAllocated) :
    vec.words.length = vec.nrFrames.toNat :=
  vec.length_take (UInt32.le_iff_toNat_le.mp h)

theorem convertLoop_filled (f : UInt64 → UInt64) {n i : Nat} (vec : FrameVector)
    (h : i + n ≤ vec.nrAllocated.toNat) :
    ∃ vec', convertLoop f n i vec = some vec' ∧
      Filled vec i (((vec.ptrs.drop i).take n).map f) vec' := by
  induction n generalizing i vec with
  | zero => exact ⟨vec, rfl, Filled.nil vec i⟩
  | succ n ih =>
    have hi : i < vec.ptrs.length := by
      rw [vec.room]
      omega
    obtain ⟨vec₁, hstore, hfilled⟩ := vec.store_filled (f vec.ptrs[i]) (show i < _ by omega)
    obtain ⟨vec', hloop, hrest⟩ := ih (i := i + 1) vec₁ (by rw [hfilled.header.nrAllocated]; omega)
    refine ⟨vec', ?_, ?_⟩
    · rw [convertLoop, List.getElem?_eq_getElem hi, Option.bind_some, hstore, Option.bind_some, hloop]
    · rw [hfilled.drop (by omega) (j := i + 1) (Nat.le_refl _)] at hrest
      rw [List.drop_eq_getElem_cons hi, List.take_succ_cons, List.map_cons]
      exact hfilled.append hrest (by omega)

theorem allValid_eq (pfnValid : UInt64 → Bool) {vec : FrameVector} {n i : Nat}
    (h : i + n ≤ vec.nrAllocated.toNat) :
    allValid pfnValid vec n i = some (((vec.ptrs.drop i).take n).all pfnValid) := by
  induction n generalizing i with
  | zero => rfl
  | succ n ih =>
    have hi : i < vec.ptrs.length := by
      rw [vec.room]
      omega
    rw [allValid, List.getElem?_eq_getElem hi, Option.bind_some, List.drop_eq_getElem_cons hi,
      List.take_succ_cons, List.all_cons, ih (by omega)]
    cases pfnValid vec.ptrs[i] <;> rfl

theorem putPages_eq {vec : FrameVector} {n i : Nat} (h : i + n ≤ vec.nrAllocated.toNat) :
    putPages vec n i = some (((vec.ptrs.drop i).take n).map fun p => .release (.page p)) := by
  induction n generalizing i with
  | zero => rfl
  | succ n ih =>
    have hi : i < vec.ptrs.length := by
      rw [vec.room]
      omega
    rw [putPages, List.getElem?_eq_getElem hi, Option.bind_some, List.drop_eq_getElem_cons hi,
      List.take_succ_cons, List.map_cons, ih (by omega), Option.map_some]

/-- The slots in use are converted; nothing else changes but what they are. -/
structure Converted (f : UInt64 → UInt64) (isPfns : Bool) (vec vec' : FrameVector) : Prop where
  nrAllocated : vec'.nrAllocated = vec.nrAllocated
  nrFrames : vec'.nrFrames = vec.nrFrames
  gotRef : vec'.gotRef = vec.gotRef
  isPfns : vec'.isPfns = isPfns
  words : vec'.words = vec.words.map f

theorem converted_of_filled {f : UInt64 → UInt64} {vec vec' : FrameVector} (b : Bool)
    (hle : vec.nrFrames ≤ vec.nrAllocated) (h : Filled vec 0 (vec.words.map f) vec') :
    Converted f b vec { vec' with isPfns := b } := by
  refine ⟨h.header.nrAllocated, h.header.nrFrames, h.header.gotRef, rfl, ?_⟩
  have htake := h.take (Nat.zero_le _)
  rw [Nat.zero_add, List.length_map, FrameVector.length_words hle, ← h.header.nrFrames,
    List.take_zero, List.nil_append] at htake
  exact htake

section Conversions

variable {K} {vec : FrameVector}

theorem frameVectorToPfns_of_pfns (h : vec.isPfns = true) : frameVectorToPfns K vec = some vec :=
  if_pos h

theorem frameVectorToPfns_of_pages (h : vec.isPfns = false) (hle : vec.nrFrames ≤ vec.nrAllocated) :
    ∃ vec', frameVectorToPfns K vec = some vec' ∧ Converted K.pageToPfn true vec vec' := by
  obtain ⟨vec', hloop, hfilled⟩ := convertLoop_filled K.pageToPfn (n := vec.nrFrames.toNat) (i := 0)
    vec (by have := UInt32.le_iff_toNat_le.mp hle; omega)
  refine ⟨{ vec' with isPfns := true }, ?_, converted_of_filled true hle hfilled⟩
  rw [frameVectorToPfns, h, hloop]
  rfl

theorem frameVectorToPages_of_pages (h : vec.isPfns = false) :
    frameVectorToPages K vec = some (0, vec) := by
  rw [frameVectorToPages, h]
  rfl

theorem frameVectorToPages_of_pfns (hK : K.Documented) (h : vec.isPfns = true)
    (hle : vec.nrFrames ≤ vec.nrAllocated) (hvalid : ∀ w ∈ vec.words, K.pfnValid w = true) :
    ∃ vec', frameVectorToPages K vec = some (0, vec') ∧ Converted K.pfnToPage false vec vec' := by
  have hroom := UInt32.le_iff_toNat_le.mp hle
  obtain ⟨vec', hloop, hfilled⟩ := convertLoop_filled K.pfnToPage (n := vec.nrFrames.toNat) (i := 0)
    vec (by omega)
  refine ⟨{ vec' with isPfns := false }, ?_, converted_of_filled false hle hfilled⟩
  have hall : vec.words.all K.pfnValid = true := List.all_eq_true.mpr hvalid
  rw [frameVectorToPages, h]
  simp only [Bool.not_true, Bool.false_eq_true, if_false, hK.pfns_in_place h]
  rw [allValid_eq K.pfnValid (by omega), List.drop_zero, ← FrameVector.words, hall, Option.bind_some, hloop]
  rfl

/-- A conversion that fails leaves the vector as it was. -/
theorem frameVectorToPages_invalid (hK : K.Documented) (h : vec.isPfns = true)
    (hle : vec.nrFrames ≤ vec.nrAllocated) (hinvalid : ¬ ∀ w ∈ vec.words, K.pfnValid w = true) :
    frameVectorToPages K vec = some (-EINVAL, vec) := by
  have hroom := UInt32.le_iff_toNat_le.mp hle
  have hall : vec.words.all K.pfnValid = false := by
    rw [← Bool.not_eq_true, List.all_eq_true]
    exact hinvalid
  rw [frameVectorToPages, h]
  simp only [Bool.not_true, Bool.false_eq_true, if_false, hK.pfns_in_place h]
  rw [allValid_eq K.pfnValid (by omega), List.drop_zero, ← FrameVector.words, hall, Option.bind_some]
  rfl

end Conversions

/-! ### Conversions one after another -/

/-- The numbers of the frames, whatever the words are. -/
def FrameVector.frames (vec : FrameVector) : List UInt64 :=
  if vec.isPfns then vec.words else vec.words.map K.pageToPfn

def Op.IsConversion : Op → Prop
  | .toPages => True
  | .toPfns => True
  | _ => False

/-- Neither the frames nor the references change. -/
structure SameFrames (vec vec' : FrameVector) : Prop where
  nrAllocated : vec'.nrAllocated = vec.nrAllocated
  nrFrames : vec'.nrFrames = vec.nrFrames
  gotRef : vec'.gotRef = vec.gotRef
  frames : vec'.frames K = vec.frames K

theorem SameFrames.refl (vec : FrameVector) : SameFrames K vec vec := ⟨rfl, rfl, rfl, rfl⟩

theorem SameFrames.trans {v v' v'' : FrameVector} (h : SameFrames K v v')
    (h' : SameFrames K v' v'') : SameFrames K v v'' :=
  ⟨h'.1.trans h.1, h'.2.trans h.2, h'.3.trans h.3, h'.4.trans h.4⟩

theorem perform_conversion (hK : K.Documented) {vec : FrameVector}
    (hle : vec.nrFrames ≤ vec.nrAllocated) {op : Op} (hop : op.IsConversion) :
    ∃ vec', perform K vec op = some (vec', []) ∧ SameFrames K vec vec' := by
  cases op with
  | get => cases hop
  | put => cases hop
  | toPfns =>
    cases hmode : vec.isPfns with
    | true => exact ⟨vec, by rw [perform, frameVectorToPfns_of_pfns hmode]; rfl, SameFrames.refl K vec⟩
    | false =>
      obtain ⟨vec', hcall, hconv⟩ := frameVectorToPfns_of_pages (K := K) hmode hle
      refine ⟨vec', by rw [perform, hcall]; rfl, hconv.nrAllocated, hconv.nrFrames, hconv.gotRef, ?_⟩
      unfold FrameVector.frames
      rw [hconv.isPfns, hmode, hconv.words]
      rfl
  | toPages =>
    cases hmode : vec.isPfns with
    | false =>
      exact ⟨vec, by rw [perform, frameVectorToPages_of_pages hmode]; rfl, SameFrames.refl K vec⟩
    | true =>
      by_cases hvalid : ∀ w ∈ vec.words, K.pfnValid w = true
      · obtain ⟨vec', hcall, hconv⟩ := frameVectorToPages_of_pfns hK hmode hle hvalid
        refine ⟨vec', by rw [perform, hcall]; rfl, hconv.nrAllocated, hconv.nrFrames, hconv.gotRef,
          ?_⟩
        unfold FrameVector.frames
        rw [hconv.isPfns, hmode, hconv.words, if_neg Bool.false_ne_true, if_pos rfl, List.map_map]
        calc vec.words.map (K.pageToPfn ∘ K.pfnToPage) = vec.words.map id :=
              List.map_congr_left fun w hw => hK.pfn_of_page (hvalid w hw)
          _ = vec.words := List.map_id _
      · refine ⟨vec, ?_, SameFrames.refl K vec⟩
        rw [perform, frameVectorToPages_invalid hK hmode hle hvalid]
        rfl

/-- However often a vector is converted, and whether or not a conversion fails, its frames and its
references stay the same. -/
theorem frames_kept (hK : K.Documented) {vec : FrameVector}
    (hle : vec.nrFrames ≤ vec.nrAllocated) {ops : List Op} (hops : ∀ op ∈ ops, op.IsConversion) :
    ∃ vec', (machine K vec).run ops = some (vec', []) ∧ SameFrames K vec vec' := by
  induction ops using List.reverseRecOn with
  | nil => exact ⟨vec, rfl, SameFrames.refl K vec⟩
  | append_singleton ops op ih =>
    simp only [List.forall_mem_append, List.forall_mem_singleton] at hops
    obtain ⟨vec₁, hrun, hsame⟩ := ih hops.1
    have hle₁ : vec₁.nrFrames ≤ vec₁.nrAllocated := by
      rw [hsame.nrFrames, hsame.nrAllocated]
      exact hle
    obtain ⟨vec', hstep, hsame'⟩ := perform_conversion K hK hle₁ hops.2
    refine ⟨vec', ?_, hsame.trans K hsame'⟩
    rw [Machine.run_concat, hrun]
    exact congrArg (Option.map _) hstep

theorem frames_kept_twice :
    ∃ vec', (machine inlineKernel newVector).run [.toPages, .toPfns, .toPages] = some (vec', []) ∧
      SameFrames inlineKernel newVector vec' :=
  frames_kept inlineKernel inlineKernel_documented (by decide) (by simp [Op.IsConversion])

/-! ### What a call on a prepared vector takes -/

theorem storeAll_filled (vec : FrameVector) (i : Nat) (pages : List UInt64)
    (h : i + pages.length ≤ vec.nrAllocated.toNat) :
    ∃ vec', storeAll vec i pages = some vec' ∧ Filled vec i pages vec' := by
  induction pages generalizing vec i with
  | nil => exact ⟨vec, rfl, Filled.nil vec i⟩
  | cons p ps ih =>
    rw [List.length_cons] at h
    obtain ⟨vec₁, hstore, hfilled⟩ := vec.store_filled p (show i < _ by omega)
    obtain ⟨vec', hrest, hall⟩ := ih vec₁ (i + 1) (by rw [hfilled.header.nrAllocated]; omega)
    refine ⟨vec', ?_, hfilled.append hall (by omega)⟩
    rw [storeAll, hstore, Option.bind_some, hrest]

/-- The lock is taken, the pages are taken a reference to, and the lock is released. -/
def taking (pages : List UInt64) : List (Entry Held) :=
  (.mmapSem :: pages.map .page).map .acquire ++ [.release .mmapSem]

/-- What a vector has been given: pages with a reference, or frames without one. -/
inductive Given (vec : FrameVector) : List UInt64 → FrameVector → Prop
  | nothing {vec' : FrameVector} (h : vec'.nrFrames = vec.nrFrames) : Given vec [] vec'
  | pages {vec' : FrameVector} {pages : List UInt64} (hpages : ∀ p ∈ pages, K.IsPage p)
      (href : vec'.gotRef = true) (hmode : vec'.isPfns = false) (hwords : vec'.words = pages) : Given vec pages vec'
  | frames {vec' : FrameVector} (h : vec'.gotRef = false) : Given vec [] vec'

/-- However the lock has been left, it is released. -/
theorem calls_taking (locked : Bool) (pages : List UInt64) :
    ([.acquire .mmapSem] ++ pages.map (fun p => .acquire (.page p)) ++
        if locked then [] else [.release .mmapSem]) ++
      (if locked then [.release .mmapSem] else []) = taking pages := by
  cases locked <;> simp [taking]

/-- The pages that are pinned, in the first slots. -/
theorem pinned_given {vec : FrameVector} {pages : List UInt64}
    (hle : vec.nrFrames ≤ vec.nrAllocated) (hroom : pages.length ≤ vec.nrAllocated.toNat)
    (hpages : ∀ p ∈ pages, K.IsPage p) (locked : Bool) :
    ∃ ret vec' calls, (storeAll { vec with gotRef := true, isPfns := false } 0 pages).map
        (fun vec => leave locked pages.length vec
          ([.acquire .mmapSem] ++ pages.map (fun p => .acquire (.page p)) ++
            if locked then [] else [.release .mmapSem])) = some (ret, vec', calls) ∧
      calls = taking pages ∧ Given K vec pages vec' ∧
      vec'.nrAllocated = vec.nrAllocated ∧ vec'.nrFrames ≤ vec.nrAllocated := by
  obtain ⟨vec', hstore, hfilled⟩ := storeAll_filled { vec with gotRef := true, isPfns := false } 0
    pages (by simpa using hroom)
  rw [hstore, Option.map_some]
  rcases Nat.eq_zero_or_pos pages.length with hzero | hpos
  · rw [hzero, Int.natCast_zero, leave_zero]
    refine ⟨_, _, _, rfl, calls_taking locked pages, ?_, hfilled.header.nrAllocated, ?_⟩
    · rw [List.eq_nil_of_length_eq_zero hzero]
      exact .nothing hfilled.header.nrFrames
    · rw [hfilled.header.nrFrames]
      exact hle
  · rw [leave_of_pos hpos]
    have hnat : (UInt32.ofNat pages.length).toNat = pages.length :=
      UInt32.toNat_ofNat_of_lt' (Nat.lt_of_le_of_lt hroom vec.nrAllocated.toNat_lt_size)
    refine ⟨_, _, _, rfl, calls_taking locked pages, .pages hpages hfilled.header.gotRef
      hfilled.header.isPfns ?_,
      hfilled.header.nrAllocated, ?_⟩
    · have htake := hfilled.take (Nat.zero_le _)
      rw [Nat.zero_add, List.take_zero, List.nil_append] at htake
      rw [FrameVector.words, hnat]
      exact htake
    · rw [UInt32.le_iff_toNat_le, hnat]
      exact hroom

theorem getVaddrFrames_given (hK : K.Documented) {mm : AddressSpace} (hmm : mm.Documented K)
    (start : UInt64) (nrFrames gupFlags : UInt32) {vec : FrameVector}
    (hle : vec.nrFrames ≤ vec.nrAllocated) :
    ∃ ret vec' calls pages, getVaddrFrames K mm start nrFrames gupFlags vec = some (ret, vec', calls) ∧
      (calls = taking pages ∨ calls = [] ∧ pages = []) ∧ Given K vec pages vec' ∧
      vec'.nrAllocated = vec.nrAllocated ∧ vec'.nrFrames ≤ vec.nrAllocated := by
  by_cases hn : nrFrames = 0
  · refine ⟨0, vec, [], [], if_pos hn, Or.inr ⟨rfl, rfl⟩, .nothing rfl, rfl, hle⟩
  · cases hvma : mm.findVmaIntersection start (start + 1) with
    | none =>
      refine ⟨-EFAULT, vec, taking [], [], ?_, Or.inl rfl, .nothing rfl, rfl, hle⟩
      rw [getVaddrFrames, if_neg hn]
      simp only [hvma]
      rfl
    | some vma =>
      cases hdax : vma.fsdax with
      | true =>
        refine ⟨-EOPNOTSUPP, vec, taking [], [], ?_, Or.inl rfl, .nothing rfl, rfl, hle⟩
        rw [getVaddrFrames, if_neg hn]
        simp only [hvma, hdax]
        rfl
      | false =>
        cases hio : vma.ioOrPfnmap with
        | true =>
          obtain ⟨vec', hcall, href, -, hsame, hframes, -⟩ :=
            getVaddrFrames_walk K hK hmm hvma hio hdax hn gupFlags vec
          refine ⟨_, vec', taking [], [], hcall, Or.inl rfl, .frames href, hsame, ?_⟩
          rw [UInt32.le_iff_toNat_le, hframes]
          split
          · exact UInt32.le_iff_toNat_le.mp hle
          · exact (framesFrom_length_le K mm _ start).trans (Nat.min_le_right _ _)
        | false =>
          cases hgup : mm.getUserPagesLocked start (vec.clamp nrFrames) gupFlags with
          | mk result locked =>
            have hresult := congrArg Prod.fst hgup
            cases result with
            | error err =>
              refine ⟨err, { vec with gotRef := true, isPfns := false }, taking [], [], ?_,
                Or.inl rfl, .nothing rfl, rfl, hle⟩
              rw [getVaddrFrames, if_neg hn]
              simp only [hvma, hdax, hio]
              rw [← FrameVector.clamp, hgup, ← calls_taking locked []]
              simp [leave_of_neg (hmm.pinned_neg hresult)]
            | ok pages =>
              have hlen := hmm.pinned_le hresult
              rw [vec.clamp_toNat] at hlen
              obtain ⟨ret, vec', calls, heq, hcalls, hgiven, hsame, hwithin⟩ := pinned_given K hle
                (hlen.trans (Nat.min_le_right _ _)) (hmm.pinned_page hresult) locked
              refine ⟨ret, vec', calls, pages, ?_, Or.inl hcalls, hgiven, hsame, hwithin⟩
              rw [getVaddrFrames, if_neg hn]
              simp only [hvma, hdax, hio]
              rw [← FrameVector.clamp, hgup]
              exact heq

/-! ### Runs -/

/-- The vector holds these pages, or the numbers of their frames. -/
def Pins (vec : FrameVector) (pages : List UInt64) : Prop :=
  (∀ p ∈ pages, K.IsPage p) ∧
    vec.words = if vec.isPfns then pages.map K.pageToPfn else pages

/-- The references that are live are those of the vector's pages, and the lock is not held. -/
structure Accounted (s : FrameVector × List (Entry Held)) : Prop where
  within : s.1.nrFrames ≤ s.1.nrAllocated
  balanced : Ledger.Balanced s.2
  holds : ∃ pages : List UInt64, Ledger.live s.2 = (pages.map Held.page : Multiset Held) ∧
    (s.1.gotRef = true → Pins K s.1 pages) ∧ (s.1.gotRef = false → pages = [])

section Steps

variable {K} {vec : FrameVector} {log : List (Entry Held)}

/-- Nothing is live where no slot is in use. -/
theorem Accounted.live_of_none (h : Accounted K (vec, log)) (hn : vec.nrFrames = 0) :
    Ledger.live log = 0 := by
  obtain ⟨pages, hlive, hpins, hnone⟩ := h.holds
  have hnil : pages = [] := by
    cases href : vec.gotRef with
    | false => exact hnone href
    | true =>
      have hwords := (hpins href).2
      rw [FrameVector.words_nil hn] at hwords
      cases hmode : vec.isPfns with
      | false => simpa [hmode] using hwords.symm
      | true => simpa [hmode] using hwords
  rw [hlive, hnil]
  rfl

theorem taking_balanced (h : Ledger.Balanced log) (hlive : Ledger.live log = 0)
    (pages : List UInt64) : Ledger.Balanced (log ++ taking pages) ∧
      Ledger.live (log ++ taking pages) = (pages.map Held.page : Multiset Held) := by
  obtain ⟨hacquired, hheld⟩ := h.acquireAll (.mmapSem :: pages.map Held.page)
  rw [hlive, Multiset.zero_add, ← Multiset.cons_coe] at hheld
  rw [taking, ← List.append_assoc]
  refine ⟨hacquired.release ?_, ?_⟩
  · rw [hheld]
    exact Multiset.mem_cons_self _ _
  · rw [Ledger.live_concat, hheld, Ledger.post, Multiset.erase_cons_head]

theorem Accounted.get (hK : K.Documented) (h : Accounted K (vec, log)) (hn : vec.nrFrames = 0)
    {mm : AddressSpace} (hmm : mm.Documented K) (start : UInt64) (nrFrames gupFlags : UInt32) :
    ∃ r, perform K vec (.get mm start nrFrames gupFlags) = some r ∧
      Accounted K (r.1, log ++ r.2) := by
  obtain ⟨ret, vec', calls, pages, hcall, hcalls, hgiven, hsame, hwithin⟩ :=
    getVaddrFrames_given K hK hmm start nrFrames gupFlags h.within
  refine ⟨(vec', calls), by rw [perform, hcall]; rfl, ?_⟩
  have hnone := h.live_of_none hn
  obtain ⟨hbalanced, hlive⟩ : Ledger.Balanced (log ++ calls) ∧
      Ledger.live (log ++ calls) = (pages.map Held.page : Multiset Held) := by
    rcases hcalls with rfl | ⟨rfl, rfl⟩
    · exact taking_balanced h.balanced hnone pages
    · rw [List.append_nil]
      exact ⟨h.balanced, hnone⟩
  refine ⟨by rw [hsame]; exact hwithin, hbalanced, pages, hlive, ?_⟩
  cases hgiven with
  | nothing hframes =>
    have hwords := FrameVector.words_nil (hframes.trans hn)
    exact ⟨fun _ => ⟨by simp, by rw [hwords]; simp⟩, fun _ => rfl⟩
  | pages hpages href hmode hwords =>
    exact ⟨fun _ => ⟨hpages, by simp [hmode, hwords]⟩, fun h => by simp [href] at h⟩
  | frames href => exact ⟨fun h => by simp [href] at h, fun _ => rfl⟩

theorem Accounted.toPfns (h : Accounted K (vec, log)) :
    ∃ r, perform K vec .toPfns = some r ∧ Accounted K (r.1, log ++ r.2) := by
  cases hmode : vec.isPfns with
  | true =>
    refine ⟨(vec, []), by rw [perform, frameVectorToPfns_of_pfns hmode]; rfl, ?_⟩
    rwa [List.append_nil]
  | false =>
    obtain ⟨vec', hcall, hconv⟩ := frameVectorToPfns_of_pages (K := K) hmode h.within
    refine ⟨(vec', []), by rw [perform, hcall]; rfl, ?_⟩
    obtain ⟨pages, hlive, hpins, hnone⟩ := h.holds
    rw [List.append_nil]
    refine ⟨by rw [hconv.nrFrames, hconv.nrAllocated]; exact h.within, h.balanced, pages, hlive,
      fun href => ?_, fun href => hnone (hconv.gotRef ▸ href)⟩
    obtain ⟨hpages, hwords⟩ := hpins (hconv.gotRef ▸ href)
    refine ⟨hpages, ?_⟩
    simp only [hmode, Bool.false_eq_true, if_false] at hwords
    rw [hconv.words, hconv.isPfns, if_pos rfl, hwords]

theorem Pins.valid {pages : List UInt64} (h : Pins K vec pages) (hmode : vec.isPfns = true) :
    ∀ w ∈ vec.words, K.pfnValid w = true := by
  rw [h.2, if_pos hmode]
  intro w hw
  obtain ⟨p, hp, rfl⟩ := List.mem_map.mp hw
  exact (h.1 p hp).1

/-- The numbers of the frames of pages convert back to them. -/
theorem Pins.convert {pages : List UInt64} (h : Pins K vec pages) (hmode : vec.isPfns = true) :
    vec.words.map K.pfnToPage = pages := by
  rw [h.2, if_pos hmode, List.map_map]
  calc pages.map (K.pfnToPage ∘ K.pageToPfn) = pages.map id :=
        List.map_congr_left fun p hp => (h.1 p hp).2
    _ = pages := List.map_id pages

theorem Accounted.toPages (hK : K.Documented) (h : Accounted K (vec, log)) :
    ∃ r, perform K vec .toPages = some r ∧ Accounted K (r.1, log ++ r.2) := by
  obtain ⟨pages, hlive, hpins, hnone⟩ := h.holds
  have hkept : Accounted K (vec, log ++ []) := by rwa [List.append_nil]
  cases hmode : vec.isPfns with
  | false =>
    refine ⟨(vec, []), by rw [perform, frameVectorToPages_of_pages hmode]; rfl, hkept⟩
  | true =>
    by_cases hvalid : ∀ w ∈ vec.words, K.pfnValid w = true
    · obtain ⟨vec', hcall, hconv⟩ := frameVectorToPages_of_pfns hK hmode h.within hvalid
      refine ⟨(vec', []), by rw [perform, hcall]; rfl, ?_⟩
      rw [List.append_nil]
      refine ⟨by rw [hconv.nrFrames, hconv.nrAllocated]; exact h.within, h.balanced, pages, hlive,
        fun href => ?_, fun href => hnone (hconv.gotRef ▸ href)⟩
      have hpinned := hpins (hconv.gotRef ▸ href)
      refine ⟨hpinned.1, ?_⟩
      rw [hconv.isPfns, hconv.words, hpinned.convert hmode]
      rfl
    · refine ⟨(vec, []), ?_, hkept⟩
      rw [perform, frameVectorToPages_invalid hK hmode h.within hvalid]
      rfl

/-- `frame_vector_pages` returns what is pinned. -/
theorem Pins.pages_returned (hK : K.Documented) {pages : List UInt64} (h : Pins K vec pages)
    (hle : vec.nrFrames ≤ vec.nrAllocated) :
    ∃ vec', K.frameVectorPages vec = .ok vec' ∧ vec'.words = pages ∧
      vec'.nrFrames = vec.nrFrames ∧ vec'.nrAllocated = vec.nrAllocated := by
  cases hmode : vec.isPfns with
  | false => exact ⟨vec, hK.pages_in_place hmode, by simpa [hmode] using h.2, rfl, rfl⟩
  | true =>
    obtain ⟨vec', hcall, hconv⟩ := frameVectorToPages_of_pfns hK hmode hle (h.valid hmode)
    exact ⟨vec', hK.pages_converted hmode hcall, hconv.words.trans (h.convert hmode),
      hconv.nrFrames, hconv.nrAllocated⟩

theorem putVaddrFrames_of_pages {vec' : FrameVector} (href : vec.gotRef = true)
    (h : K.frameVectorPages vec = .ok vec') :
    putVaddrFrames K vec = (putPages vec' vec'.nrFrames.toNat 0).map fun calls =>
      ({ vec' with gotRef := false, nrFrames := 0 }, calls) := by
  rw [putVaddrFrames, href, h]
  rfl

/-- What is put is what is held. -/
theorem Accounted.put (hK : K.Documented) (h : Accounted K (vec, log)) :
    ∃ r, perform K vec .put = some r ∧ Accounted K (r.1, log ++ r.2) ∧ r.1.nrFrames = 0 := by
  obtain ⟨pages, hlive, hpins, hnone⟩ := h.holds
  cases href : vec.gotRef with
  | false =>
    refine ⟨({ vec with nrFrames := 0 }, []), by rw [perform, putVaddrFrames, href]; rfl, ?_, rfl⟩
    rw [List.append_nil]
    refine ⟨UInt32.zero_le, h.balanced, pages, hlive, fun h => ?_, fun _ => hnone href⟩
    simp [href] at h
  | true =>
    have hpinned : Pins K vec pages := hpins href
    have hwithin : vec.nrFrames ≤ vec.nrAllocated := h.within
    obtain ⟨vec', hpages, hwords, hframes, hsame⟩ := hpinned.pages_returned hK hwithin
    have hput : putPages vec' vec'.nrFrames.toNat 0 =
        some ((pages.map Held.page).map .release) := by
      have hroom := UInt32.le_iff_toNat_le.mp hwithin
      rw [putPages_eq (by rw [hframes, hsame]; omega), List.drop_zero, ← FrameVector.words, hwords,
        List.map_map]
      rfl
    refine ⟨({ vec' with gotRef := false, nrFrames := 0 }, (pages.map Held.page).map .release),
      ?_, ?_, rfl⟩
    · rw [perform, putVaddrFrames_of_pages href hpages, hput]
      rfl
    · have hall : Ledger.live log = 0 + (pages.map Held.page : Multiset Held) := by
        rw [hlive, Multiset.zero_add]
      obtain ⟨hbalanced, hrest⟩ := h.balanced.releaseAll _ hall
      exact ⟨UInt32.zero_le, hbalanced, [], hrest, nofun, fun _ => rfl⟩

end Steps

/-- A vector that `frame_vector_create` returns, whatever is in its memory. -/
theorem accounted_create {kvmalloc : Int32 → Option Garbage} {nrFrames : UInt32}
    {vec : FrameVector} (h : frameVectorCreate K kvmalloc nrFrames = some vec) :
    Accounted K (vec, []) := by
  have hn : vec.nrFrames = 0 := by
    rw [frameVectorCreate] at h
    split at h
    · cases h
    · split at h
      · obtain ⟨g, -, rfl⟩ := Option.map_eq_some_iff.mp h
        rfl
      · cases h
  refine ⟨by rw [hn]; exact UInt32.zero_le, Ledger.balanced_nil, [], rfl, fun _ => ⟨by simp, ?_⟩,
    fun _ => rfl⟩
  rw [FrameVector.words_nil hn]
  simp

theorem accounted_run (hK : K.Documented) {vec : FrameVector} (hvec : Accounted K (vec, []))
    {ops : List Op} (hops : ∀ op ∈ ops, op.Documented K) (hprepared : EachOp (Prepared K vec) ops) :
    ∃ s, (machine K vec).run ops = some s ∧ Accounted K s := by
  induction ops using List.reverseRecOn with
  | nil => exact ⟨(vec, []), rfl, hvec⟩
  | append_singleton ops op ih =>
    simp only [List.forall_mem_append, List.forall_mem_singleton] at hops
    obtain ⟨hbefore, hop⟩ := eachOp_concat.mp hprepared
    obtain ⟨s, hrun, hs⟩ := ih hops.1 hbefore
    have hstep : ∃ r, perform K s.1 op = some r ∧ Accounted K (r.1, s.2 ++ r.2) := by
      cases op with
      | get mm start nrFrames gupFlags =>
        exact hs.get hK (hop s hrun) hops.2 start nrFrames gupFlags
      | put =>
        obtain ⟨r, hr, hput, -⟩ := hs.put hK
        exact ⟨r, hr, hput⟩
      | toPages => exact hs.toPages hK
      | toPfns => exact hs.toPfns
    obtain ⟨r, hr, haccounted⟩ := hstep
    refine ⟨(r.1, s.2 ++ r.2), ?_, haccounted⟩
    rw [Machine.run_concat, hrun]
    exact (congrArg (Option.map _) hr)

/-- On every run on a new vector that puts it before it is filled again, no call faults, no page is put
without a reference to it, and after a last put every page has been put as often as a reference to it
was taken, the lock is free and the vector can be destroyed. -/
theorem references_returned (hK : K.Documented) {kvmalloc : Int32 → Option Garbage}
    {nrFrames : UInt32} {vec : FrameVector}
    (hvec : frameVectorCreate K kvmalloc nrFrames = some vec) {ops : List Op}
    (hops : ∀ op ∈ ops, op.Documented K) (hprepared : EachOp (Prepared K vec) ops) :
    ∃ s, (machine K vec).run (ops ++ [.put]) = some s ∧ Ledger.Balanced s.2 ∧
      Ledger.live s.2 = 0 ∧ s.1.destroyable = true ∧
      ∀ held, s.2.count (.release held) = s.2.count (.acquire held) := by
  obtain ⟨s, hrun, hs⟩ := accounted_run K hK (accounted_create K hvec) hops hprepared
  obtain ⟨r, hr, hput, hn⟩ := hs.put hK
  have hlive := hput.live_of_none hn
  refine ⟨(r.1, s.2 ++ r.2), ?_, hput.balanced, hlive, by simp [FrameVector.destroyable, hn], ?_⟩
  · rw [Machine.run_concat, hrun]
    exact congrArg (Option.map _) hr
  · intro held
    have hcount := hput.balanced.count held
    rwa [hlive, Multiset.count_zero, Nat.add_zero] at hcount

/-- One area of four pages, of which the first two are there. -/
def plainSpace : AddressSpace where
  findVmaIntersection a _ :=
    if 0x10000 ≤ a ∧ a < 0x20000 then some ⟨0x10000, 0x20000, false, false⟩ else none
  getUserPagesLocked _ n _ := (.ok ([0x9005, 0x9007].take n.toNat), true)
  followPfn _ _ := .error (-EFAULT)

theorem plainSpace_find {a b : UInt64} {v : Vma}
    (h : plainSpace.findVmaIntersection a b = some v) :
    (0x10000 ≤ a ∧ a < 0x20000) ∧ v = ⟨0x10000, 0x20000, false, false⟩ := by
  simp only [plainSpace] at h
  split at h
  · next hin => exact ⟨hin, (Option.some.inj h).symm⟩
  · cases h

theorem plainSpace_documented : plainSpace.Documented inlineKernel where
  page_pos := by decide
  covers h := by
    obtain ⟨hin, rfl⟩ := plainSpace_find h
    exact hin
  only h hlow hhigh := by
    obtain ⟨-, rfl⟩ := plainSpace_find h
    exact if_pos ⟨hlow, hhigh⟩
  user h := by
    obtain ⟨-, rfl⟩ := plainSpace_find h
    decide
  follow_neg h := by
    cases h
    decide
  pinned_neg h := by cases h
  pinned_le h := by
    cases h
    rw [List.length_take]
    exact Nat.min_le_left _ _
  pinned_page h p hp := by
    cases h
    have hmem := List.mem_of_mem_take hp
    simp only [List.mem_cons, List.not_mem_nil, or_false] at hmem
    rcases hmem with rfl | rfl <;> exact ⟨by decide, by decide⟩

theorem references_returned_converted :
    ∃ s, (machine inlineKernel newVector).run ([.get plainSpace 0x10000 3 0, .toPfns] ++ [.put]) =
        some s ∧ Ledger.Balanced s.2 ∧ Ledger.live s.2 = 0 ∧ s.1.destroyable = true ∧
      ∀ held, s.2.count (.release held) = s.2.count (.acquire held) := by
  have hcreate : frameVectorCreate inlineKernel (fun _ => some ⟨true, true, fun _ => 7⟩) 2 =
      some newVector := by decide
  refine references_returned inlineKernel inlineKernel_documented hcreate ?_ ?_
  · simp [Op.Documented, plainSpace_documented]
  · refine @eachOp_concat _ _ [_] _ |>.mpr ⟨@eachOp_concat _ _ [] _ |>.mpr ⟨eachOp_nil, ?_⟩, trivial⟩
    intro s hs
    cases hs
    rfl

end Patrol.Compat
