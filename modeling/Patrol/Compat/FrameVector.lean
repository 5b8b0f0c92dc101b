import Mathlib.Algebra.Ring.Nat
import Patrol.ProofKit.Ledger

/-! The frame vectors of `kernel-modules/compat/frame_vector.c`.  What the file uses of the rest of the
kernel is a parameter.  A frame vector is an array of words that are page pointers or page frame
numbers, as `is_pfns` says. -/

namespace Patrol.Compat

open ProofKit

def EFAULT : Int := 14

def EINVAL : Int := 22

def EOPNOTSUPP : Int := 95

/-- `INT_MAX / sizeof(void *) / 2`, where `void *` has eight bytes. -/
def maxFrames : Nat := 2147483647 / 8 / 2

/-- `struct frame_vector`.  Only `frame_vector_create` makes one, with room for its slots. -/
structure FrameVector where
  nrAllocated : UInt32
  nrFrames : UInt32
  gotRef : Bool
  isPfns : Bool
  ptrs : List UInt64
  room : ptrs.length = nrAllocated.toNat
  bounded : nrAllocated.toNat ≤ maxFrames
deriving DecidableEq, Repr

/-- A write to a slot, which faults outside the allocation. -/
def FrameVector.store (vec : FrameVector) (i : Nat) (w : UInt64) : Option FrameVector :=
  if i < vec.ptrs.length then
    some { vec with ptrs := vec.ptrs.set i w, room := by rw [List.length_set, vec.room] }
  else
    none

/-- What a reference is taken to and given back for. -/
inductive Held
  | page (p : UInt64)
  | mmapSem
deriving DecidableEq, Repr

/-- `struct vm_area_struct`, with the tests that the code makes of it. -/
structure Vma where
  vmStart : UInt64
  vmEnd : UInt64
  /-- `vm_flags & (VM_IO | VM_PFNMAP)` -/
  ioOrPfnmap : Bool
  /-- `vma_is_fsdax` -/
  fsdax : Bool
deriving DecidableEq, Repr

/-- `current->mm` during a call. -/
structure AddressSpace where
  findVmaIntersection : UInt64 → UInt64 → Option Vma
  /-- The pages that it takes a reference to, or its error, and `locked` after it. -/
  getUserPagesLocked : UInt64 → UInt32 → UInt32 → Except Int (List UInt64) × Bool
  followPfn : Vma → UInt64 → Except Int UInt64

/-- The macros and inline functions of the kernel that the file uses. -/
structure Kernel where
  /-- `sizeof(struct frame_vector)` -/
  headerSize : UInt64
  pageSize : UInt64
  pfnValid : UInt64 → Bool
  pfnToPage : UInt64 → UInt64
  pageToPfn : UInt64 → UInt64
  frameVectorPages : FrameVector → Except Int FrameVector
  frameVectorPfns : FrameVector → FrameVector

variable (K : Kernel)

/-! ### `frame_vector_create` -/

/-- What `kvmalloc` finds in the memory that it returns: the fields that are not initialised. -/
structure Garbage where
  gotRef : Bool
  isPfns : Bool
  word : Nat → UInt64

/-- `int size`: the sum is a 64-bit `size_t`. -/
def allocationSize (nrFrames : UInt32) : Int32 :=
  (K.headerSize + 8 * nrFrames.toUInt64).toInt64.toInt32

def frameVectorCreate (kvmalloc : Int32 → Option Garbage) (nrFrames : UInt32) :
    Option FrameVector :=
  if nrFrames = 0 then none
  else if h : nrFrames.toNat ≤ maxFrames then
    (kvmalloc (allocationSize K nrFrames)).map fun g =>
      { nrAllocated := nrFrames
        nrFrames := 0
        gotRef := g.gotRef
        isPfns := g.isPfns
        ptrs := (List.range nrFrames.toNat).map g.word
        room := by rw [List.length_map, List.length_range]
        bounded := h }
  else none

/-- What is allocated has room for the header and the slots: the size does not wrap on its way into an
`int`. -/
theorem frameVectorCreate_size {kvmalloc : Int32 → Option Garbage} {nrFrames : UInt32}
    {vec : FrameVector} (hheader : K.headerSize.toNat ≤ 2 ^ 30)
    (h : frameVectorCreate K kvmalloc nrFrames = some vec) :
    (allocationSize K nrFrames).toInt = K.headerSize.toNat + 8 * vec.ptrs.length := by
  have hallocated : vec.nrAllocated = nrFrames := by
    rw [frameVectorCreate] at h
    split at h
    · cases h
    · split at h
      · obtain ⟨g, -, rfl⟩ := Option.map_eq_some_iff.mp h
        rfl
      · cases h
  have hbounded := vec.bounded
  rw [vec.room, hallocated]
  rw [hallocated, maxFrames] at hbounded
  have hsum : (K.headerSize + 8 * nrFrames.toUInt64).toNat =
      K.headerSize.toNat + 8 * nrFrames.toNat := by
    have height : (8 : UInt64).toNat = 8 := rfl
    rw [UInt64.toNat_add, UInt64.toNat_mul, UInt32.toNat_toUInt64, height]
    omega
  rw [allocationSize, Int64.toInt_toInt32, Int64.toInt, UInt64.toBitVec_toInt64,
    BitVec.toInt_eq_toNat_bmod, UInt64.toNat_toBitVec, hsum]
  have hwide : Int.bmod (K.headerSize.toNat + 8 * nrFrames.toNat : Nat) (2 ^ 64) =
      K.headerSize.toNat + 8 * nrFrames.toNat := Int.bmod_eq_of_le (by omega) (by omega)
  rw [hwide]
  exact Int.bmod_eq_of_le (by omega) (by omega)

/-! ### `get_vaddr_frames` -/

/-- What the inner loop has come to: the address, the frames so far, and the error that it jumps to
`out` with. -/
structure Followed where
  start : UInt64
  ret : Nat
  vec : FrameVector
  err : Option Int

/-- The inner loop, while `left` frames are wanted. -/
def followPages (mm : AddressSpace) (vma : Vma) :
    Nat → UInt64 → Nat → FrameVector → Option Followed
  | 0, start, ret, vec => some ⟨start, ret, vec, none⟩
  | left + 1, start, ret, vec =>
    if start + K.pageSize ≤ vma.vmEnd then
      match mm.followPfn vma start with
      | .error err => some ⟨start, ret, vec, some err⟩
      | .ok pfn =>
        (vec.store ret pfn).bind fun vec =>
          followPages mm vma left (start + K.pageSize) (ret + 1) vec
    else
      some ⟨start, ret, vec, none⟩

/-- The outer loop, until it breaks.  It faults where the fuel runs out. -/
def followAreas (mm : AddressSpace) (nrFrames : Nat) :
    Nat → Vma → UInt64 → Nat → FrameVector → Option (Int × FrameVector)
  | 0, _, _, _, _ => none
  | fuel + 1, vma, start, ret, vec =>
    (followPages K mm vma (nrFrames - ret) start ret (K.frameVectorPfns vec)).bind fun r =>
      match r.err with
      | some err => some (if r.ret = 0 then err else r.ret, r.vec)
      | none =>
        if nrFrames ≤ r.ret ∨ r.start < vma.vmEnd then
          some (r.ret, r.vec)
        else
          match mm.findVmaIntersection r.start (r.start + 1) with
          | none => some (r.ret, r.vec)
          | some vma =>
            if vma.ioOrPfnmap then followAreas mm nrFrames fuel vma r.start r.ret r.vec
            else some (r.ret, r.vec)

/-- `get_user_pages_locked` writes the pages that it took to the first slots. -/
def storeAll : FrameVector → Nat → List UInt64 → Option FrameVector
  | vec, _, [] => some vec
  | vec, i, p :: ps => (vec.store i p).bind fun vec => storeAll vec (i + 1) ps

/-- What is done at `out`: the lock is released if it is still held, and `ret` becomes the number of
frames or stays an error. -/
def leave (locked : Bool) (ret : Int) (vec : FrameVector) (calls : List (Entry Held)) :
    Int × FrameVector × List (Entry Held) :=
  let calls := calls ++ if locked then [.release .mmapSem] else []
  let ret := if ret = 0 then -EFAULT else ret
  (ret, if 0 < ret then { vec with nrFrames := UInt32.ofNat ret.toNat } else vec, calls)

/-- `get_vaddr_frames`, with the references that it takes and gives back.  Nothing is returned where
it faults or does not return. -/
def getVaddrFrames (mm : AddressSpace) (start : UInt64) (nrFrames gupFlags : UInt32)
    (vec : FrameVector) : Option (Int × FrameVector × List (Entry Held)) :=
  if nrFrames = 0 then some (0, vec, [])
  else
    let nrFrames := if vec.nrAllocated < nrFrames then vec.nrAllocated else nrFrames
    let calls := [.acquire .mmapSem]
    match mm.findVmaIntersection start (start + 1) with
    | none => some (leave true (-EFAULT) vec calls)
    | some vma =>
      if vma.fsdax then some (leave true (-EOPNOTSUPP) vec calls)
      else if !vma.ioOrPfnmap then
        let vec := { vec with gotRef := true, isPfns := false }
        match mm.getUserPagesLocked start nrFrames gupFlags with
        | (.error err, locked) =>
          some (leave locked err vec (calls ++ if locked then [] else [.release .mmapSem]))
        | (.ok pages, locked) =>
          (storeAll vec 0 pages).map fun vec =>
            leave locked pages.length vec
              (calls ++ pages.map (fun p => .acquire (.page p)) ++
                if locked then [] else [.release .mmapSem])
      else
        let vec := { vec with gotRef := false, isPfns := true }
        (followAreas K mm nrFrames.toNat (nrFrames.toNat + 1) vma start 0 vec).map fun r =>
          leave true r.1 r.2 calls

/-! ### Conversions -/

/-- The loop that replaces `n` words from an index on, in their place. -/
def convertLoop (f : UInt64 → UInt64) : Nat → Nat → FrameVector → Option FrameVector
  | 0, _, vec => some vec
  | n + 1, i, vec =>
    vec.ptrs[i]?.bind fun w => (vec.store i (f w)).bind fun vec => convertLoop f n (i + 1) vec

/-- The loop of `frame_vector_to_pages` that looks for a number that is not valid. -/
def allValid (pfnValid : UInt64 → Bool) (vec : FrameVector) : Nat → Nat → Option Bool
  | 0, _ => some true
  | n + 1, i => vec.ptrs[i]?.bind fun w =>
    if pfnValid w then allValid pfnValid vec n (i + 1) else some false

def frameVectorToPages (vec : FrameVector) : Option (Int × FrameVector) :=
  if !vec.isPfns then some (0, vec)
  else
    let vec := K.frameVectorPfns vec
    (allValid K.pfnValid vec vec.nrFrames.toNat 0).bind fun valid =>
      if !valid then some (-EINVAL, vec)
      else
        (convertLoop K.pfnToPage vec.nrFrames.toNat 0 vec).map fun vec =>
          (0, { vec with isPfns := false })

def frameVectorToPfns (vec : FrameVector) : Option FrameVector :=
  if vec.isPfns then some vec
  else
    (convertLoop K.pageToPfn vec.nrFrames.toNat 0 vec).map fun vec => { vec with isPfns := true }

/-! ### `put_vaddr_frames` -/

/-- The loop that puts `n` pages from an index on. -/
def putPages (vec : FrameVector) : Nat → Nat → Option (List (Entry Held))
  | 0, _ => some []
  | n + 1, i => vec.ptrs[i]?.bind fun p => (putPages vec n (i + 1)).map fun calls =>
      .release (.page p) :: calls

def putVaddrFrames (vec : FrameVector) : Option (FrameVector × List (Entry Held)) :=
  if !vec.gotRef then some ({ vec with nrFrames := 0 }, [])
  else
    match K.frameVectorPages vec with
    -- What `frame_vector_pages` returned an error for is the vector as it was.
    | .error _ => some ({ vec with nrFrames := 0 }, [])
    | .ok vec =>
      (putPages vec vec.nrFrames.toNat 0).map fun calls =>
        ({ vec with gotRef := false, nrFrames := 0 }, calls)

/-- `VM_BUG_ON` in `frame_vector_destroy` does not stop the kernel. -/
def FrameVector.destroyable (vec : FrameVector) : Bool := vec.nrFrames == 0

end Patrol.Compat
