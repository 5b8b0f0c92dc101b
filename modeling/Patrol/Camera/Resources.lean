import Patrol.Camera.Streaming
import Patrol.ProofKit.Ledger

/-! The descriptors and mappings of the camera: what the manager has of them is what the system
calls so far have left to it. -/

namespace Patrol.Camera

open ProofKit

inductive Resource
  | descriptor (fd : Int)
  | mapping (b : MappedBuffer)
deriving DecidableEq, Repr

/-- A call as an entry of the ledger.  A mapping counts with its length. -/
def Call.entry : Call → Entry Resource
  | opened fd => .acquire (.descriptor fd)
  | closed fd => .release (.descriptor fd)
  | mapped b => .acquire (.mapping b)
  | unmapped b => .release (.mapping b)

def Driver.ledger (d : Driver) : List (Entry Resource) := d.calls.map Call.entry

/-- The test of `unmapBuffers`. -/
def MappedBuffer.isMapped (b : MappedBuffer) : Bool := b.start != 0 && b.start != mapFailed

namespace CameraManager

def descriptors (c : CameraManager) : Multiset Resource :=
  if 0 ≤ c.fd then {.descriptor c.fd} else 0

def mappings (c : CameraManager) : List Resource :=
  (c.buffers.filter MappedBuffer.isMapped).map .mapping

/-- What `close` would release. -/
def held (c : CameraManager) : Multiset Resource := c.descriptors + (c.mappings : Multiset Resource)

/-- The descriptor, where it is not negative, and the entries of `buffers_`. -/
def resources (c : CameraManager) : Multiset Resource :=
  c.descriptors + (c.buffers.map Resource.mapping : Multiset Resource)

end CameraManager

/-- What is live is what the manager holds. -/
structure Accounted (s : Video) : Prop where
  balanced : Ledger.Balanced s.driver.ledger
  live : Ledger.live s.driver.ledger = s.camera.held

/-- Every buffer is mapped. -/
def AllMapped (s : Video) : Prop := ∀ b ∈ s.camera.buffers, b.isMapped = true

theorem AllMapped.held {s : Video} (h : AllMapped s) : s.camera.held = s.camera.resources := by
  rw [CameraManager.held, CameraManager.mappings, List.filter_eq_self.mpr h]
  rfl

theorem allMapped_nil {s : Video} (h : s.camera.buffers = []) : AllMapped s := by
  rw [AllMapped, h]
  simp

theorem Driver.ledger_record (d : Driver) (c : Call) :
    (d.record c).ledger = d.ledger ++ [c.entry] :=
  List.map_append

/-! ### Operations that acquire and release nothing -/

/-- Neither the descriptor nor the buffers change, and no call is made that gives or takes one. -/
structure SameResources (s s' : Video) : Prop where
  fd : s'.camera.fd = s.camera.fd
  buffers : s'.camera.buffers = s.camera.buffers
  calls : s'.driver.calls = s.driver.calls

theorem SameResources.refl (s : Video) : SameResources s s := ⟨rfl, rfl, rfl⟩

theorem SameResources.trans {s s' s'' : Video} (h : SameResources s s')
    (h' : SameResources s' s'') : SameResources s s'' :=
  ⟨h'.fd.trans h.fd, h'.buffers.trans h.buffers, h'.calls.trans h.calls⟩

theorem SameResources.accounted {s s' : Video} (h : SameResources s s') (hs : Accounted s) :
    Accounted s' := by
  have hledger : s'.driver.ledger = s.driver.ledger := congrArg (List.map Call.entry) h.calls
  have hheld : s'.camera.held = s.camera.held := by
    simp only [CameraManager.held, CameraManager.descriptors, CameraManager.mappings, h.fd,
      h.buffers]
  exact ⟨hledger ▸ hs.balanced, by rw [hledger, hs.live, hheld]⟩

theorem SameResources.allMapped {s s' : Video} (h : SameResources s s') (hs : AllMapped s) :
    AllMapped s' := by
  rw [AllMapped, h.buffers]
  exact hs

namespace Driver

theorem qbuf_calls (d : Driver) (ok : Bool) (index : Nat) :
    (d.qbuf ok index).1.calls = d.calls := by
  rw [qbuf]
  split <;> rfl

theorem dqbuf_calls (d : Driver) (filled : Option (UInt32 × UInt32)) :
    (d.dqbuf filled).1.calls = d.calls := by
  rcases filled with - | ⟨index, bytesused⟩
  · rfl
  · simp only [dqbuf]
    split <;> rfl

theorem streamOff_calls (d : Driver) (ok : Bool) : (d.streamOff ok).calls = d.calls := by
  rw [streamOff]
  split <;> rfl

end Driver

namespace Video

theorem stopStreaming_resources (s : Video) (streamOff : Bool) :
    SameResources s (s.stopStreaming streamOff) := by
  rw [stopStreaming]
  split
  · exact SameResources.refl s
  · exact ⟨rfl, rfl, Driver.streamOff_calls _ _⟩

theorem requeue_resources (s : Video) (ok : Bool) (index : Int32) :
    SameResources s (s.requeue ok index).1 :=
  ⟨rfl, rfl, Driver.qbuf_calls _ _ _⟩

theorem requeueFrom_resources (s : Video) (qbuf : Nat → Bool) (i n : Nat) :
    SameResources s (s.requeueFrom qbuf i n).1 := by
  induction n generalizing s i with
  | zero => exact SameResources.refl s
  | succ n ih =>
    have hfirst := requeue_resources s (qbuf i) (Int32.ofNat i)
    rw [requeueFrom]
    split
    · next s₁ heq =>
      rw [heq] at hfirst
      exact hfirst.trans (ih s₁ (i + 1))
    · next s₁ heq =>
      rw [heq] at hfirst
      exact hfirst

theorem startStreaming_resources (s : Video) (o : StartOutcome) :
    SameResources s (s.startStreaming o).1 := by
  have hloop := requeueFrom_resources s o.qbuf 0 s.camera.buffers.length
  rw [startStreaming]
  split
  · exact SameResources.refl s
  · split
    · next s₁ heq =>
      rw [heq] at hloop
      exact hloop
    · next s₁ heq =>
      rw [heq] at hloop
      split
      · exact hloop
      · exact hloop.trans ⟨rfl, rfl, rfl⟩

theorem giveBack_resources (s : Video) (qbuf : Bool) : SameResources s (s.giveBack qbuf).1 := by
  have hrequeue := requeue_resources s qbuf s.camera.lastIndex
  rw [giveBack]
  split
  · split
    · next s₁ heq =>
      rw [heq] at hrequeue
      exact hrequeue.trans ⟨rfl, rfl, rfl⟩
    · next s₁ heq =>
      rw [heq] at hrequeue
      exact hrequeue
  · exact SameResources.refl s

theorem takeFrame_resources (s : Video) (filled : Option (UInt32 × UInt32)) :
    SameResources s (s.takeFrame filled).1 := by
  have hcalls := Driver.dqbuf_calls s.driver filled
  rw [takeFrame]
  split
  · next d heq =>
    rw [heq] at hcalls
    exact ⟨rfl, rfl, hcalls⟩
  · next d index bytesused heq =>
    rw [heq] at hcalls
    exact ⟨rfl, rfl, hcalls⟩

theorem grabFrame_resources (s : Video) (o : GrabOutcome) : SameResources s (s.grabFrame o).1 := by
  have hback := giveBack_resources s o.qbuf
  rw [grabFrame]
  split
  · exact SameResources.refl s
  · split
    · next s₁ heq =>
      rw [heq] at hback
      exact hback
    · next s₁ heq =>
      rw [heq] at hback
      split
      · exact hback
      · split
        · exact hback
        · exact hback.trans (takeFrame_resources s₁ o.dqbuf)

end Video

/-! ### `close` -/

namespace Video

theorem unmapped_ledger (bs : List MappedBuffer) (d : Driver) :
    (bs.foldl (fun d b => d.record (.unmapped b)) d).ledger =
      d.ledger ++ (bs.map Resource.mapping).map .release := by
  induction bs generalizing d with
  | nil => exact (List.append_nil _).symm
  | cons b bs ih =>
    rw [List.foldl_cons, ih, Driver.ledger_record, List.append_assoc]
    rfl

theorem unmapBuffers_accounted {s : Video} (h : Accounted s) : Accounted s.unmapBuffers := by
  have hledger : s.unmapBuffers.driver.ledger =
      s.driver.ledger ++ s.camera.mappings.map .release := unmapped_ledger _ _
  obtain ⟨hbalanced, hlive⟩ := h.balanced.releaseAll s.camera.mappings h.live
  rw [← hledger] at hbalanced hlive
  exact ⟨hbalanced, hlive.trans (Multiset.add_zero s.camera.descriptors).symm⟩

theorem closeDescriptor_accounted {s : Video} (h : Accounted s) (hfd : 0 ≤ s.camera.fd)
    (hbuffers : s.camera.buffers = []) :
    Accounted { camera := { s.camera with fd := -1 }, driver := s.driver.close s.camera.fd } := by
  have hheld : Ledger.live s.driver.ledger = 0 + ([.descriptor s.camera.fd] : List Resource) := by
    rw [h.live, CameraManager.held, CameraManager.descriptors, if_pos hfd, CameraManager.mappings,
      hbuffers]
    exact Multiset.add_comm _ _
  obtain ⟨hbalanced, hlive⟩ := h.balanced.releaseAll _ hheld
  have hledger : (s.driver.close s.camera.fd).ledger =
      s.driver.ledger ++ [.release (.descriptor s.camera.fd)] := Driver.ledger_record _ _
  refine ⟨by rw [hledger]; exact hbalanced, ?_⟩
  rw [hledger]
  refine hlive.trans ?_
  simp [CameraManager.held, CameraManager.descriptors, CameraManager.mappings, hbuffers]

theorem close_accounted {s : Video} (h : Accounted s) (streamOff : Bool) :
    Accounted (s.close streamOff) := by
  have hstop : Accounted (if s.camera.streaming then s.stopStreaming streamOff else s) := by
    split
    · exact (stopStreaming_resources s streamOff).accounted h
    · exact h
  simp only [close]
  generalize (if s.camera.streaming then s.stopStreaming streamOff else s) = s₁ at hstop ⊢
  have hunmap := unmapBuffers_accounted hstop
  split
  · next hfd =>
    refine SameResources.accounted ?_ (closeDescriptor_accounted hunmap hfd rfl)
    exact ⟨rfl, rfl, rfl⟩
  · refine SameResources.accounted ?_ hunmap
    exact ⟨rfl, rfl, rfl⟩

/-- After `close` nothing is held. -/
theorem close_releases (s : Video) (streamOff : Bool) :
    (s.close streamOff).camera.fd < 0 ∧ (s.close streamOff).camera.buffers = [] := by
  simp only [close]
  generalize (if s.camera.streaming then s.stopStreaming streamOff else s) = s₁
  split
  · exact ⟨Int.negSucc_lt_zero 0, rfl⟩
  · next hfd => exact ⟨Int.not_le.mp hfd, rfl⟩

/-- The descriptor is closed. -/
theorem close_fd {s : Video} (h : 0 ≤ s.camera.fd) (streamOff : Bool) :
    (s.close streamOff).camera.fd = -1 := by
  have hfd : 0 ≤ (if s.camera.streaming then s.stopStreaming streamOff else s).camera.fd := by
    split
    · rwa [(stopStreaming_resources s streamOff).fd]
    · exact h
  simp only [close]
  generalize (if s.camera.streaming then s.stopStreaming streamOff else s) = s₁ at hfd ⊢
  rw [if_pos (show 0 ≤ s₁.unmapBuffers.camera.fd from hfd)]

/-! ### `open` -/

/-- The first `i` buffers are mapped, and the `n` others are as `resize` made them. -/
def Filled (s : Video) (i n : Nat) : Prop :=
  ∃ bs : List MappedBuffer, s.camera.buffers = bs ++ List.replicate n ({} : MappedBuffer) ∧
    bs.length = i ∧ ∀ b ∈ bs, b.isMapped = true

theorem isMapped_of_mmap {o : OpenOutcome} (hnull : ∀ i, o.mmap i ≠ 0) {i : Nat} {length : UInt32}
    (h : ¬ (o.mmap i == mapFailed) = true) : MappedBuffer.isMapped ⟨o.mmap i, length⟩ = true := by
  simpa [MappedBuffer.isMapped, hnull i] using h

/-- One turn of the loop of `open`: the new mapping is live, and its buffer holds it. -/
theorem mapBuffer_accounted {s : Video} {i n : Nat} {b : MappedBuffer} (h : Accounted s)
    (hs : Filled s i (n + 1)) (hb : b.isMapped = true) :
    Accounted { camera := { s.camera with buffers := s.camera.buffers.set i b }
                driver := s.driver.record (.mapped b) } ∧
      Filled { camera := { s.camera with buffers := s.camera.buffers.set i b }
               driver := s.driver.record (.mapped b) } (i + 1) n := by
  obtain ⟨bs, hbuffers, rfl, hbs⟩ := hs
  have hset : s.camera.buffers.set bs.length b =
      bs ++ b :: List.replicate n ({} : MappedBuffer) := by
    rw [hbuffers, List.set_append_right _ _ (Nat.le_refl _), Nat.sub_self]
    rfl
  have hempty : ∀ n, (List.replicate n ({} : MappedBuffer)).filter MappedBuffer.isMapped = [] := by
    intro n
    rw [List.filter_replicate]
    rfl
  rw [hset]
  refine ⟨⟨?_, ?_⟩, bs ++ [b], ?_, ?_, ?_⟩
  · rw [Driver.ledger_record]
    exact h.balanced.acquire _
  · rw [Driver.ledger_record, Call.entry, Ledger.live_concat, Ledger.post, h.live]
    simp only [CameraManager.held, CameraManager.descriptors, CameraManager.mappings, hbuffers,
      List.filter_append, hempty, List.append_nil, List.filter_cons_of_pos hb, List.map_append,
      List.map_cons, List.map_nil, ← Multiset.coe_add]
    rw [← Multiset.cons_coe, Multiset.coe_nil, Multiset.add_cons, Multiset.add_cons,
      Multiset.add_zero]
  · simp
  · simp
  · simpa [or_imp, forall_and] using ⟨hbs, hb⟩

theorem mapBuffers_accounted {s : Video} {o : OpenOutcome} (hnull : ∀ i, o.mmap i ≠ 0) {i n : Nat}
    (h : Accounted s) (hs : Filled s i n) :
    Accounted (s.mapBuffers o i n).1 ∧
      ((s.mapBuffers o i n).2 = true → AllMapped (s.mapBuffers o i n).1) := by
  induction n generalizing s i with
  | zero =>
    obtain ⟨bs, hbuffers, -, hbs⟩ := hs
    refine ⟨h, fun _ => ?_⟩
    rw [AllMapped, mapBuffers, hbuffers, List.replicate_zero, List.append_nil]
    exact hbs
  | succ n ih =>
    rw [mapBuffers]
    split
    · exact ⟨h, fun hok => absurd hok Bool.false_ne_true⟩
    · next length hlength =>
      dsimp only
      split
      · exact ⟨h, fun hok => absurd hok Bool.false_ne_true⟩
      · next hmapped =>
        obtain ⟨hnext, hfilled⟩ := mapBuffer_accounted h hs (isMapped_of_mmap hnull hmapped)
        exact ih hnext hfilled

theorem held_unmapped {c : CameraManager} (h : c.mappings = []) : c.held = c.descriptors := by
  rw [CameraManager.held, h]
  exact Multiset.add_zero _

theorem accounted_of_unmapped {s : Video} (hbalanced : Ledger.Balanced s.driver.ledger)
    (hmappings : s.camera.mappings = [])
    (hlive : Ledger.live s.driver.ledger = s.camera.descriptors) : Accounted s :=
  ⟨hbalanced, hlive.trans (held_unmapped hmappings).symm⟩

theorem mappings_nil {c : CameraManager} (h : c.buffers = []) : c.mappings = [] := by
  rw [CameraManager.mappings, h]
  rfl

theorem mappings_resize {c : CameraManager} {n : Nat} (h : c.buffers = List.replicate n {}) :
    c.mappings = [] := by
  rw [CameraManager.mappings, h, List.filter_replicate]
  rfl

/-- Buffers that are not mapped hold nothing. -/
theorem resize_accounted {s s' : Video} (h : Accounted s) (hbuffers : s.camera.buffers = [])
    (hfd : s'.camera.fd = s.camera.fd) (hdriver : s'.driver = s.driver)
    (hmappings : s'.camera.mappings = []) : Accounted s' := by
  apply accounted_of_unmapped _ hmappings
  · rw [hdriver, h.live, held_unmapped (mappings_nil hbuffers), CameraManager.descriptors,
      CameraManager.descriptors, hfd]
  · rw [hdriver]
    exact h.balanced

theorem setUp_accounted {s : Video} {o : OpenOutcome} (hnull : ∀ i, o.mmap i ≠ 0) (h : Accounted s)
    (hbuffers : s.camera.buffers = []) (fps : Int32) :
    Accounted (s.setUp fps o).1 ∧ ((s.setUp fps o).2 = true → AllMapped (s.setUp fps o).1) := by
  obtain ⟨s₁, hsame, hdriver, ⟨hfail, hkept⟩ | ⟨count, -, -, hresized, hloop⟩⟩ :=
    setUp_parts s fps o
  · rw [hfail]
    refine ⟨?_, fun hok => absurd hok Bool.false_ne_true⟩
    exact resize_accounted h hbuffers hsame.fd hdriver (mappings_nil (hkept.trans hbuffers))
  · rw [hloop]
    apply mapBuffers_accounted hnull
    · exact resize_accounted h hbuffers hsame.fd hdriver (mappings_resize hresized)
    · exact ⟨[], hresized, rfl, by simp⟩

theorem open_accounted {s : Video} {o : OpenOutcome} (hnull : ∀ i, o.mmap i ≠ 0) (h : Accounted s)
    (streamOff : Bool) (device : List UInt8) (width height fps : Int32) :
    Accounted (s.open streamOff device width height fps o).1 ∧
      AllMapped (s.open streamOff device width height fps o).1 := by
  have hclose := close_accounted h streamOff
  obtain ⟨hfd, hbuffers⟩ := close_releases s streamOff
  simp only [Video.open]
  generalize s.close streamOff = s₁ at hclose hfd hbuffers ⊢
  have hmappings := mappings_nil hbuffers
  have hnothing : Ledger.live s₁.driver.ledger = 0 :=
    (hclose.live.trans (held_unmapped hmappings)).trans (if_neg (Int.not_le.mpr hfd))
  split
  · next hneg =>
    refine ⟨accounted_of_unmapped hclose.balanced hmappings ?_, allMapped_nil hbuffers⟩
    exact hnothing.trans (if_neg (Int.not_le.mpr hneg)).symm
  · next hopened =>
    have hacquired : Accounted (withDriver { s₁ with camera := { s₁.camera with
        device := device, fd := o.fd } } (s₁.driver.record (.opened o.fd))) := by
      refine accounted_of_unmapped ?_ ?_ ?_
      · rw [withDriver, Driver.ledger_record]
        exact hclose.balanced.acquire _
      · exact hmappings
      · rw [withDriver, Driver.ledger_record, Call.entry, Ledger.live_concat, hnothing]
        exact (if_pos (Int.not_lt.mp hopened)).symm
    obtain ⟨hset, hmapped⟩ := setUp_accounted hnull hacquired hbuffers fps
    split
    · next s₂ heq =>
      rw [heq] at hset hmapped
      exact ⟨hset, hmapped rfl⟩
    · next s₂ heq =>
      rw [heq] at hset
      exact ⟨close_accounted hset streamOff, allMapped_nil (close_releases s₂ streamOff).2⟩

end Video

/-! ### Every history -/

/-- What `::open` and `mmap` can return: a failed `::open` returns -1, and no mapping is at the null
address. -/
structure OpenOutcome.Possible (o : OpenOutcome) : Prop where
  fd : o.fd < 0 → o.fd = -1
  mmap : ∀ i, o.mmap i ≠ 0

def Op.Possible : Op → Prop
  | .open _ _ _ _ _ o => o.Possible
  | _ => True

/-- A call of `open` that fails leaves the manager as one that has never been open. -/
theorem Video.open_failed {s s' : Video} (h : Sound s) {streamOff : Bool} {device : List UInt8}
    {width height fps : Int32} {o : OpenOutcome} (ho : o.Possible)
    (hopen : s.open streamOff device width height fps o = (s', false)) :
    s'.camera.fd = -1 ∧ s'.camera.buffers = [] ∧ s'.camera.streaming = false ∧
      s'.camera.lastIndex = -1 := by
  obtain ⟨hlast, hstream, -, ⟨-, hshut⟩ | ⟨hok, -⟩⟩ := open_cases h.open_or_shut hopen
  · refine ⟨?_, hshut.buffers, hstream, hlast⟩
    simp only [Video.open] at hopen
    split at hopen
    · next hneg =>
      cases hopen
      exact ho.fd hneg
    · next hopened =>
      split at hopen
      · cases hopen
      · next s₁ hset =>
        obtain ⟨⟨hfd, -, -, -⟩, -⟩ := setUp_cases hset
        cases hopen
        apply close_fd
        rw [hfd]
        exact Int.not_lt.mp hopened
  · cases hok

theorem accounted_run {ops : List Op} (hops : ∀ op ∈ ops, op.Possible) :
    Accounted (machine.run ops) ∧ AllMapped (machine.run ops) := by
  apply machine.run_invariant_of_legal (I := fun s => Accounted s ∧ AllMapped s) (L := Op.Possible)
    _ _ hops
  · exact ⟨⟨Ledger.balanced_nil, rfl⟩, allMapped_nil rfl⟩
  · rintro s op hop ⟨hacc, hmapped⟩
    match op with
    | .open streamOff device width height fps o =>
      exact Video.open_accounted hop.mmap hacc streamOff device width height fps
    | .startStreaming o =>
      have hsame := s.startStreaming_resources o
      exact ⟨hsame.accounted hacc, hsame.allMapped hmapped⟩
    | .grabFrame o =>
      have hsame := s.grabFrame_resources o
      exact ⟨hsame.accounted hacc, hsame.allMapped hmapped⟩
    | .stopStreaming streamOff =>
      have hsame := s.stopStreaming_resources streamOff
      exact ⟨hsame.accounted hacc, hsame.allMapped hmapped⟩
    | .close streamOff =>
      exact ⟨Video.close_accounted hacc streamOff, allMapped_nil (s.close_releases streamOff).2⟩

/-- After a history nothing has been released that was not live, each resource has been acquired as
often as it has been released and is live, what is live is the descriptor and the buffers of the
manager, and a call of `open` that fails leaves nothing behind. -/
structure ResourcesKept (ops : List Op) : Prop where
  balanced : Ledger.Balanced (machine.run ops).driver.ledger
  counted : ∀ r : Resource,
    (machine.run ops).driver.ledger.count (.release r) +
        (Ledger.live (machine.run ops).driver.ledger).count r =
      (machine.run ops).driver.ledger.count (.acquire r)
  live : Ledger.live (machine.run ops).driver.ledger = (machine.run ops).camera.resources
  failed : ∀ (streamOff : Bool) (device : List UInt8) (width height fps : Int32) (o : OpenOutcome)
    (s' : Video), o.Possible →
    (machine.run ops).open streamOff device width height fps o = (s', false) →
      s'.camera.fd = -1 ∧ s'.camera.buffers = [] ∧ s'.camera.streaming = false ∧
        s'.camera.lastIndex = -1

theorem resources_kept {ops : List Op} (hops : ∀ op ∈ ops, op.Possible) : ResourcesKept ops := by
  obtain ⟨⟨hbalanced, hlive⟩, hmapped⟩ := accounted_run hops
  refine ⟨hbalanced, hbalanced.count, hlive.trans hmapped.held, ?_⟩
  intro streamOff device width height fps o s' ho hopen
  exact Video.open_failed (sound_run ops) ho hopen

/-- The second buffer is at `second`. -/
def twoMapped (second : UInt64) : OpenOutcome :=
  { twoBuffers with mmap := fun i => if i = 0 then 0x1000 else second }

theorem twoMapped_possible {second : UInt64} (h : second ≠ 0) : (twoMapped second).Possible := by
  have hfd : ¬ (3 : Int) < 0 := by decide
  refine ⟨fun hneg => absurd hneg hfd, fun i => ?_⟩
  simp only [twoMapped]
  split
  · decide
  · exact h

/-- The camera is opened again while it streams, and its second buffer cannot be mapped. -/
def reopened : List Op :=
  [.open true [] 640 480 30 (twoMapped 0x2000), .startStreaming ⟨fun _ => true, true⟩,
    .open true [] 640 480 30 (twoMapped mapFailed)]

theorem resources_kept_reopened : ResourcesKept reopened := by
  have hfirst : (twoMapped 0x2000).Possible := twoMapped_possible (by decide)
  have hagain : (twoMapped mapFailed).Possible := twoMapped_possible (by decide)
  apply resources_kept
  simp [reopened, Op.Possible, hfirst, hagain]

/-- Three mappings and two descriptors have been released, and nothing is live. -/
example : (machine.run reopened).driver.calls =
    [.opened 3, .mapped ⟨0x1000, 4096⟩, .mapped ⟨0x2000, 4096⟩, .unmapped ⟨0x1000, 4096⟩,
      .unmapped ⟨0x2000, 4096⟩, .closed 3, .opened 3, .mapped ⟨0x1000, 4096⟩,
      .unmapped ⟨0x1000, 4096⟩, .closed 3] := by decide

end Patrol.Camera
