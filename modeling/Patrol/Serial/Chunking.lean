import Patrol.Serial.Sessions

/-! The loop of `poll` and the cutting of the stream into reads.  The loop stops in front of bytes
that it can decide nothing about, so it accepts the same frames wherever the reads end, and what it
keeps is short. -/

namespace Patrol.Serial

open ProofKit

/-- The loop of `poll` on a whole buffer: the calls it makes and the index at which it ends. -/
def scanLoop (rxBuf : List UInt8) : Option (List RxCall × Nat) :=
  indexLoop (scanStep wrapping rxBuf) (rxBuf.length + 1) 0

/-- The LEN byte of the frame that a call is for. -/
def RxCall.len (c : RxCall) : Option UInt8 := c.rxBuf[c.off + 2]?

theorem len_of_take {b : List UInt8} {off n : Nat} {e : Received}
    (h : serialScanner.verdict (b.drop off) = .take n e) : b[off + 2]? = some e.len := by
  obtain ⟨-, body, hstarts, -⟩ := serialVerdict_take h
  obtain ⟨c, hc⟩ := hstarts.starts
  rw [← List.getElem?_drop, ← hc]
  rfl

/-- The loop accepts the frames of the scan of its buffer, and ends where the scan does. -/
theorem scanLoop_eq (b : List UInt8) :
    ∃ found, scanLoop b = some (found, serialScanner.consumed b) ∧
      found.map (fun c => (c.off, c.len)) =
        (located 0 (serialScanner.scan b).1).map fun x => (x.1, some x.2.len) := by
  have hbody : ∀ off ≤ b.length, scanStep wrapping b off =
      (serialScanner.verdict (b.drop off)).mapM fun e =>
        some ⟨b, off, e.cmd, off + 4, ((wrappingSub e.len.toNat 1).getD 0)⟩ := by
    intro off hoff
    exact scanStep_eq wrapping hoff
  refine ⟨_, indexLoop_total serialScanner hbody, ?_⟩
  rw [List.map_map]
  apply List.map_congr_left
  rintro ⟨s, e⟩ hx
  obtain ⟨t, rfl, -, n, htake⟩ := (serialScanner.mem_located 0).mp hx
  rw [Nat.zero_add]
  exact congrArg (Prod.mk t) (len_of_take htake)

/-- However a stream is cut into reads, a run from an empty buffer accepts the frames that the loop
accepts in the whole stream, at their offsets, and leaves what the loop leaves of it. -/
theorem poll_chunking (b : List UInt8) :
    ∃ found off, scanLoop b = some (found, off) ∧
      ∀ rs, rs.flatMap ReadResult.bytes = b → ∀ (fd : Nat) cb, ∃ log s',
        pollRun rs { fd := fd, rxCb := cb } 0 = some (log, s') ∧
          s'.rxBuf = (if 0 < off then b.drop off else b) ∧
          (cb = true →
            log.map (fun d => (d.1, d.2.len)) = found.map fun c => (c.off, c.len)) := by
  obtain ⟨found, hloop, hfound⟩ := scanLoop_eq b
  refine ⟨found, _, hloop, ?_⟩
  intro rs hrs fd cb
  have hs : SerialManager.Ready { fd := fd, rxCb := cb } := ⟨Int.natCast_nonneg fd, rfl⟩
  obtain ⟨⟨log, s'⟩, hrun⟩ := Option.isSome_iff_exists.mp (pollRun_isSome rs hs 0)
  have hlast := pollRunWith_manager hs hrun
  rw [List.nil_append, hrs] at hlast
  refine ⟨log, s', hrun, by rw [hlast, serialScanner.erase_consumed], ?_⟩
  intro hcb
  have hcalls := (pollRunWith_calls hs hcb hrun).2
  rw [List.nil_append, hrs] at hcalls
  rw [hfound, ← List.forall₂_eq_eq_eq, List.forall₂_map_left_iff, List.forall₂_map_right_iff]
  apply hcalls.flip.imp
  intro d x hcall
  obtain ⟨n, htake⟩ := hcall.taken
  exact Prod.ext hcall.position (len_of_take htake)

/-! ### What a poll keeps -/

/-- Fewer than five bytes, or the start bytes of a frame that is not whole. -/
def Resting (b : List UInt8) : Prop :=
  b.length < 5 ∨ ∃ len body, b = sof1 :: sof2 :: len :: body ∧ b.length < len.toNat + 4

theorem resting_of_wait {b : List UInt8} (h : serialScanner.verdict b = .wait) : Resting b := by
  rcases serialVerdict_wait h with hshort | ⟨len, body, rfl, hlen⟩
  · exact .inl hshort
  · refine .inr ⟨len, body, rfl, ?_⟩
    simp only [List.length_cons]
    omega

theorem scanLoop_wait {b : List UInt8} (h : serialScanner.verdict b = .wait) :
    scanLoop b = some ([], 0) := by
  obtain ⟨found, hloop, hfound⟩ := scanLoop_eq b
  rw [serialScanner.scan_wait h] at hfound
  rw [hloop, List.map_eq_nil_iff.mp hfound, serialScanner.consumed_eq, serialScanner.scan_wait h]
  rfl

/-- The loop ends on every buffer.  After every history a poll leaves a buffer that is at rest, with
at most 258 bytes, on which the loop makes no call and stays where it is. -/
theorem rxBuf_bounded :
    (∀ b, (scanLoop b).isSome) ∧
      ∀ (history : List Op) (r : ReadResult), ∃ s o, run history {} = some s ∧
        s.poll r = some o ∧ Resting o.manager.rxBuf ∧ o.manager.rxBuf.length ≤ 258 ∧
          scanLoop o.manager.rxBuf = some ([], 0) := by
  constructor
  · intro b
    obtain ⟨found, hloop, -⟩ := scanLoop_eq b
    rw [hloop]
    rfl
  · intro history r
    obtain ⟨s, hrun, hw⟩ := run_wait history (s := {}) rfl
    obtain ⟨s', hstep, hw'⟩ := step_wait hw (.poll r)
    obtain ⟨o, hpoll, rfl⟩ := Option.map_eq_some_iff.mp hstep
    exact ⟨s, o, hrun, hpoll, resting_of_wait hw', Nat.le_of_lt_succ (length_of_wait hw'),
      scanLoop_wait hw'⟩

end Patrol.Serial
