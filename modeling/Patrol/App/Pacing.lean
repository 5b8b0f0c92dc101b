import Patrol.App.Receiving
import Patrol.Core.Pacing

/-! How often a session sends telemetry.  The session reads a clock that wraps after 2^32
milliseconds; the records that it sends are a second apart all the same. -/

namespace Patrol.App

open Network ProofKit

/-- `nowMs` at a reading of the steady clock, in milliseconds. -/
def nowMs (ms : Int) : UInt32 := Core.elapsedMs ms 0

/-- The record that is sent at a time. -/
def telemetry (ms : Int) : UInt8 × List UInt8 := (frameSensor, packSensor (sensorData (nowMs ms)))

def isTelemetry (f : UInt8 × List UInt8) : Bool := f.1 = frameSensor

/-- The wrapped clock does not show more time between two readings than has passed. -/
theorem nowMs_sub_le {now last : Int} (h : last ≤ now) :
    ((nowMs now - nowMs last).toNat : Int) ≤ now - last := by
  have hnow := Core.elapsedMs_toNat now 0
  have hlast := Core.elapsedMs_toNat last 0
  rw [UInt32.toNat_sub]
  unfold nowMs
  omega

/-- A second on the wrapped clock is a second. -/
theorem waited_of_nowMs {now last : Int} (h : last ≤ now) (hdue : 1000 ≤ nowMs now - nowMs last) :
    last + 1000 ≤ now := by
  have hle := nowMs_sub_le h
  have hcast : 1000 ≤ (nowMs now - nowMs last).toNat := UInt32.le_iff_toNat_le.mp hdue
  omega

theorem grabFrames_filter (t : Turn) : (grabFrames t).filter isTelemetry = [] := by
  unfold grabFrames
  cases t.grab with
  | none => rfl
  | some data =>
    show (if 0 < data.length then [(frameVideo, data)] else []).filter isTelemetry = []
    split <;> rfl

/-- The records among frames are those of some readings of a clock, a second apart, and the first a
second after `since`. -/
def Paced (clock : List Int) (since : Int) (fs : List (UInt8 × List UInt8)) : Prop :=
  ∃ times : List Int, times.Sublist clock ∧ Spaced 1000 times ∧ (∀ ms ∈ times, since + 1000 ≤ ms) ∧
    fs.filter isTelemetry = times.map telemetry

theorem paced_nil (clock : List Int) (since : Int) : Paced clock since [] :=
  ⟨[], List.nil_sublist _, spaced_nil, nofun, rfl⟩

/-- A reading at which no record is sent. -/
theorem Paced.skip {clock : List Int} {since : Int} {fs : List (UInt8 × List UInt8)}
    (h : Paced clock since fs) (ms : Int) : Paced (ms :: clock) since fs := by
  obtain ⟨times, hsub, hrest⟩ := h
  exact ⟨times, hsub.cons ms, hrest⟩

/-- A reading at which one is sent. -/
theorem Paced.cons {clock : List Int} {since ms : Int} {fs : List (UInt8 × List UInt8)}
    (h : Paced clock ms fs) (hms : since + 1000 ≤ ms) :
    Paced (ms :: clock) since (telemetry ms :: fs) := by
  obtain ⟨times, hsub, hspaced, hwait, hfilter⟩ := h
  refine ⟨ms :: times, hsub.cons_cons ms, List.pairwise_cons.mpr ⟨hwait, hspaced⟩, ?_, ?_⟩
  · refine List.forall_mem_cons.mpr ⟨hms, fun ms' hms' => ?_⟩
    have := hwait ms' hms'
    omega
  · rw [List.map_cons, ← hfilter]
    rfl

/-- Frames that are no records do not count. -/
theorem Paced.grab {clock : List Int} {since : Int} {fs : List (UInt8 × List UInt8)}
    (h : Paced clock since fs) (t : Turn) : Paced clock since (grabFrames t ++ fs) := by
  unfold Paced
  rw [List.filter_append, grabFrames_filter]
  exact h

/-- Nor are there more among fewer of them. -/
theorem Paced.sublist {clock : List Int} {since : Int} {fs fs' : List (UInt8 × List UInt8)}
    (h : Paced clock since fs) (hsub : fs'.Sublist fs) : Paced clock since fs' := by
  obtain ⟨times, hclock, hspaced, hwait, hfilter⟩ := h
  have hrecords := hsub.filter isTelemetry
  rw [hfilter] at hrecords
  obtain ⟨times', htimes, heq⟩ := List.sublist_map_iff.mp hrecords
  exact ⟨times', htimes.trans hclock, hspaced.sublist htimes,
    fun ms hms => hwait ms (htimes.subset hms), heq⟩

/-- The turns of a session ask for records that are paced. -/
theorem plan_paced {turns : List Turn} {clock : List Int} (hclock : clock.Pairwise (· ≤ ·))
    (hnow : turns.map Turn.now = clock.map nowMs) (grabFailCnt : UInt32) {lastSensorMs : UInt32}
    {since : Int} (hsince : ∀ ms ∈ clock, 1000 ≤ nowMs ms - lastSensorMs → since + 1000 ≤ ms) :
    Paced clock since (plan grabFailCnt lastSensorMs turns) := by
  induction turns generalizing clock grabFailCnt lastSensorMs since with
  | nil => exact paced_nil clock since
  | cons t turns ih =>
    cases clock with
    | nil => cases hnow
    | cons ms clock =>
      rw [List.map_cons, List.map_cons, List.cons_eq_cons] at hnow
      obtain ⟨hms, hclock⟩ := List.pairwise_cons.mp hclock
      obtain ⟨hfirst, hlater⟩ := List.forall_mem_cons.mp hsince
      rw [plan]
      split
      · exact paced_nil _ since
      split
      · exact paced_nil _ since
      apply Paced.grab
      unfold sensorFrames sensorMs
      rw [hnow.1]
      by_cases hdue : 1000 ≤ nowMs ms - lastSensorMs
      · -- the next record waits for this one
        rw [if_pos hdue, if_pos hdue]
        refine Paced.cons ?_ (hfirst hdue)
        split
        · exact ih hclock hnow.2 _ fun ms' hms' => waited_of_nowMs (hms ms' hms')
        · exact paced_nil clock ms
      · rw [if_neg hdue, if_neg hdue, List.nil_append]
        apply Paced.skip
        split
        · exact ih hclock hnow.2 _ hlater
        · exact paced_nil clock since

/-- A window in which a session starts and ends has a record for each second of it, and one more, at
most. -/
theorem Paced.length_le {clock : List Int} {since : Int} {fs : List (UInt8 × List UInt8)}
    (h : Paced clock since fs) {a b : Int} (hab : a ≤ b) (hclock : ∀ ms ∈ clock, a ≤ ms ∧ ms ≤ b) :
    ((fs.filter isTelemetry).length : Int) * 1000 ≤ b - a + 1000 := by
  obtain ⟨times, hsub, hspaced, -, hfilter⟩ := h
  rw [hfilter, List.length_map]
  exact hspaced.length_mul_le (by decide) hab fun ms hms => hclock ms (hsub.subset hms)

/-- So has a session, after its greeting. -/
theorem session_paced (cam : Camera) {turns : List Turn} {clock : List Int}
    (hclock : clock.Pairwise (· ≤ ·)) (hnow : turns.map Turn.now = clock.map nowMs) :
    ∃ since, Paced clock since (sessionFrames cam turns) := by
  -- the first record waits for nothing
  obtain ⟨start, hstart⟩ : ∃ start, ∀ ms ∈ clock, start ≤ ms := by
    cases clock with
    | nil => exact ⟨0, nofun⟩
    | cons ms clock =>
      exact ⟨ms, List.forall_mem_cons.mpr ⟨Int.le_refl ms, (List.pairwise_cons.mp hclock).1⟩⟩
  have hplan : Paced clock (start - 1000) (plan 0 0 turns) := by
    apply plan_paced hclock hnow
    intro ms hms _
    have := hstart ms hms
    omega
  exact ⟨start - 1000, hplan⟩

/-- However the clock wraps, and however the bytes of a session arrive, the telemetry records that
the receiver takes are those of readings of the clock that are a second apart; so a session that
takes some seconds gives no more records than there are seconds, and one. -/
theorem telemetry_paced (cam : Camera) {turns : List Turn} {clock : List Int}
    (hclock : clock.Pairwise (· ≤ ·)) (hnow : turns.map Turn.now = clock.map nowMs)
    (hgrab : ∀ t ∈ turns, ∀ data ∈ t.grab, data.length ≤ llMaxPayload.toNat)
    {sends : List SendResult}
    (hgreeting : ¬ ((greeting cam sends).ok = some false ∧ 0 < (greeting cam sends).count))
    {cs : List (Chunk UInt8 65536)}
    (hcs : cs.flatMap Chunk.bytes <+: wire (serveClient cam turns sends).2.log) :
    ∃ frames kept, receive [] cs = some (frames, kept) ∧
      (∃ times : List Int, times.Sublist clock ∧ Spaced 1000 times ∧
        frames.filter isTelemetry = times.map telemetry) ∧
      ∀ a b, a ≤ b → (∀ ms ∈ clock, a ≤ ms ∧ ms ≤ b) →
        ((frames.filter isTelemetry).length : Int) * 1000 ≤ b - a + 1000 := by
  obtain ⟨hsub, hpre, -⟩ := items_session hgrab hgreeting hcs
  have hreceive := receive_eq frameScanner.verdict_nil cs
  rw [List.nil_append] at hreceive
  refine ⟨_, _, hreceive, ?_⟩
  obtain ⟨since, hpaced⟩ := session_paced cam hclock hnow
  have hframes := hpaced.sublist (hpre.sublist.trans hsub)
  refine ⟨?_, fun a b hab hwin => hframes.length_le hab hwin⟩
  obtain ⟨times, htimes, hspaced, -, hfilter⟩ := hframes
  exact ⟨times, htimes, hspaced, hfilter⟩

/-- Readings of a clock that wraps between the records. -/
def wrapClock : List Int := [2 ^ 32 - 600, 2 ^ 32 - 100, 2 ^ 32 + 400]

def wrapTurns : List Turn := wrapClock.map fun ms => ⟨true, none, nowMs ms, ⟨[], .again⟩⟩

def wrapSends : List SendResult := List.replicate 6 (.wrote 90)

def wrapChunk : Chunk UInt8 65536 where
  bytes := wire (serveClient smallCamera wrapTurns wrapSends).2.log
  nonempty := by decide +kernel
  le_cap := by decide +kernel

theorem telemetry_paced_wrap :
    ∃ frames kept, receive [] [wrapChunk] = some (frames, kept) ∧
      ∃ times : List Int, times.Sublist wrapClock ∧ Spaced 1000 times ∧
        frames.filter isTelemetry = times.map telemetry := by
  obtain ⟨frames, kept, hreceive, htimes, -⟩ := @telemetry_paced smallCamera wrapTurns wrapClock
    (by decide) rfl (by decide) wrapSends (by decide +kernel) [wrapChunk]
    (List.flatMap_singleton Chunk.bytes wrapChunk ▸ List.prefix_rfl)
  exact ⟨frames, kept, hreceive, htimes⟩

end Patrol.App
