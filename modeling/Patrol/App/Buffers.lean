import Patrol.App.WireIntegrity
import Patrol.Network.PayloadLimit
import Patrol.Network.Receiver

/-! The bytes that are kept between reads, in a session and in the receiver: less than one frame of the
longest kind. -/

namespace Patrol.App

open Network ProofKit

/-- What is kept is the beginning of a frame, if it is not too short for a header. -/
def Waiting (s : Session) : Prop := frameScanner.verdict s.rxBuf = .wait

/-- A part of a turn leaves a session that waits, unless it has seen the connection end. -/
def LeavesWaiting : Except (SessionEnd × Session) Session → Prop
  | .ok s => Waiting s
  | .error e => e.1 ≠ .peerGone → Waiting e.2

theorem LeavesWaiting.bind {r : Except (SessionEnd × Session) Session}
    {f : Session → Except (SessionEnd × Session) Session} (hr : LeavesWaiting r)
    (hf : ∀ s, Waiting s → LeavesWaiting (f s)) : LeavesWaiting (r >>= f) := by
  cases r with
  | ok s => exact hf s hr
  | error e => exact hr

theorem sendOrBreak_waiting (type : UInt8) (payload : List UInt8) {s : Session} (h : Waiting s) :
    LeavesWaiting (sendOrBreak type payload s) := by
  unfold sendOrBreak onSocket
  cases (sendFrame type payload s.sends).ret with
  | none => exact fun _ => h
  | some ok =>
    cases ok with
    | true => exact h
    | false => exact fun _ => h

theorem serveGrab_waiting (t : Turn) {s : Session} (h : Waiting s) :
    LeavesWaiting (serveGrab t s) := by
  unfold serveGrab
  cases t.grab with
  | some data =>
    dsimp only
    split
    · exact sendOrBreak_waiting frameVideo data h
    · exact h
  | none =>
    dsimp only
    split
    · exact fun _ => h
    · exact h

theorem serveSensor_waiting (t : Turn) {s : Session} (h : Waiting s) :
    LeavesWaiting (serveSensor t s) := by
  unfold serveSensor
  split
  · exact sendOrBreak_waiting frameSensor _ h
  · exact h

theorem servePoll_waiting (t : Turn) (s : Session) : LeavesWaiting (servePoll t s) := by
  unfold servePoll
  by_cases hlast : t.reads.last = .again
  · have hrc : ¬ (t.reads.bytes.length : Int) < 0 := by omega
    simp only [pollCommands_again hlast, if_neg hrc]
    exact frameScanner.verdict_rest _
  · obtain ⟨rc, hrc, hpoll⟩ := pollCommands_ended hlast s.rxBuf []
    simp only [hpoll, if_pos hrc]
    exact fun h => absurd rfl h

theorem serveTurn_waiting (t : Turn) {s : Session} (h : Waiting s) :
    LeavesWaiting (serveTurn t s) := by
  cases hrun : t.running with
  | false =>
    rw [serveTurn, hrun]
    exact fun _ => h
  | true =>
    rw [serveTurn_running hrun]
    exact (serveGrab_waiting t h).bind fun s₁ h₁ =>
      (serveSensor_waiting t h₁).bind fun s₂ _ => servePoll_waiting t s₂

theorem serveLoop_waiting (turns : List Turn) {s : Session} (h : Waiting s)
    (hend : (serveLoop turns s).1 ≠ .peerGone) : Waiting (serveLoop turns s).2 := by
  induction turns generalizing s with
  | nil => exact h
  | cons t ts ih =>
    have hturn := serveTurn_waiting t h
    rw [serveLoop] at hend ⊢
    cases hresult : serveTurn t s with
    | ok s' =>
      rw [hresult] at hturn hend
      exact ih hturn hend
    | error e =>
      rw [hresult] at hturn hend
      exact hturn hend

theorem serveClient_waiting (cam : Camera) (turns : List Turn) (sends : List SendResult)
    (hend : (serveClient cam turns sends).1 ≠ .peerGone) :
    Waiting (serveClient cam turns sends).2 := by
  have hfirst : Waiting { sends } := frameScanner.verdict_nil
  unfold serveClient at hend ⊢
  dsimp only at hend ⊢
  split at hend
  · next hstart =>
    rw [if_pos hstart]
    exact hfirst
  · next hstart =>
    rw [if_neg hstart]
    unfold onSocket at hend ⊢
    cases hret : (sendText (readyText cam) sends).ret with
    | none => exact hfirst
    | some ok =>
      simp only [hret] at hend
      refine serveLoop_waiting turns ?_ hend
      exact hfirst

/-- A session keeps less than the longest frame until it sees the connection end, and so does the
receiver after every read. -/
theorem kept_bounded (cam : Camera) (turns : List Turn) (sends : List SendResult)
    (cs : List (Chunk UInt8 65536)) :
    ((serveClient cam turns sends).1 ≠ .peerGone →
      (serveClient cam turns sends).2.rxBuf.length < 6 + llMaxPayload.toNat) ∧
    ∃ stats kept, kept.length < 6 + llMaxPayload.toNat ∧ ∀ out, receiveInto out cs [] {} =
      if ∀ f ∈ frameScanner.items (cs.flatMap Chunk.bytes), out.line f then some (stats, kept)
      else none := by
  constructor
  · intro hend
    exact (resting_of_wait (serveClient_waiting cam turns sends hend)).length_lt
  · have hrest := (resting_of_wait
      (frameScanner.verdict_rest (cs.flatMap Chunk.bytes))).length_lt
    refine ⟨Stats.tally {} (frameScanner.items (cs.flatMap Chunk.bytes)),
      dropNoise (frameScanner.rest (cs.flatMap Chunk.bytes)), Nat.lt_of_le_of_lt ?_ hrest,
      fun out => (receiveInto_items out cs).trans ?_⟩
    · exact (List.dropWhile_sublist _).length_le
    · rw [Stdout.count]
      exact if_congr List.all_eq_true rfl rfl

end Patrol.App
