import Patrol.Network.Receiver

/-! The link test: what `test/link_test.cpp` sends to a client, and what the receiver says of it. -/

namespace Patrol.Network

open ProofKit

/-- `"✅ link_test 就绪"` in UTF-8 -/
def linkText : List UInt8 :=
  [0xE2, 0x9C, 0x85, 0x20, 0x6C, 0x69, 0x6E, 0x6B, 0x5F, 0x74, 0x65, 0x73, 0x74, 0x20, 0xE5, 0xB0,
    0xB1, 0xE7, 0xBB, 0xAA]

def linkSensor : SensorData :=
  { timestamp_ms := 123456, temperature_01c := 256, humidity_01 := 488, voltage_mV := 12000,
    mode := 3, risk_level := 0 }

/-- The video frame of turn `i`. -/
def linkJpg (i : Nat) : List UInt8 :=
  [0xFF, 0xD8, 0xFF, 0xE0] ++ (List.range 64).map (fun k => UInt8.ofNat (i + k)) ++ [0xFF, 0xD9]

/-- The loop of `main` from turn `i` on, with `left` turns left. -/
def linkVideos : Nat → Nat → List SendResult → SendOut
  | 0, _, rs => ⟨some true, [], rs⟩
  | left + 1, i, rs =>
    let video := sendFrame frameVideo (linkJpg i) rs
    if video.ret = some true then
      let more := linkVideos left (i + 1) video.rest
      { more with accepted := video.accepted ++ more.accepted }
    else video

/-- What `main` sends to its client.  The results of the first two sends are not looked at, but each of
them has to return. -/
def linkTest (frames : Nat) (rs : List SendResult) : SendOut :=
  let text := sendText linkText rs
  if text.ret = none then text
  else
    let sensor := sendFrame frameSensor (packSensor linkSensor) text.rest
    if sensor.ret = none then { sensor with accepted := text.accepted ++ sensor.accepted }
    else
      let videos := linkVideos frames 0 sensor.rest
      { videos with accepted := text.accepted ++ sensor.accepted ++ videos.accepted }

/-- The frames that it means to send. -/
def linkVideoFrames (left i : Nat) : List (UInt8 × List UInt8) :=
  (List.range' i left).map fun i => (frameVideo, linkJpg i)

def linkFrames (frames : Nat) : List (UInt8 × List UInt8) :=
  (frameText, linkText) :: (frameSensor, packSensor linkSensor) :: linkVideoFrames frames 0

theorem linkVideoFrames_succ (left i : Nat) :
    linkVideoFrames (left + 1) i = (frameVideo, linkJpg i) :: linkVideoFrames left (i + 1) := rfl

theorem linkJpg_length (i : Nat) : (linkJpg i).length = 70 := by
  simp [linkJpg]

/-- A send on a socket that accepts sends its frame whole, if it returns. -/
theorem sendFrame_accepting {rs : List SendResult} (h : Accepting retried rs) (type : UInt8)
    (payload : List UInt8) :
    ((sendFrame type payload rs).ret ≠ none →
      (sendFrame type payload rs).ret = some true ∧
        (sendFrame type payload rs).accepted = frameBytes type payload) ∧
      Accepting retried (sendFrame type payload rs).rest := by
  obtain ⟨hok, hrest⟩ := h.fullWrite₂ retried llHeaderSize payload.length
  have heq := sendFrame_eq type payload rs
  refine ⟨fun hret => ?_, by rw [heq]; exact hrest⟩
  have htrue : (sendFrame type payload rs).ret = some true := by
    rw [heq] at hret ⊢
    cases hserved : (fullWrite₂ retried rs llHeaderSize payload.length).ok with
    | none => exact absurd hserved hret
    | some ok =>
      cases ok with
      | true => exact hserved
      | false => exact absurd hserved hok
  exact ⟨htrue, sendFrame_complete htrue⟩

theorem linkVideos_accepted {left i : Nat} {rs : List SendResult} (h : Accepting retried rs)
    (hret : (linkVideos left i rs).ret ≠ none) :
    (linkVideos left i rs).accepted = framesBytes (linkVideoFrames left i) := by
  induction left generalizing i rs with
  | zero => rfl
  | succ left ih =>
    obtain ⟨hsent, hrest⟩ := sendFrame_accepting h frameVideo (linkJpg i)
    rw [linkVideos] at hret ⊢
    dsimp only at hret ⊢
    by_cases hvideo : (sendFrame frameVideo (linkJpg i) rs).ret = some true
    · rw [if_pos hvideo] at hret ⊢
      obtain ⟨-, haccepted⟩ := hsent (by rw [hvideo]; nofun)
      have hmore := ih hrest hret
      simp only [haccepted, hmore, linkVideoFrames_succ]
      rfl
    · rw [if_neg hvideo] at hret
      exact absurd (hsent hret).1 hvideo

theorem linkTest_accepted {frames : Nat} {rs : List SendResult} (h : Accepting retried rs)
    (hret : (linkTest frames rs).ret ≠ none) :
    (linkTest frames rs).accepted = framesBytes (linkFrames frames) := by
  obtain ⟨htext, hrest⟩ := sendFrame_accepting h frameText linkText
  obtain ⟨hsensor, hrest'⟩ := sendFrame_accepting hrest frameSensor (packSensor linkSensor)
  rw [linkTest] at hret ⊢
  unfold sendText at hret ⊢
  dsimp only at hret ⊢
  split at hret
  · next hnone => exact absurd hnone hret
  · next hsome =>
    rw [if_neg hsome]
    split at hret
    · next hnone => exact absurd hnone hret
    · next hsome' =>
      rw [if_neg hsome']
      simp only [(htext hsome).2, (hsensor hsome').2, linkVideos_accepted hrest' hret]
      rw [List.append_assoc]
      rfl

theorem linkFrames_le (frames : Nat) :
    ∀ f ∈ linkFrames frames, f.2.length ≤ llMaxPayload.toNat := by
  have hmax : llMaxPayload.toNat = 16777216 := rfl
  unfold linkFrames linkVideoFrames
  rw [List.forall_mem_cons, List.forall_mem_cons, List.forall_mem_map]
  refine ⟨by decide, by simp only [packSensor_length, hmax]; decide, fun i _ => ?_⟩
  rw [linkJpg_length, hmax]
  decide

theorem tally_linkVideos (stats : Stats) (left i : Nat) :
    stats.tally (linkVideoFrames left i) = { stats with video := stats.video + left } := by
  induction left generalizing stats i with
  | zero => rfl
  | succ left ih =>
    have hone : stats.tally [(frameVideo, linkJpg i)] = { stats with video := stats.video + 1 } := rfl
    rw [linkVideoFrames_succ, Stats.tally_cons, hone]
    refine (ih _ (i + 1)).trans ?_
    simp only [Nat.add_assoc, Nat.add_comm 1]

theorem tally_linkFrames (frames : Nat) :
    Stats.tally {} (linkFrames frames) =
      { text := 1, sensor := 1, video := frames, thermal := 0, bad := 0 } := by
  have hfirst : Stats.tally {} [(frameText, linkText)] = { text := 1 } := rfl
  have hsecond : Stats.tally { text := 1 } [(frameSensor, packSensor linkSensor)] =
      { text := 1, sensor := 1 } := rfl
  rw [linkFrames, Stats.tally_cons, hfirst, Stats.tally_cons, hsecond, tally_linkVideos]
  simp only [Nat.zero_add]

/-- The results of the calls for one video frame: one of them is interrupted. -/
def linkRun : List SendResult :=
  [.wrote 6, .wrote 20, .failed .eintr, .wrote 6, .wrote 25, .wrote 15, .wrote 6, .wrote 70]

theorem linkRun_accepting : Accepting retried linkRun := by
  unfold linkRun Accepting
  simp [retried]

/-- The receiver reads the bytes in two parts. -/
def linkChunks : List (Chunk UInt8 65536) :=
  [⟨(linkTest 1 linkRun).accepted.take 30, by decide, by decide⟩,
    ⟨(linkTest 1 linkRun).accepted.drop 30, by decide, by decide⟩]

end Patrol.Network
