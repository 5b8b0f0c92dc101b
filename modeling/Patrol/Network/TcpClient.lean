import Patrol.Network.TcpServer

/-! `TcpClient`: its own copy of the loop that sends all bytes of a buffer.  It gives up where the one of
the server tries again after `EAGAIN`. -/

namespace Patrol.Network

open ProofKit

namespace TcpClient

/-- `sendAll` from byte `sent` of `data` on, given the results of its `send` calls. -/
def sendAll (data : List UInt8) (sent : Nat) : List SendResult → SendOut
  | [] => ⟨if sent < data.length then none else some true, [], []⟩
  | r :: rs =>
    if sent < data.length then
      match r with
      | .wrote n =>
        let n := min n (data.length - sent)
        if 0 < n then
          let o := sendAll data (sent + n) rs
          { o with accepted := (data.drop sent).take n ++ o.accepted }
        else ⟨some false, [], rs⟩
      | .failed .eintr => sendAll data sent rs
      | .failed .eagain => ⟨some false, [], rs⟩
      | .failed .other => ⟨some false, [], rs⟩
    else ⟨some true, [], r :: rs⟩

/-- Without `EAGAIN` the two loops do the same. -/
theorem sendAll_eq (data : List UInt8) (sent : Nat) {rs : List SendResult}
    (h : .failed .eagain ∉ rs) : sendAll data sent rs = Network.sendAll data sent rs := by
  induction rs generalizing sent with
  | nil => rfl
  | cons r rs ih =>
    rw [List.mem_cons, not_or] at h
    obtain ⟨hr, hrs⟩ := h
    by_cases hlt : sent < data.length
    · cases r with
      | wrote n => simp only [sendAll, Network.sendAll, ih _ hrs]
      | failed e =>
        cases e with
        | eintr => simp only [sendAll, Network.sendAll, ih _ hrs]
        | eagain => exact absurd rfl hr
        | other => simp only [sendAll, Network.sendAll]
    · simp only [sendAll, Network.sendAll, if_neg hlt]

end TcpClient

/-- The bytes that the socket accepts are a prefix of the buffer, and a send that returns has returned
true exactly if they are all of it; the client's loop does the same where there is no `EAGAIN`. -/
theorem sendAll_full_write (data : List UInt8) (rs : List SendResult) :
    (sendAll data 0 rs).accepted <+: data ∧
      (∀ ok, (sendAll data 0 rs).ret = some ok →
        (ok = true ↔ (sendAll data 0 rs).accepted = data)) ∧
      (.failed .eagain ∉ rs → TcpClient.sendAll data 0 rs = sendAll data 0 rs) := by
  have hcount := fullWrite_count retried rs data.length
  refine ⟨?_, ?_, TcpClient.sendAll_eq data 0⟩
  · rw [sendAll_eq data (Nat.zero_le _)]
    exact List.take_prefix _ _
  · intro ok hok
    rw [sendAll_eq data (Nat.zero_le _)] at hok ⊢
    simp only [Nat.sub_zero, List.drop_zero] at hok ⊢
    rw [List.take_eq_self_iff]
    constructor
    · rintro rfl
      exact Nat.le_of_eq (hcount.2.mp hok).symm
    · intro hall
      have htrue := hcount.2.mpr (Nat.le_antisymm hcount.1 hall)
      rw [hok] at htrue
      exact Option.some.inj htrue

/-- A short write, an interruption, and the rest. -/
def shortWrites : List SendResult := [.wrote 2, .failed .eintr, .wrote 1]

theorem sendAll_full_write_short :
    (sendAll [1, 2, 3] 0 shortWrites).accepted <+: [1, 2, 3] ∧
      (∀ ok, (sendAll [1, 2, 3] 0 shortWrites).ret = some ok →
        (ok = true ↔ (sendAll [1, 2, 3] 0 shortWrites).accepted = [1, 2, 3])) ∧
      (TcpClient.sendAll [1, 2, 3] 0 shortWrites = sendAll [1, 2, 3] 0 shortWrites) :=
  have h := sendAll_full_write [1, 2, 3] shortWrites
  ⟨h.1, h.2.1, h.2.2 (by decide)⟩

end Patrol.Network
