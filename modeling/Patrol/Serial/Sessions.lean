import Patrol.Serial.Delivery

/-! Sessions on the port.  Closing and opening a port keeps the receive buffer, so a session starts
where the last one left off unless no part of the buffer can begin a frame. -/

namespace Patrol.Serial

open ProofKit

/-- The operations of a manager.  `sendCmd` leaves the manager as it is. -/
inductive Op
  | open (o : OpenResult)
  | close
  | poll (r : ReadResult)
  | sendCmd (cmd : UInt8) (payload : Option (List UInt8)) (payloadLen : UInt8) (w : WriteResult Unit)
  | setRxCallback (cb : Bool)

def step (s : SerialManager) : Op → Option SerialManager
  | .open o => some (s.open o).1
  | .close => some s.close
  | .poll r => (s.poll r).map PollOut.manager
  | .sendCmd _ _ _ _ => some s
  | .setRxCallback cb => some (s.setRxCallback cb)

def run : List Op → SerialManager → Option SerialManager
  | [], s => some s
  | op :: ops, s => do
    let s ← step s op
    run ops s

theorem close_rxBuf (s : SerialManager) : s.close.rxBuf = s.rxBuf := by
  rw [SerialManager.close]
  split <;> rfl

theorem close_rxCb (s : SerialManager) : s.close.rxCb = s.rxCb := by
  rw [SerialManager.close]
  split <;> rfl

theorem open_rxBuf (s : SerialManager) (o : OpenResult) : (s.open o).1.rxBuf = s.rxBuf := by
  cases o <;> simp [SerialManager.open, close_rxBuf]

/-- An operation does not fault, and leaves a buffer in which the scan waits. -/
theorem step_wait {s : SerialManager} (hw : serialScanner.verdict s.rxBuf = .wait) (op : Op) :
    ∃ s', step s op = some s' ∧ serialScanner.verdict s'.rxBuf = .wait := by
  match op with
  | .open o => exact ⟨_, rfl, by rwa [open_rxBuf]⟩
  | .close => exact ⟨_, rfl, by rwa [close_rxBuf]⟩
  | .sendCmd _ _ _ _ => exact ⟨_, rfl, hw⟩
  | .setRxCallback cb => exact ⟨_, rfl, hw⟩
  | .poll r =>
    by_cases hfd : s.fd < 0
    · have hpoll : s.poll r = some ⟨s, [], 0⟩ := if_pos hfd
      exact ⟨s, by rw [step, hpoll]; rfl, hw⟩
    · have hready : s.Ready := ⟨by omega, hw⟩
      obtain ⟨o, ho⟩ := Option.isSome_iff_exists.mp
        ((pollWith_isSome wrapping hready r).mpr fun _ _ => rfl)
      refine ⟨o.manager, ?_, (pollWith_ready hready ho).waits⟩
      rw [step, SerialManager.poll, ho]
      rfl

theorem run_wait (ops : List Op) {s : SerialManager} (hw : serialScanner.verdict s.rxBuf = .wait) :
    ∃ s', run ops s = some s' ∧ serialScanner.verdict s'.rxBuf = .wait := by
  induction ops generalizing s with
  | nil => exact ⟨s, rfl, hw⟩
  | cons op ops ih =>
    obtain ⟨s', hstep, hw'⟩ := step_wait hw op
    obtain ⟨s'', hrun, hw''⟩ := ih hw'
    refine ⟨s'', ?_, hw''⟩
    rw [run, hstep]
    exact hrun

/-- What the callback sees in successive polls. -/
def callbacks (rs : List ReadResult) (s : SerialManager) :
    Option (List (UInt8 × Option (List UInt8) × Nat)) :=
  (pollRun rs s 0).map fun r => r.1.map fun d => d.2.view

theorem callbacks_eq (rs : List ReadResult) {s : SerialManager} (hs : s.Ready)
    (hcb : s.rxCb = true) :
    callbacks rs s = some ((serialScanner.items (s.rxBuf ++ rs.flatMap ReadResult.bytes)).map
      Received.view) := by
  obtain ⟨⟨log, s'⟩, hrun⟩ := Option.isSome_iff_exists.mp (pollRun_isSome rs hs 0)
  obtain ⟨-, hcalls⟩ := pollRunWith_calls hs hcb hrun
  rw [callbacks, hrun, Option.map_some, views_eq hcalls]

theorem pollWith_silent {size : SizeSub} {s : SerialManager} (hcb : s.rxCb = false)
    {r : ReadResult} {o : PollOut} (h : s.pollWith size r = some o) :
    o.calls = [] ∧ o.manager.rxCb = false := by
  unfold SerialManager.pollWith at h
  split at h
  · cases h
    exact ⟨rfl, hcb⟩
  · cases r with
    | nothing =>
      cases h
      exact ⟨rfl, hcb⟩
    | data c =>
      obtain ⟨found, -, h⟩ := Option.bind_eq_some_iff.mp h
      cases h
      exact ⟨by rw [hcb]; rfl, hcb⟩

theorem pollRunWith_silent {size : SizeSub} {rs : List ReadResult} {s : SerialManager}
    (hcb : s.rxCb = false) {base : Nat} {log : List (Nat × RxCall)} {s' : SerialManager}
    (h : pollRunWith size rs s base = some (log, s')) : log = [] := by
  induction rs generalizing s base log with
  | nil =>
    cases h
    rfl
  | cons r rs ih =>
    obtain ⟨o, ho, h⟩ := Option.bind_eq_some_iff.mp h
    obtain ⟨⟨calls, s''⟩, hrun, h⟩ := Option.bind_eq_some_iff.mp h
    cases h
    obtain ⟨hnone, hcb'⟩ := pollWith_silent hcb ho
    rw [hnone, ih hcb' hrun]
    rfl

theorem callbacks_silent (rs : List ReadResult) {s : SerialManager} (hs : s.Ready)
    (hcb : s.rxCb = false) : callbacks rs s = some [] := by
  obtain ⟨⟨log, s'⟩, hrun⟩ := Option.isSome_iff_exists.mp (pollRun_isSome rs hs 0)
  rw [callbacks, hrun, pollRunWith_silent hcb hrun]
  rfl

/-! ### Beginnings of frames -/

/-- Whether bytes, of which `poll` has accepted no frame, begin one that it can accept. -/
def frameHead : List UInt8 → Bool
  | [] => false
  | [b0] => b0 == sof1
  | [b0, b1, len, b3] => b0 == sof1 && b1 == sof2 && (len != 0 || b3 == 0)
  | b0 :: b1 :: _ => b0 == sof1 && b1 == sof2

theorem items_short {b : List UInt8} (h : b.length < 5) : serialScanner.items b = [] :=
  serialScanner.items_wait (serialVerdict_short h)

/-- A byte that begins no frame is skipped as soon as five bytes are there. -/
theorem verdict_dead {a : UInt8} {t x : List UInt8} (ht : t.length < 4)
    (hdead : frameHead (a :: t) = false) (hlen : 5 ≤ (a :: t ++ x).length) :
    serialScanner.verdict (a :: t ++ x) = .skip := by
  obtain ⟨b0, b1, len, b3, b4, more, heq⟩ := five_split hlen
  rw [serialScanner_verdict, heq]
  simp only [serialVerdict]
  by_cases hsof : b0 ≠ sof1 ∨ b1 ≠ sof2
  · rw [if_pos hsof]
  · rw [if_neg hsof]
    rw [not_or, not_not, not_not] at hsof
    obtain ⟨rfl, rfl⟩ := hsof
    rcases t with _ | ⟨_, _ | ⟨_, _ | ⟨_, _ | ⟨_, _⟩⟩⟩⟩
    · cases heq
      simp [frameHead] at hdead
    · cases heq
      simp [frameHead] at hdead
    · cases heq
      simp [frameHead] at hdead
    · -- Four bytes begin a frame unless LEN is zero and the fourth is not its CRC.
      cases heq
      simp only [frameHead, beq_self_eq_true, Bool.and_self, Bool.true_and, Bool.or_eq_false_iff,
        bne_eq_false_iff_eq, beq_eq_false_iff_ne] at hdead
      obtain ⟨rfl, hb3⟩ := hdead
      have hcrc : crc8 [0] ≠ b3 := fun h => hb3 h.symm
      simp [hcrc]
    · simp only [List.length_cons] at ht
      omega

/-- Bytes of which no part begins a frame change nothing that is received after them. -/
theorem items_dead {w : List UInt8} (hw : w.length < 5)
    (hdead : ∀ h, h <:+ w → frameHead h = false) (x : List UInt8) :
    serialScanner.items (w ++ x) = serialScanner.items x := by
  induction w with
  | nil => rfl
  | cons a t ih =>
    have ht : t.length < 4 := by
      rw [List.length_cons] at hw
      omega
    have ih := ih (by omega) fun h hs => hdead h (hs.trans (List.suffix_cons a t))
    by_cases hlen : 5 ≤ (a :: t ++ x).length
    · have hskip := verdict_dead ht (hdead _ List.suffix_rfl) hlen
      rw [serialScanner.items_skip hskip, ← ih]
      rfl
    · have hx : x.length < 5 := by
        simp only [List.length_append, List.length_cons] at hlen
        omega
      rw [items_short (Nat.lt_of_not_le hlen), items_short hx]

theorem items_zeros (n : Nat) (a : UInt8) :
    serialScanner.items (List.replicate n 0 ++ [a]) = [] := by
  induction n with
  | zero => exact items_short (by simp)
  | succ n ih =>
    by_cases hlen : 5 ≤ (0 :: [] ++ (List.replicate n 0 ++ [a])).length
    · have hskip := verdict_dead (show ([] : List UInt8).length < 4 by decide) rfl hlen
      rw [List.replicate_succ]
      exact (serialScanner.items_skip hskip).trans ih
    · exact items_short (Nat.lt_of_not_le hlen)

theorem short_of_not_head {w : List UInt8} (hw : serialScanner.verdict w = .wait)
    (h : frameHead w = false) : w.length < 5 := by
  rcases serialVerdict_wait hw with hshort | ⟨len, body, rfl, -⟩
  · exact hshort
  · match body with
    | [] => simp
    | [_] => simp
    | _ :: _ :: _ => simp [frameHead] at h

theorem frameHead_cases {w : List UInt8} (hw : serialScanner.verdict w = .wait)
    (h : frameHead w = true) :
    w = [sof1] ∨ w = [sof1, sof2] ∨ w = [sof1, sof2, 0] ∨ w = [sof1, sof2, 0, 0] ∨
      ∃ len body, len ≠ 0 ∧ w = sof1 :: sof2 :: len :: body ∧ body.length ≤ len.toNat := by
  have hpos : ∀ {len : UInt8}, len ≠ 0 → 0 < len.toNat := fun hlen =>
    Nat.pos_of_ne_zero fun h0 => hlen (UInt8.toNat_inj.mp h0)
  rcases serialVerdict_wait hw with hshort | ⟨len, body, rfl, hbody⟩
  · match w, hshort with
    | [], _ => cases h
    | [b0], _ => exact .inl (by simpa [frameHead] using h)
    | [b0, b1], _ => exact .inr (.inl (by simpa [frameHead] using h))
    | [b0, b1, len], _ =>
      obtain ⟨rfl, rfl⟩ : b0 = sof1 ∧ b1 = sof2 := by simpa [frameHead] using h
      by_cases hlen : len = 0
      · exact .inr (.inr (.inl (by rw [hlen])))
      · exact .inr (.inr (.inr (.inr ⟨len, [], hlen, rfl, Nat.zero_le _⟩)))
    | [b0, b1, len, b3], _ =>
      obtain ⟨⟨rfl, rfl⟩, hcmd⟩ : (b0 = sof1 ∧ b1 = sof2) ∧ (len ≠ 0 ∨ b3 = 0) := by
        simpa [frameHead] using h
      by_cases hlen : len = 0
      · rw [hcmd.resolve_left (not_not.mpr hlen), hlen]
        exact .inr (.inr (.inr (.inl rfl)))
      · exact .inr (.inr (.inr (.inr ⟨len, [b3], hlen, rfl, hpos hlen⟩)))
  · by_cases hlen : len = 0
    · subst hlen
      obtain rfl : body = [] := List.length_eq_zero_iff.mp (Nat.le_zero.mp hbody)
      exact .inr (.inr (.inl rfl))
    · exact .inr (.inr (.inr (.inr ⟨len, body, hlen, rfl, hbody⟩)))

/-- The beginning of a frame can be completed so that `poll` accepts it, with bytes that contain no
frame themselves. -/
theorem head_completes {w : List UInt8} (hw : serialScanner.verdict w = .wait)
    (h : frameHead w = true) :
    ∃ x, serialScanner.items (w ++ x) ≠ [] ∧ serialScanner.items x = [] := by
  have htaken : ∀ x, (∃ n e, serialScanner.verdict (w ++ x) = .take n e) →
      serialScanner.items (w ++ x) ≠ [] := by
    rintro x ⟨n, e, htake⟩ hnil
    rw [serialScanner.items_take htake] at hnil
    cases hnil
  rcases frameHead_cases hw h with rfl | rfl | rfl | rfl | ⟨len, body, hlen, rfl, hbody⟩
  · exact ⟨[sof2, 1, 0, crc8 [1, 0]], htaken _ ⟨5, ⟨1, 0, []⟩, by decide +kernel⟩,
      items_short (by simp)⟩
  · exact ⟨[1, 0, crc8 [1, 0]], htaken _ ⟨5, ⟨1, 0, []⟩, by decide +kernel⟩, items_short (by simp)⟩
  · exact ⟨[0, 0], htaken _ ⟨4, ⟨0, 0, []⟩, by decide +kernel⟩, items_short (by simp)⟩
  · exact ⟨[0], htaken _ ⟨4, ⟨0, 0, []⟩, by decide +kernel⟩, items_short (by simp)⟩
  · have hzeros : (body ++ List.replicate (len.toNat - body.length) 0).length = len.toNat := by
      rw [List.length_append, List.length_replicate]
      omega
    obtain ⟨cmd, payload, hcons⟩ : ∃ cmd payload,
        body ++ List.replicate (len.toNat - body.length) 0 = cmd :: payload := by
      apply List.exists_cons_of_ne_nil
      intro hnil
      rw [hnil] at hzeros
      exact hlen (UInt8.toNat_inj.mp hzeros.symm)
    rw [hcons] at hzeros
    have hstarts : StartsFrame len (cmd :: payload) (sof1 :: sof2 :: len :: body ++
        (List.replicate (len.toNat - body.length) 0 ++ [crc8 (len :: cmd :: payload)])) := by
      refine ⟨hzeros, [], ?_⟩
      rw [← hcons]
      simp
    exact ⟨_, htaken _ ⟨_, _, hstarts.verdict⟩, items_zeros _ _⟩

/-- Where a part of a buffer begins a frame, some bytes after it are received as a frame, and are none
on their own. -/
theorem items_live {w : List UInt8} (hw : serialScanner.verdict w = .wait) {h : List UInt8}
    (hs : h <:+ w) (hlive : frameHead h = true) :
    ∃ x, serialScanner.items (w ++ x) ≠ [] ∧ serialScanner.items x = [] := by
  induction w with
  | nil =>
    rw [List.suffix_nil.mp hs] at hlive
    cases hlive
  | cons a t ih =>
    by_cases hhead : frameHead (a :: t) = true
    · exact head_completes hw hhead
    · have hlen := short_of_not_head hw (Bool.eq_false_iff.mpr hhead)
      have ht : h <:+ t := by
        rcases List.suffix_cons_iff.mp hs with rfl | ht
        · exact absurd hlive hhead
        · exact ht
      rw [List.length_cons] at hlen
      obtain ⟨x, htaken, hnone⟩ := ih (serialVerdict_short (by omega)) ht
      refine ⟨x, ?_, hnone⟩
      have hfive : 5 ≤ (a :: t ++ x).length := by
        by_contra hshort
        refine htaken (items_short ?_)
        simp only [List.length_append, List.length_cons] at hshort ⊢
        omega
      have hskip := verdict_dead (Nat.lt_of_succ_lt_succ hlen)
        (Bool.eq_false_iff.mpr hhead) hfive
      rw [serialScanner.items_skip hskip]
      exact htaken

/-! ### Isolation -/

/-- One read for each byte. -/
def readsOf (x : List UInt8) : List ReadResult :=
  x.map fun a => .data ⟨[a], List.cons_ne_nil _ _, Nat.succ_le_succ (Nat.zero_le _)⟩

theorem readsOf_bytes (x : List UInt8) : (readsOf x).flatMap ReadResult.bytes = x := by
  induction x with
  | nil => rfl
  | cons a x ih =>
    rw [readsOf, List.map_cons, List.flatMap_cons]
    exact congrArg (a :: ·) ih

/-- After any history, a session that is opened anew calls back like a fresh manager, whatever is read,
exactly when there is no callback or no part of the buffer at its end begins a frame. -/
theorem sessions_isolated_iff (history : List Op) (fd fd' : Nat) :
    ∃ s, run history {} = some s ∧
      ((∀ rs, callbacks rs (s.close.open (.opened fd)).1 =
          callbacks rs (({ rxCb := s.rxCb } : SerialManager).open (.opened fd')).1) ↔
        (s.rxCb = true → ∀ h, h <:+ s.rxBuf → frameHead h = false)) := by
  obtain ⟨s, hrun, hw⟩ := run_wait history (s := {}) rfl
  refine ⟨s, hrun, ?_⟩
  have hrxCb : (s.close.open (.opened fd)).1.rxCb = s.rxCb := by
    simp [SerialManager.open, close_rxCb]
  have hrxBuf : (s.close.open (.opened fd)).1.rxBuf = s.rxBuf := by rw [open_rxBuf, close_rxBuf]
  have hready : (s.close.open (.opened fd)).1.Ready :=
    ⟨Int.natCast_nonneg fd, by rwa [hrxBuf]⟩
  have hfresh : ∀ cb, (({ rxCb := cb } : SerialManager).open (.opened fd')).1.Ready := by
    intro cb
    exact ⟨Int.natCast_nonneg fd', serialScanner.verdict_nil⟩
  cases hcb : s.rxCb with
  | false =>
    refine ⟨fun _ h => (Bool.false_ne_true h).elim, ?_⟩
    intro _ rs
    rw [callbacks_silent rs hready (hrxCb.trans hcb), callbacks_silent rs (hfresh false) rfl]
  | true =>
    have hold : ∀ rs, callbacks rs (s.close.open (.opened fd)).1 =
        some ((serialScanner.items (s.rxBuf ++ rs.flatMap ReadResult.bytes)).map
          Received.view) := by
      intro rs
      rw [callbacks_eq rs hready (hrxCb.trans hcb), hrxBuf]
    have hnew : ∀ rs, callbacks rs (({ rxCb := true } : SerialManager).open (.opened fd')).1 =
        some ((serialScanner.items (rs.flatMap ReadResult.bytes)).map Received.view) := by
      intro rs
      exact callbacks_eq rs (hfresh true) rfl
    constructor
    · intro hsame _ h hs
      by_contra hlive
      obtain ⟨x, htaken, hnone⟩ := items_live hw hs (Bool.eq_true_of_not_eq_false hlive)
      have hx := hsame (readsOf x)
      rw [hold, hnew, readsOf_bytes, hnone] at hx
      exact htaken (List.map_eq_nil_iff.mp (Option.some.inj hx))
    · intro hdead rs
      have hshort := short_of_not_head hw (hdead rfl _ List.suffix_rfl)
      rw [hold, hnew, items_dead hshort (hdead rfl)]

/-- A session that ends after the start bytes of a frame. -/
def cutHistory : List Op :=
  [.setRxCallback true, .open (.opened 3), .poll (.data ⟨[0xAA, 0x55], by decide, by decide⟩)]

/-- A stop command that a session receives after `cutHistory` is not delivered. -/
theorem cut_session_leaks : ¬ ∃ s, run cutHistory {} = some s ∧
    ∀ rs, callbacks rs (s.close.open (.opened 3)).1 =
      callbacks rs (({ rxCb := s.rxCb } : SerialManager).open (.opened 3)).1 := by
  rintro ⟨s, hrun, hsame⟩
  have hs : run cutHistory {} = some { fd := 3, rxCb := true, rxBuf := [0xAA, 0x55] } := by
    decide +kernel
  rw [hrun] at hs
  cases hs
  have hstop := hsame [.data ⟨[0xAA, 0x55, 1, 0x17, crc8 [1, 0x17]], by decide, by decide⟩]
  revert hstop
  decide +kernel

end Patrol.Serial
