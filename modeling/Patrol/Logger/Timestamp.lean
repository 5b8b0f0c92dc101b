import Patrol.Config.Printing
import Patrol.ProofKit.FixedWidth

/-! The names of log files.  A name has the time at which the program was started, in a form in which
names are ordered as the times are. -/

namespace Patrol.Logger

open ProofKit Config ConfigManager

/-- The local time, in the members of `std::tm` that are read. -/
structure Tm where
  year : Int
  mon : Int
  mday : Int
  hour : Int
  min : Int
  sec : Int
deriving DecidableEq, Repr

/-- `%0wd`: a number with zeros before it, as far as the width goes. -/
def printPadded (w : Nat) (x : Int) : List UInt8 :=
  let digits := printNat x.natAbs
  if x < 0 then 0x2D :: (List.replicate (w - 1 - digits.length) 0x30 ++ digits)
  else List.replicate (w - digits.length) 0x30 ++ digits

/-- `nowStr`, at a local time.  `snprintf` leaves the last byte of its buffer to the null byte. -/
def nowStr (t : Tm) : List UInt8 :=
  (printPadded 4 (t.year + 1900) ++ 0x2D :: (printPadded 2 (t.mon + 1) ++
    0x2D :: (printPadded 2 t.mday ++ 0x20 :: (printPadded 2 t.hour ++
    0x3A :: (printPadded 2 t.min ++ 0x3A :: printPadded 2 t.sec))))).take 79

/-- The loop of `compactTime` over what `nowStr` returns. -/
def compactTime (t : Tm) : List UInt8 :=
  (nowStr t).foldl (fun out c =>
    if c = 0x2D ∨ c = 0x3A then out else out ++ [if c = 0x20 then 0x2D else c]) []

/-- The file that `--log-dir` asks for. -/
def logPath (logDir version : List UInt8) (t : Tm) : List UInt8 :=
  logDir ++ (ascii "/patrol-v" ++ (version ++ (ascii "-" ++ (compactTime t ++ ascii ".log"))))

/-- The members are as `localtime_r` sets them, in a year that has at most four digits. -/
structure Tm.Valid (t : Tm) : Prop where
  year : 0 ≤ t.year + 1900 ∧ t.year + 1900 ≤ 9999
  mon : 0 ≤ t.mon ∧ t.mon ≤ 11
  mday : 1 ≤ t.mday ∧ t.mday ≤ 31
  hour : 0 ≤ t.hour ∧ t.hour ≤ 23
  min : 0 ≤ t.min ∧ t.min ≤ 59
  sec : 0 ≤ t.sec ∧ t.sec ≤ 60

/-- The members, from the longest time to the shortest. -/
def Tm.members (t : Tm) : List Int := [t.year, t.mon, t.mday, t.hour, t.min, t.sec]

def digit (d : Nat) : UInt8 := 0x30 + UInt8.ofNat d

theorem digit_lt_iff (d e : Nat) (hd : d < 10) (he : e < 10) : digit d < digit e ↔ d < e := by
  have hall : ∀ d < 10, ∀ e < 10, (digit d < digit e ↔ d < e) := by decide
  exact hall d hd e he

theorem printNat_small {n : Nat} (h : n < 10) : printNat n = [digit n] := by
  have hall : ∀ n < 10, n.digitChar.toUInt8 = digit n := by decide
  rw [printNat, Nat.toDigits_of_lt_base h, List.map_singleton, hall n h]

/-- The last digit is printed last. -/
theorem printNat_concat {n : Nat} (h : 10 ≤ n) :
    printNat n = printNat (n / 10) ++ [digit (n % 10)] := by
  have hlast := printNat_small (Nat.mod_lt n (show 0 < 10 by decide))
  rw [printNat, Nat.toDigits_of_base_le (by decide) h, List.map_append, ← hlast, printNat,
    printNat, Nat.toDigits_of_lt_base (Nat.mod_lt n (by decide))]

/-- A number that is not too long is printed with just the digits of its width. -/
theorem pad_printNat (w : Nat) {n : Nat} (h : n < 10 ^ (w + 1)) :
    List.replicate (w + 1 - (printNat n).length) 0x30 ++ printNat n =
      fixedWidth digit (w + 1) n := by
  rw [fixedWidth_concat]
  by_cases hlt : n < 10
  · rw [printNat_small hlt, Nat.div_eq_of_lt hlt, fixedWidth_zero, Nat.mod_eq_of_lt hlt]
    rfl
  · have hle : 10 ≤ n := Nat.le_of_not_lt hlt
    cases w with
    | zero => exact absurd h hlt
    | succ w =>
      have hshort : n / 10 < 10 ^ (w + 1) := by
        rw [pow_succ] at h
        omega
      rw [← pad_printNat w hshort, printNat_concat hle, List.length_append, List.length_singleton,
        ← List.append_assoc, Nat.add_sub_add_right]

theorem printPadded_eq (w : Nat) {x : Int} (h : 0 ≤ x) (hlt : x < 10 ^ (w + 1)) :
    printPadded (w + 1) x = fixedWidth digit (w + 1) x.toNat := by
  have habs : x.natAbs = x.toNat := by omega
  rw [printPadded, if_neg (Int.not_lt.mpr h), habs]
  apply pad_printNat
  exact (Int.toNat_lt h).mpr (by exact_mod_cast hlt)

/-- The digits of the members, with what stands between them. -/
def stamp (t : Tm) (dash colon : List UInt8) : List UInt8 :=
  fixedWidth digit 4 (t.year + 1900).toNat ++ (dash ++ (fixedWidth digit 2 (t.mon + 1).toNat ++
    (dash ++ (fixedWidth digit 2 t.mday.toNat ++ (0x20 :: (fixedWidth digit 2 t.hour.toNat ++
    (colon ++ (fixedWidth digit 2 t.min.toNat ++ (colon ++ fixedWidth digit 2 t.sec.toNat)))))))))

theorem nowStr_eq {t : Tm} (h : t.Valid) : nowStr t = stamp t [0x2D] [0x3A] := by
  obtain ⟨⟨hy, hy'⟩, ⟨hm, hm'⟩, ⟨hd, hd'⟩, ⟨hh, hh'⟩, ⟨hn, hn'⟩, hs, hs'⟩ := h
  rw [nowStr, printPadded_eq 3 hy (by omega), printPadded_eq 1 (show 0 ≤ t.mon + 1 by omega)
    (by omega), printPadded_eq 1 (show 0 ≤ t.mday by omega) (by omega), printPadded_eq 1 hh
    (by omega), printPadded_eq 1 hn (by omega), printPadded_eq 1 hs (by omega)]
  apply List.take_of_length_le
  simp

/-- What `compactTime` makes of one byte. -/
def compactByte (c : UInt8) : List UInt8 :=
  if c = 0x2D ∨ c = 0x3A then [] else [if c = 0x20 then 0x2D else c]

theorem compactTime_flatMap (t : Tm) : compactTime t = (nowStr t).flatMap compactByte := by
  have hstep : ∀ (out : List UInt8) c,
      (if c = 0x2D ∨ c = 0x3A then out else out ++ [if c = 0x20 then 0x2D else c]) =
        out ++ compactByte c := by
    intro out c
    unfold compactByte
    split
    · exact (List.append_nil out).symm
    · rfl
  simp only [compactTime, hstep, List.foldl_append_eq_append, List.nil_append]
  rfl

/-- Digits stay. -/
theorem compact_fixedWidth (w n : Nat) :
    (fixedWidth digit w n).flatMap compactByte = fixedWidth digit w n := by
  have hall : ∀ d < 10, compactByte (digit d) = [digit d] := by decide
  have hone : ∀ x ∈ fixedWidth digit w n, compactByte x = [x] := by
    intro x hx
    obtain ⟨d, hd, rfl⟩ := mem_fixedWidth hx
    exact hall d hd
  rw [List.flatMap_congr hone, List.flatMap_singleton']

theorem compactTime_eq {t : Tm} (h : t.Valid) : compactTime t =
    fixedWidth digit 4 (t.year + 1900).toNat ++ (fixedWidth digit 2 (t.mon + 1).toNat ++
      (fixedWidth digit 2 t.mday.toNat ++ (0x2D :: (fixedWidth digit 2 t.hour.toNat ++
        (fixedWidth digit 2 t.min.toNat ++ fixedWidth digit 2 t.sec.toNat))))) := by
  rw [compactTime_flatMap, nowStr_eq h]
  simp only [stamp, List.flatMap_append, List.flatMap_cons, List.flatMap_nil, compact_fixedWidth]
  rfl

/-- A member that has its width is ordered as its digits are. -/
theorem field_order (w : Nat) {x y : Int} (hx : 0 ≤ x ∧ x < 10 ^ w) (hy : 0 ≤ y ∧ y < 10 ^ w) :
    (fixedWidth digit w x.toNat < fixedWidth digit w y.toNat ↔ x < y) ∧
      (fixedWidth digit w x.toNat = fixedWidth digit w y.toNat ↔ x = y) := by
  have hx' : x.toNat < 10 ^ w := (Int.toNat_lt hx.1).mpr (by exact_mod_cast hx.2)
  have hy' : y.toNat < 10 ^ w := (Int.toNat_lt hy.1).mpr (by exact_mod_cast hy.2)
  constructor
  · rw [fixedWidth_lt_iff digit_lt_iff, Nat.mod_eq_of_lt hx', Nat.mod_eq_of_lt hy']
    omega
  · constructor
    · intro h
      have heq := fixedWidth_inj digit_lt_iff h
      rw [Nat.mod_eq_of_lt hx', Nat.mod_eq_of_lt hy'] at heq
      omega
    · rintro rfl
      rfl

/-- Times are ordered as their texts are. -/
theorem compactTime_order {a b : Tm} (ha : a.Valid) (hb : b.Valid) :
    (compactTime a < compactTime b ↔ a.members < b.members) ∧
      (compactTime a = compactTime b ↔ a = b) := by
  have hlen : ∀ w m n, (fixedWidth digit w m).length = (fixedWidth digit w n).length := by
    intro w m n
    rw [fixedWidth_length, fixedWidth_length]
  rw [compactTime_eq ha, compactTime_eq hb]
  obtain ⟨hay, ham, had, hah, han, has⟩ := ha
  obtain ⟨hby, hbm, hbd, hbh, hbn, hbs⟩ := hb
  obtain ⟨hylt, hyeq⟩ := @field_order 4 (a.year + 1900) (b.year + 1900) (by omega) (by omega)
  obtain ⟨hmlt, hmeq⟩ := @field_order 2 (a.mon + 1) (b.mon + 1) (by omega) (by omega)
  obtain ⟨hdlt, hdeq⟩ := @field_order 2 a.mday b.mday (by omega) (by omega)
  obtain ⟨hhlt, hheq⟩ := @field_order 2 a.hour b.hour (by omega) (by omega)
  obtain ⟨hnlt, hneq⟩ := @field_order 2 a.min b.min (by omega) (by omega)
  obtain ⟨hslt, hseq⟩ := @field_order 2 a.sec b.sec (by omega) (by omega)
  constructor
  · rw [append_lt_append_iff (hlen 4 _ _), append_lt_append_iff (hlen 2 _ _),
      append_lt_append_iff (hlen 2 _ _), List.cons_lt_cons_iff, append_lt_append_iff (hlen 2 _ _),
      append_lt_append_iff (hlen 2 _ _), hylt, hyeq, hmlt, hmeq, hdlt, hdeq, hhlt, hheq, hnlt, hneq,
      hslt]
    simp only [Tm.members, List.cons_lt_cons_iff, List.not_lt_nil, and_false, or_false,
      UInt8.lt_irrefl, false_or, true_and]
    omega
  · constructor
    · intro h
      obtain ⟨hy, h⟩ := List.append_inj h (hlen 4 _ _)
      obtain ⟨hm, h⟩ := List.append_inj h (hlen 2 _ _)
      obtain ⟨hd, h⟩ := List.append_inj h (hlen 2 _ _)
      obtain ⟨hh, h⟩ := List.append_inj (List.cons.inj h).2 (hlen 2 _ _)
      obtain ⟨hn, hs⟩ := List.append_inj h (hlen 2 _ _)
      have hyear : a.year = b.year := by
        have := hyeq.mp hy
        omega
      have hmon : a.mon = b.mon := by
        have := hmeq.mp hm
        omega
      cases a
      cases b
      simp only [Tm.mk.injEq]
      exact ⟨hyear, hmon, hdeq.mp hd, hheq.mp hh, hneq.mp hn, hseq.mp hs⟩
    · rintro rfl
      rfl

/-- Sorted by name, the log files that `--log-dir` makes in one directory for one version are sorted by
the times at which the program was started, and two starts share a file exactly if they fall in the
same second.  Each name ends in the fifteen bytes of the time, and `.log`. -/
theorem logPath_order (logDir version : List UInt8) {a b : Tm} (ha : a.Valid) (hb : b.Valid) :
    (logPath logDir version a < logPath logDir version b ↔ a.members < b.members) ∧
      (logPath logDir version a = logPath logDir version b ↔ a = b) ∧
      (compactTime a).length = 15 := by
  have hlen : ∀ {t : Tm}, t.Valid → (compactTime t).length = 15 := by
    intro t ht
    rw [compactTime_eq ht]
    simp
  obtain ⟨hlt, heq⟩ := compactTime_order ha hb
  refine ⟨?_, ?_, hlen ha⟩
  · unfold logPath
    rw [append_lt_append_iff rfl, append_lt_append_iff rfl, append_lt_append_iff rfl,
      append_lt_append_iff rfl, append_lt_append_iff ((hlen ha).trans (hlen hb).symm), hlt]
    simp [List.lt_irrefl]
  · unfold logPath
    simp only [List.append_cancel_left_eq, List.append_left_inj, heq]

example : compactTime ⟨126, 6, 1, 9, 35, 7⟩ = ascii "20260701-093507" := by decide

/-- The last second of a year and the first of the next. -/
theorem logPath_order_newYear :
    logPath (ascii "/var/log") (ascii "1.0.0") ⟨125, 11, 31, 23, 59, 59⟩ <
      logPath (ascii "/var/log") (ascii "1.0.0") ⟨126, 0, 1, 0, 0, 0⟩ :=
  (logPath_order (ascii "/var/log") (ascii "1.0.0") ⟨by decide, by decide, by decide, by decide,
    by decide, by decide⟩ ⟨by decide, by decide, by decide, by decide, by decide,
    by decide⟩).1.mpr (by decide)

end Patrol.Logger
