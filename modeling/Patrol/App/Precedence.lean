import Patrol.App.CommandLine
import Patrol.ProofKit.LastValue

/-! Which setting counts.  The last option of a kind stands over the configuration file, and this over
the defaults. -/

namespace Patrol.App

open ProofKit Json Config

/-- What an option sets.  Those that set nothing `main` has returned at. -/
def Settings.write (s : Settings) : Option Opt × Word → Settings
  | (some .device, v) => { s with cfg.device := v }
  | (some .width, v) => { s with cfg.width := atoi v }
  | (some .height, v) => { s with cfg.height := atoi v }
  | (some .fps, v) => { s with cfg.fps := atoi v }
  | (some .port, v) => { s with port := (atoi v).toUInt32.toUInt16 }
  | (some .bind, v) => { s with bindAddr := v }
  | (some .logDir, v) => { s with logDir := v }
  | (some .logFile, v) => { s with logFile := v }
  | (some .verbose, _) => { s with verbose := true }
  | _ => s

/-- The options that the second loop looks at, with their operands. -/
def options (args : List Word) : List (Option Opt × Word) :=
  (looked takesOperand args).map fun x => (optionOf x.1, x.2.getD [])

/-- The operand of the last option of a kind. -/
def given (args : List Word) (o : Opt) : Option Word := lastVal (options args) (some o)

/-- A word is an option, asks for nothing but a setting, and has the operand that it needs. -/
def HasOperand (x : Word × Option Word) : Prop :=
  match treatment x.1 with
  | .skip => True
  | .value _ => x.2 ≠ none
  | .flag _ => True
  | .exit _ => False

/-- Every word that the second loop looks at is served. -/
def Usable (args : List Word) : Prop := ∀ x ∈ looked takesOperand args, HasOperand x

/-- The settings without what stood behind the `-c` words. -/
def Settings.plain (s : Settings) : Settings := { s with configs := [] }

theorem write_plain (s : Settings) (x : Option Opt × Word) :
    (s.write x).plain = s.plain.write x := by
  obtain ⟨o, v⟩ := x
  cases o with
  | none => rfl
  | some o => cases o <;> rfl

theorem value_write {a : Word} {set : Word → Settings → Settings} (h : treatment a = .value set)
    (v : Word) (s : Settings) : set v s = s.write (optionOf a, v) := by
  unfold treatment at h
  split at h <;> cases h <;> simp only [*] <;> rfl

theorem flag_write {a : Word} {set : Settings → Settings} (h : treatment a = .flag set)
    (v : Word) (s : Settings) : set s = s.write (optionOf a, v) := by
  unfold treatment at h
  split at h <;> cases h
  simp only [*]
  rfl

theorem skip_write {a : Word} (h : treatment a = .skip) (v : Word) (s : Settings) :
    s.write (optionOf a, v) = s := by
  unfold treatment at h
  split at h <;> cases h
  simp only [*]
  rfl

theorem options_pass {a : Word} (ha : takesOperand a = false) (args : List Word) :
    options (a :: args) = (optionOf a, args.head?.getD []) :: options args := by
  rw [options, looked_pass ha]
  rfl

theorem options_take {a : Word} (ha : takesOperand a = true) (v : Word) (args : List Word) :
    options (a :: v :: args) = (optionOf a, v) :: options args := by
  rw [options, looked_take ha]
  rfl

theorem usable_take {a : Word} (ha : takesOperand a = true) (v : Word) (args : List Word) :
    Usable (a :: v :: args) ↔ HasOperand (a, some v) ∧ Usable args := by
  rw [Usable, looked_take ha, List.forall_mem_cons]
  rfl

theorem usable_pass {a : Word} (ha : takesOperand a = false) (args : List Word) :
    Usable (a :: args) ↔ HasOperand (a, args.head?) ∧ Usable args := by
  rw [Usable, looked_pass ha, List.forall_mem_cons]
  rfl

/-- The second loop goes over the options. -/
theorem secondPass_write {s o : Settings} {args : List Word} (h : secondPass s args = .ok o) :
    o.plain = (options args).foldl Settings.write s.plain := by
  induction s, args using secondPass.induct with
  | case1 s =>
    cases h
    rfl
  | case2 s a htreat =>
    rw [secondPass, htreat] at h
    cases h
    exact (skip_write htreat [] s.plain).symm
  | case3 s a set htreat =>
    rw [secondPass, htreat] at h
    cases h
  | case4 s a set htreat =>
    rw [secondPass, htreat] at h
    cases h
    rw [flag_write htreat [], write_plain]
    rfl
  | case5 s a e htreat =>
    rw [secondPass, htreat] at h
    cases h
  | case6 s a v rest htreat ih =>
    rw [secondPass, htreat] at h
    rw [ih h, options_take (by rw [takesOperand, htreat]), List.foldl_cons, skip_write htreat]
    rfl
  | case7 s a v rest set htreat ih =>
    rw [secondPass, htreat] at h
    rw [ih h, options_take (by rw [takesOperand, htreat]), List.foldl_cons, value_write htreat,
      write_plain]
  | case8 s a v rest set htreat ih =>
    rw [secondPass, htreat] at h
    have hpass : takesOperand a = false := by rw [takesOperand, htreat]
    rw [ih h, options_pass hpass, List.foldl_cons, ← write_plain, ← flag_write htreat]
  | case9 s a v rest e htreat =>
    rw [secondPass, htreat] at h
    cases h

theorem error_not_ok (e : Exit) : ¬ ∃ o : Settings, (.error e : Except Exit Settings) = .ok o := by
  rintro ⟨o, h⟩
  cases h

/-- It reaches its end exactly on a command line that is usable. -/
theorem secondPass_ok_iff (s : Settings) (args : List Word) :
    (∃ o, secondPass s args = .ok o) ↔ Usable args := by
  induction s, args using secondPass.induct with
  | case1 s =>
    apply iff_of_true ⟨s, rfl⟩
    intro x hx
    cases hx
  | case2 s a htreat => simp [secondPass, Usable, HasOperand, htreat]
  | case3 s a set htreat => simp [secondPass, Usable, HasOperand, htreat]
  | case4 s a set htreat => simp [secondPass, Usable, HasOperand, htreat]
  | case5 s a e htreat => simp [secondPass, Usable, HasOperand, htreat]
  | case6 s a v rest htreat ih =>
    have htake : takesOperand a = true := by rw [takesOperand, htreat]
    have hoperand : HasOperand (a, some v) := by
      unfold HasOperand
      rw [htreat]
      trivial
    rw [usable_take htake, and_iff_right hoperand, ← ih, secondPass, htreat]
  | case7 s a v rest set htreat ih =>
    have htake : takesOperand a = true := by rw [takesOperand, htreat]
    have hoperand : HasOperand (a, some v) := by
      unfold HasOperand
      rw [htreat]
      exact Option.some_ne_none v
    rw [usable_take htake, and_iff_right hoperand, ← ih, secondPass, htreat]
  | case8 s a v rest set htreat ih =>
    have hpass : takesOperand a = false := by rw [takesOperand, htreat]
    have hoperand : HasOperand (a, (v :: rest).head?) := by
      unfold HasOperand
      rw [htreat]
      trivial
    rw [usable_pass hpass, and_iff_right hoperand, ← ih, secondPass, htreat]
  | case9 s a v rest e htreat =>
    have hpass : takesOperand a = false := by rw [takesOperand, htreat]
    have hnot : ¬ HasOperand (a, (v :: rest).head?) := by
      unfold HasOperand
      rw [htreat]
      exact id
    rw [usable_pass hpass, secondPass, htreat]
    exact iff_of_false (error_not_ok e) fun h => hnot h.1

/-- The settings of a command line over others: an option that is given counts. -/
def Settings.over (g : Opt → Option Word) (s : Settings) : Settings where
  cfg :=
    { device := (g .device).getD s.cfg.device
      width := ((g .width).map atoi).getD s.cfg.width
      height := ((g .height).map atoi).getD s.cfg.height
      fps := ((g .fps).map atoi).getD s.cfg.fps }
  port := ((g .port).map fun v => (atoi v).toUInt32.toUInt16).getD s.port
  bindAddr := (g .bind).getD s.bindAddr
  verbose := (g .verbose).isSome || s.verbose
  logDir := (g .logDir).getD s.logDir
  logFile := (g .logFile).getD s.logFile

/-- Of the options of each kind the last counts. -/
theorem foldl_write (es : List (Option Opt × Word)) {s : Settings} (hs : s.configs = []) :
    es.foldl Settings.write s = s.over fun k => lastVal es (some k) := by
  induction es using List.reverseRecOn with
  | nil =>
    cases s
    cases hs
    rfl
  | append_singleton es e ih =>
    obtain ⟨k, v⟩ := e
    rw [List.foldl_append, ih, List.foldl_cons, List.foldl_nil]
    cases k with
    | none => simp [Settings.write, Settings.over, lastVal_concat]
    | some k => cases k <;> simp [Settings.write, Settings.over, lastVal_concat]

/-- `main` comes to its end exactly if the first loop looks at no `-V` and the second serves all the
words that it looks at.  Each setting is then what the last option of its kind says; else what the
file says that the first loop has selected, the one behind its last `-c`; else the default. -/
theorem start_settings (toLong : List UInt8 → Int64) (files : Word → Option (List UInt8))
    (args : List Word) :
    let c := (ConfigManager.load toLong {} (files (lastBehind isConfig args))).1
    ((∃ o, start toLong files args = .ok o) ↔
      (∀ x ∈ looked isConfig args, isVersion x.1 = false) ∧ Usable args) ∧
    ∀ o, start toLong files args = .ok o → o.plain = (configured c).over (given args) := by
  intro c
  by_cases hversions : (looked isConfig args).any fun x => isVersion x.1
  · have hstart : start toLong files args = .error .version := by
      rw [start, prescan_eq, if_pos hversions]
    rw [hstart]
    constructor
    · apply iff_of_false (error_not_ok .version)
      rintro ⟨hnone, -⟩
      obtain ⟨x, hx, hversion⟩ := List.any_eq_true.mp hversions
      rw [hnone x hx] at hversion
      cases hversion
    · intro o ho
      cases ho
  · have hstart : start toLong files args = secondPass (configured c) args := by
      rw [start, prescan_eq, if_neg hversions]
      rfl
    have hnone : ∀ x ∈ looked isConfig args, isVersion x.1 = false := by simpa using hversions
    rw [hstart, secondPass_ok_iff, and_iff_right hnone]
    refine ⟨Iff.rfl, fun o ho => ?_⟩
    rw [secondPass_write ho, foldl_write _ rfl]
    rfl

/-- Two widths and a port, of which the second width counts. -/
example : start (fun _ => 0) (fun _ => none)
      [ascii "-W", ascii "640", ascii "-p", ascii "80", ascii "--width", ascii "320"] =
    .ok { configured {} with cfg := ⟨ascii "/dev/video0", 320, 720, 30⟩, port := 80 } := by
  rfl

end Patrol.App
