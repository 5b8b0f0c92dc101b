import Patrol.App.Application
import Patrol.Config.ConfigManager
import Patrol.ProofKit.Operands

/-! The command line: the two loops of `main` over `argv[1]`, `argv[2]`, ...  The first looks for
the configuration file, and the second for all the options. -/

namespace Patrol.App

open ProofKit Json Config

/-- A word of the command line. -/
abbrev Word := List UInt8

/-- `std::atoi`: `strtol`, of which the low 32 bits stay. -/
def atoi (num : Word) : Int32 :=
  let negative (digits : Word) := max (-2 ^ 63 : Int) (-decimal (digits.takeWhile isdigit))
  let positive (digits : Word) := min (2 ^ 63 - 1 : Int) (decimal (digits.takeWhile isdigit))
  match num.dropWhile isspace with
  | 0x2D :: digits => Int32.ofInt (negative digits)
  | 0x2B :: digits => Int32.ofInt (positive digits)
  | digits => Int32.ofInt (positive digits)

/-- How `main` returns, or `needValue` exits, before the second loop is over. -/
inductive Exit
  | version
  | help
  | missingValue (opt : Word)
  | unknownOption (a : Word)
deriving DecidableEq, Repr

def Exit.code : Exit → Nat
  | version => 0
  | help => 0
  | missingValue _ => 2
  | unknownOption _ => 2

/-- What stands on `stderr`. -/
def Exit.error : Exit → List UInt8
  | version => []
  | help => []
  | missingValue opt => "选项 ".toUTF8.toList ++ (opt ++ " 缺少参数\n".toUTF8.toList)
  | unknownOption a => "未知选项: ".toUTF8.toList ++ (a ++ "\n".toUTF8.toList)

/-- The variables that the second loop sets: `cfg` with its last two members, and those of `main`.
`configs` is not in the source: what stood behind each `-c` that the loop has gone past. -/
structure Settings where
  cfg : AppConfig
  port : UInt16
  bindAddr : List UInt8
  verbose : Bool := false
  logDir : List UInt8 := []
  logFile : List UInt8 := []
  configs : List (Option Word) := []

inductive Opt
  | config
  | device
  | width
  | height
  | fps
  | port
  | bind
  | logDir
  | logFile
  | verbose
  | version
  | help
deriving DecidableEq, Repr

namespace Opt

def names : Opt → List Word
  | config => [ascii "-c", ascii "--config"]
  | device => [ascii "-d", ascii "--device"]
  | width => [ascii "-W", ascii "--width"]
  | height => [ascii "-H", ascii "--height"]
  | fps => [ascii "-f", ascii "--fps"]
  | port => [ascii "-p", ascii "--port"]
  | bind => [ascii "-b", ascii "--bind"]
  | logDir => [ascii "--log-dir"]
  | logFile => [ascii "--log-file"]
  | verbose => [ascii "-v", ascii "--verbose"]
  | version => [ascii "-V", ascii "--version"]
  | help => [ascii "-h", ascii "--help"]

/-- The options in the order of the tests. -/
def all : List Opt :=
  [config, device, width, height, fps, port, bind, logDir, logFile, verbose, version, help]

/-- The word is a name of the option. -/
def named (o : Opt) (a : Word) : Bool := o.names.contains a

end Opt

/-- The first test that a word passes. -/
def optionOf (a : Word) : Option Opt := Opt.all.find? fun o => o.named a

def isConfig (a : Word) : Bool := Opt.config.named a

def isVersion (a : Word) : Bool := Opt.version.named a

def defaultPath : Word := ascii "/etc/patrol/config.json"

/-- The first loop.  It returns no path if it prints the version. -/
def prescan (configPath : Word) : List Word → Option Word
  | [] => some configPath
  | [a] => if isVersion a then none else some configPath
  | a :: v :: rest =>
    if isVersion a then none
    else if isConfig a then prescan v rest
    else prescan configPath (v :: rest)

/-- What the second loop does at a word: it goes past the next word, takes its value, sets a
variable, or returns. -/
inductive Treatment
  | skip
  | value (set : Word → Settings → Settings)
  | flag (set : Settings → Settings)
  | exit (e : Exit)

def treatment (a : Word) : Treatment :=
  match optionOf a with
  | some .config => .skip
  | some .device => .value fun v s => { s with cfg.device := v }
  | some .width => .value fun v s => { s with cfg.width := atoi v }
  | some .height => .value fun v s => { s with cfg.height := atoi v }
  | some .fps => .value fun v s => { s with cfg.fps := atoi v }
  | some .port => .value fun v s => { s with port := (atoi v).toUInt32.toUInt16 }
  | some .bind => .value fun v s => { s with bindAddr := v }
  | some .logDir => .value fun v s => { s with logDir := v }
  | some .logFile => .value fun v s => { s with logFile := v }
  | some .verbose => .flag fun s => { s with verbose := true }
  | some .version => .exit .version
  | some .help => .exit .help
  | none => .exit (.unknownOption a)

/-- The second loop.  A `-c` at the end has nothing to go past. -/
def secondPass (s : Settings) : List Word → Except Exit Settings
  | [] => .ok s
  | [a] =>
    match treatment a with
    | .skip => .ok { s with configs := s.configs ++ [none] }
    | .value _ => .error (.missingValue a)
    | .flag set => .ok (set s)
    | .exit e => .error e
  | a :: v :: rest =>
    match treatment a with
    | .skip => secondPass { s with configs := s.configs ++ [some v] } rest
    | .value set => secondPass (set v s) rest
    | .flag set => secondPass (set s) (v :: rest)
    | .exit e => .error e

/-- What the second loop starts with. -/
def configured (c : ConfigManager) : Settings where
  cfg := ⟨c.camera.device, c.camera.width, c.camera.height, c.camera.fps⟩
  port := c.network.port
  bindAddr := c.network.bind

/-- `main` up to the end of the second loop, with what stands in the files that can be read. -/
def start (toLong : List UInt8 → Int64) (files : Word → Option (List UInt8)) (args : List Word) :
    Except Exit Settings :=
  match prescan defaultPath args with
  | none => .error .version
  | some configPath =>
    secondPass (configured (ConfigManager.load toLong {} (files configPath)).1) args

theorem missingValue_names (a : Word) : a <:+: (Exit.missingValue a).error :=
  ⟨_, _, List.append_assoc _ _ _⟩

theorem exit_names {a : Word} {e : Exit} (h : treatment a = .exit e) (hcode : e.code = 2) :
    a <:+: e.error := by
  rw [treatment] at h
  split at h <;> cases h
  · cases hcode
  · cases hcode
  · exact ⟨_, _, List.append_assoc _ _ _⟩

/-- An error of the second loop names the word that it is about. -/
theorem secondPass_names {s : Settings} {args : List Word} {e : Exit}
    (h : secondPass s args = .error e) (hcode : e.code = 2) : ∃ a ∈ args, a <:+: e.error := by
  induction s, args using secondPass.induct with
  | case1 s => cases h
  | case2 s a htreat =>
    rw [secondPass, htreat] at h
    cases h
  | case3 s a set htreat =>
    rw [secondPass, htreat] at h
    cases h
    exact ⟨a, List.mem_cons_self, missingValue_names a⟩
  | case4 s a set htreat =>
    rw [secondPass, htreat] at h
    cases h
  | case5 s a e htreat =>
    rw [secondPass, htreat] at h
    cases h
    exact ⟨a, List.mem_cons_self, exit_names htreat hcode⟩
  | case6 s a v rest htreat ih =>
    rw [secondPass, htreat] at h
    obtain ⟨b, hb, hnames⟩ := ih h
    exact ⟨b, by simp [hb], hnames⟩
  | case7 s a v rest set htreat ih =>
    rw [secondPass, htreat] at h
    obtain ⟨b, hb, hnames⟩ := ih h
    exact ⟨b, by simp [hb], hnames⟩
  | case8 s a v rest set htreat ih =>
    rw [secondPass, htreat] at h
    obtain ⟨b, hb, hnames⟩ := ih h
    exact ⟨b, List.mem_cons_of_mem _ hb, hnames⟩
  | case9 s a v rest e htreat =>
    rw [secondPass, htreat] at h
    cases h
    exact ⟨a, List.mem_cons_self, exit_names htreat hcode⟩

/-! ### What the loops look at -/

/-- The words that the second loop looks at together with the word behind them. -/
def takesOperand (a : Word) : Bool :=
  match treatment a with
  | .skip => true
  | .value _ => true
  | _ => false

/-- What stands behind the `-c` words that have an even number of words with `takes` directly before
them. -/
def behindConfigs (takes : Word → Bool) (args : List Word) : List (Option Word) :=
  ((looked takes args).filter fun x => isConfig x.1).map Prod.snd

/-- The last word that stands there, or the default path. -/
def lastBehind (takes : Word → Bool) (args : List Word) : Word :=
  ((behindConfigs takes args).filterMap id).getLast?.getD defaultPath

theorem treatment_config {a : Word} (h : isConfig a = true) : treatment a = .skip := by
  have hfirst : optionOf a = some .config := List.find?_cons_of_pos h
  rw [treatment, hfirst]

theorem config_of_skip {a : Word} (h : treatment a = .skip) : isConfig a = true := by
  rw [treatment] at h
  split at h <;> try cases h
  · next hfind => exact List.find?_some (p := fun o : Opt => o.named a) hfind

theorem value_configs {a : Word} {set : Word → Settings → Settings} (h : treatment a = .value set)
    (v : Word) (s : Settings) : (set v s).configs = s.configs := by
  rw [treatment] at h
  split at h <;> cases h <;> rfl

theorem flag_configs {a : Word} {set : Settings → Settings} (h : treatment a = .flag set)
    (s : Settings) : (set s).configs = s.configs := by
  rw [treatment] at h
  split at h <;> cases h
  rfl

theorem behindConfigs_singleton (takes : Word → Bool) (a : Word) :
    behindConfigs takes [a] = if isConfig a then [none] else [] := by
  rw [behindConfigs, looked_singleton]
  cases hconfig : isConfig a with
  | true => rw [List.filter_cons_of_pos (by exact hconfig)]; rfl
  | false => rw [List.filter_cons_of_neg (by simp [hconfig])]; rfl

theorem behindConfigs_pass {takes : Word → Bool} {a : Word} (ha : takes a = false)
    (hconfig : isConfig a = false) (l : List Word) :
    behindConfigs takes (a :: l) = behindConfigs takes l := by
  rw [behindConfigs, looked_pass ha, List.filter_cons_of_neg (by simp [hconfig]), behindConfigs]

theorem behindConfigs_take {takes : Word → Bool} {a : Word} (ha : takes a = true) (v : Word)
    (l : List Word) : behindConfigs takes (a :: v :: l) =
      (if isConfig a then [some v] else []) ++ behindConfigs takes l := by
  rw [behindConfigs, looked_take ha, behindConfigs]
  cases hconfig : isConfig a with
  | true => rw [List.filter_cons_of_pos (by exact hconfig)]; rfl
  | false => rw [List.filter_cons_of_neg (by simp [hconfig])]; rfl

/-- The first loop looks at the words with an even number of `-c` words directly before them. -/
theorem prescan_eq (configPath : Word) (args : List Word) : prescan configPath args =
    if (looked isConfig args).any (fun x => isVersion x.1) then none
    else some (((behindConfigs isConfig args).filterMap id).getLast?.getD configPath) := by
  induction configPath, args using prescan.induct with
  | case1 configPath => rfl
  | case2 configPath a h =>
    rw [prescan, looked_singleton, if_pos h]
    simp [h]
  | case3 configPath a h =>
    rw [prescan, looked_singleton, behindConfigs_singleton, if_neg h]
    simp only [List.any_cons, h, List.any_nil, Bool.or_false, if_false, Bool.false_eq_true]
    split <;> rfl
  | case4 configPath a v rest hversion =>
    rw [prescan, if_pos hversion]
    cases hconfig : isConfig a with
    | true => simp [looked_take hconfig, hversion]
    | false => simp [looked_pass hconfig, hversion]
  | case5 configPath a v rest hversion hconfig ih =>
    rw [prescan, if_neg hversion, if_pos hconfig, ih, looked_take hconfig,
      behindConfigs_take hconfig, if_pos hconfig, List.any_cons]
    simp only [hversion, Bool.false_or, List.singleton_append, List.filterMap_cons, id,
      List.getLast?_cons, Option.getD_some]
  | case6 configPath a v rest hversion hconfig ih =>
    rw [Bool.not_eq_true] at hconfig
    rw [prescan, if_neg hversion, if_neg (by simp [hconfig]), ih, looked_pass hconfig,
      behindConfigs_pass hconfig hconfig, List.any_cons]
    simp only [hversion, Bool.false_or]

theorem not_config {a : Word} (h : treatment a ≠ .skip) : isConfig a = false := by
  rw [← Bool.not_eq_true]
  exact fun hconfig => h (treatment_config hconfig)

/-- The second loop looks at the words with an even number of words directly before them that take
an operand. -/
theorem secondPass_configs {s o : Settings} {args : List Word} (h : secondPass s args = .ok o) :
    o.configs = s.configs ++ behindConfigs takesOperand args := by
  induction s, args using secondPass.induct with
  | case1 s =>
    cases h
    exact (List.append_nil _).symm
  | case2 s a htreat =>
    rw [secondPass, htreat] at h
    cases h
    rw [behindConfigs_singleton, if_pos (config_of_skip htreat)]
  | case3 s a set htreat =>
    rw [secondPass, htreat] at h
    cases h
  | case4 s a set htreat =>
    rw [secondPass, htreat] at h
    cases h
    have hconfig : isConfig a = false := not_config (by rw [htreat]; nofun)
    rw [behindConfigs_singleton, hconfig, flag_configs htreat]
    exact (List.append_nil _).symm
  | case5 s a e htreat =>
    rw [secondPass, htreat] at h
    cases h
  | case6 s a v rest htreat ih =>
    rw [secondPass, htreat] at h
    rw [ih h, behindConfigs_take (by rw [takesOperand, htreat]), if_pos (config_of_skip htreat),
      List.append_assoc]
  | case7 s a v rest set htreat ih =>
    rw [secondPass, htreat] at h
    have hconfig : isConfig a = false := not_config (by rw [htreat]; nofun)
    rw [ih h, behindConfigs_take (by rw [takesOperand, htreat]), hconfig, value_configs htreat]
    rfl
  | case8 s a v rest set htreat ih =>
    rw [secondPass, htreat] at h
    have hconfig : isConfig a = false := not_config (by rw [htreat]; nofun)
    rw [ih h, behindConfigs_pass (by rw [takesOperand, htreat]) hconfig, flag_configs htreat]
  | case9 s a v rest e htreat =>
    rw [secondPass, htreat] at h
    cases h

/-! ### Agreement -/

/-- The first loop has selected the operand of the last `-c` that the second recognises, or the
default path, and each of these has an operand. -/
structure PassesAgree (args : List Word) (configs : List (Option Word)) : Prop where
  operands : none ∉ configs
  path : prescan defaultPath args = some (configs.getLast?.join.getD defaultPath)

/-- Of the `-c` words with an even number of words directly before them that take an operand, none
is at the end.  Each `-V` has an odd number of `-c` words directly before it.  The last word behind
a `-c` with an even number of `-c` words directly before it is the last behind one with an even
number of words directly before it that take an operand. -/
structure Aligned (args : List Word) : Prop where
  operands : none ∉ behindConfigs takesOperand args
  versions : ∀ x ∈ looked isConfig args, isVersion x.1 = false
  paths : lastBehind isConfig args = lastBehind takesOperand args

theorem getLast_operands {configs : List (Option Word)} (h : none ∉ configs) :
    (configs.filterMap id).getLast? = configs.getLast?.join := by
  induction configs using List.reverseRecOn with
  | nil => rfl
  | append_singleton configs c _ =>
    cases c with
    | none => exact absurd (by simp) h
    | some v => simp

section Ended

variable {c : ConfigManager} {args : List Word} {o : Settings}

theorem configs_ended (h : secondPass (configured c) args = .ok o) :
    o.configs = behindConfigs takesOperand args :=
  secondPass_configs h

theorem agree_of_aligned (h : secondPass (configured c) args = .ok o) (ha : Aligned args) :
    PassesAgree args o.configs := by
  obtain ⟨hoperands, hversions, hpaths⟩ := ha
  rw [configs_ended h]
  refine ⟨hoperands, ?_⟩
  rw [prescan_eq, if_neg (by simpa using hversions), ← getLast_operands hoperands]
  exact congrArg some hpaths

theorem aligned_of_agree (h : secondPass (configured c) args = .ok o)
    (ha : PassesAgree args o.configs) : Aligned args := by
  rw [configs_ended h] at ha
  obtain ⟨hoperands, hpath⟩ := ha
  rw [prescan_eq, ← getLast_operands hoperands] at hpath
  split at hpath
  · cases hpath
  · next hversions => exact ⟨hoperands, by simpa using hversions, Option.some.inj hpath⟩

/-- If the second loop reaches its end, the two loops agree exactly on an aligned command line. -/
theorem passes_agree_iff (h : secondPass (configured c) args = .ok o) :
    PassesAgree args o.configs ↔ Aligned args :=
  ⟨aligned_of_agree h, agree_of_aligned h⟩

end Ended

/-- A device and a configuration file. -/
theorem passes_agree_device :
    PassesAgree [ascii "-d", ascii "cam0", ascii "-c", ascii "x.json"] [some (ascii "x.json")] :=
  (passes_agree_iff (c := {}) (o := { configured {} with
      cfg := ⟨ascii "cam0", 1280, 720, 30⟩, configs := [some (ascii "x.json")] }) rfl).mpr
    ⟨by decide, by decide, by decide⟩

/-- `-d -c -v`: the second loop takes `-c` for the device, and the first takes `-v` for the path of
the configuration file. -/
theorem device_taken_for_config :
    prescan defaultPath [ascii "-d", ascii "-c", ascii "-v"] = some (ascii "-v") ∧
      (∃ o, secondPass (configured {}) [ascii "-d", ascii "-c", ascii "-v"] = .ok o ∧
        o.configs = []) ∧
      ¬ ∀ c args o, secondPass (configured c) args = .ok o → PassesAgree args o.configs := by
  have hended : secondPass (configured {}) [ascii "-d", ascii "-c", ascii "-v"] =
      .ok { configured {} with cfg := ⟨ascii "-c", 1280, 720, 30⟩, verbose := true } := rfl
  refine ⟨by decide, ⟨_, hended, rfl⟩, fun hall => ?_⟩
  have hpath := (hall _ _ _ hended).path
  exact absurd hpath (by decide)

/-- A `-c` at the end is accepted. -/
example : (secondPass (configured {}) [ascii "-c"]).map Settings.configs = .ok [none] := by decide

/-- On an aligned command line the options stand over the file that the last `-c` names. -/
theorem start_configured {toLong : List UInt8 → Int64} {files : Word → Option (List UInt8)}
    {args : List Word} {o : Settings} (h : start toLong files args = .ok o) (ha : Aligned args) :
    secondPass (configured (ConfigManager.load toLong {}
      (files (o.configs.getLast?.join.getD defaultPath))).1) args = .ok o := by
  rw [start] at h
  split at h
  · cases h
  · next configPath hscan =>
    have hpath := (agree_of_aligned h ha).path
    rw [hscan] at hpath
    rwa [← Option.some.inj hpath]

end Patrol.App
