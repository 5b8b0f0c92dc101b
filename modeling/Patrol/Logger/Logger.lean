import Mathlib.Data.List.DropRight
import Patrol.Logger.Timestamp
import Patrol.ProofKit.Ledger
import Patrol.ProofKit.Mutex

/-! `Logger`: threads that print lines on `stderr` and into a log file, one at a time under one lock. -/

namespace Patrol.Logger

open ProofKit Config ConfigManager

inductive LogLevel
  | debug
  | info
  | warn
  | error
deriving DecidableEq, Repr

def LogLevel.toNat : LogLevel → Nat
  | .debug => 0
  | .info => 1
  | .warn => 2
  | .error => 3

def levelTag : LogLevel → List UInt8
  | .debug => ascii "DEBUG"
  | .info => ascii "INFO "
  | .warn => ascii "WARN "
  | .error => ascii "ERROR"

/-- `/` or `\` -/
def IsSeparator (c : UInt8) : Prop := c = 0x2F ∨ c = 0x5C

instance : DecidablePred IsSeparator := fun _ => instDecidableOr

/-- The loop of `baseName`: what the name may be so far, and what is still to be read. -/
def baseNameFrom (base : List UInt8) : List UInt8 → List UInt8
  | [] => base
  | c :: p => baseNameFrom (if IsSeparator c then p else base) p

def baseName (path : List UInt8) : List UInt8 := baseNameFrom path path

theorem rtakeWhile_append_cons {c : UInt8} (hc : IsSeparator c) (q p : List UInt8) :
    (q ++ c :: p).rtakeWhile (fun c => !decide (IsSeparator c)) =
      p.rtakeWhile (fun c => !decide (IsSeparator c)) := by
  induction p using List.reverseRecOn with
  | nil => simp [hc]
  | append_singleton p d ih =>
    rw [← List.cons_append, ← List.append_assoc, List.rtakeWhile_concat, List.rtakeWhile_concat, ih]

theorem baseNameFrom_eq {q : List UInt8} (hq : ∀ c ∈ q, ¬ IsSeparator c) (p : List UInt8) :
    baseNameFrom (q ++ p) p = (q ++ p).rtakeWhile fun c => !decide (IsSeparator c) := by
  induction p generalizing q with
  | nil =>
    rw [List.append_nil, baseNameFrom, eq_comm, List.rtakeWhile_eq_self_iff]
    simpa using hq
  | cons c p ih =>
    rw [baseNameFrom]
    split
    · next hc =>
      rw [rtakeWhile_append_cons hc]
      exact @ih [] nofun
    · next hc =>
      rw [List.append_cons]
      apply ih
      simp only [List.forall_mem_append, List.forall_mem_singleton]
      exact ⟨hq, hc⟩

/-- The name is what comes after the last separator. -/
theorem baseName_eq (path : List UInt8) :
    baseName path = path.rtakeWhile fun c => !decide (IsSeparator c) :=
  @baseNameFrom_eq [] nofun path

/-- A call of `log`, with the text that the format makes of its arguments, and the local time. -/
structure Call where
  level : LogLevel
  file : List UInt8
  line : Int
  text : List UInt8
  time : Tm

/-- `vsnprintf` leaves the last byte of `msg` to the null byte. -/
def Call.msg (c : Call) : List UInt8 := c.text.take 4095

/-- `"[%s][%s][%s:%d] %s\n"` -/
def Call.bytes (c : Call) : List UInt8 :=
  ascii "[" ++ (printStr (nowStr c.time) ++ (ascii "][" ++ (levelTag c.level ++ (ascii "][" ++
    (printStr (baseName c.file) ++ (ascii ":" ++ (printInt c.line ++ (ascii "] " ++
    (printStr c.msg ++ ascii "\n")))))))))

/-- What the lock protects: the log file, what has been written on `stderr` and into the files, and the
log files that have been opened and closed. -/
structure Sinks (File : Type) where
  gFile : Option File
  stderr : List UInt8
  files : File → List UInt8
  calls : List (Entry File)

/-- What a thread has to do while it has the lock: `fprintf` writes byte by byte. -/
inductive Job (File : Type)
  | print (line rest : List UInt8)
  | save (file : File) (rest : List UInt8)
  | setLogFile (path : List UInt8) (opened : Option File)
  | fopen (path : List UInt8) (opened : Option File)
  | closeLogFile

variable {Thread File : Type} [DecidableEq Thread] [DecidableEq File]

namespace Sinks

def print (w : Sinks File) (bytes : List UInt8) : Sinks File :=
  { w with stderr := w.stderr ++ bytes }

def save (w : Sinks File) (f : File) (bytes : List UInt8) : Sinks File :=
  { w with files := Function.update w.files f (w.files f ++ bytes) }

/-- `if (g_file) { std::fclose(g_file); g_file = nullptr; }` -/
def fclose (w : Sinks File) : Sinks File :=
  match w.gFile with
  | none => w
  | some f => { w with gFile := none, calls := w.calls ++ [.release f] }

/-- `g_file = std::fopen(path.c_str(), "a")` -/
def fopen (w : Sinks File) (opened : Option File) : Sinks File :=
  match opened with
  | none => { w with gFile := none }
  | some f => { w with gFile := some f, calls := w.calls ++ [.acquire f] }

end Sinks

/-- One step of a job. -/
def act : Job File → Sinks File → Option (Job File) × Sinks File
  | .print line (b :: rest), w => (some (.print line rest), w.print [b])
  | .print line [], w => (w.gFile.map fun f => .save f line, w)
  | .save f (b :: rest), w => (some (.save f rest), w.save f [b])
  | .save _ [], w => (none, w)
  | .setLogFile path opened, w => (some (.fopen path opened), w.fclose)
  | .fopen path opened, w => (none, if path.isEmpty then w else w.fopen opened)
  | .closeLogFile, w => (none, w.fclose)

/-- The steps that a job takes at most, but for the last. -/
def Job.size : Job File → Nat
  | .print line rest => rest.length + line.length + 1
  | .save _ rest => rest.length
  | .setLogFile _ _ => 1
  | .fopen _ _ => 0
  | .closeLogFile => 0

def jobs : Jobs (Sinks File) (Job File) where
  act := act
  size job _ := job.size
  size_act := by
    intro job w rest w' h
    cases job with
    | print line r =>
      cases r with
      | nil =>
        obtain ⟨f, -, rfl⟩ := Option.map_eq_some_iff.mp (Prod.mk.inj h).1
        exact Nat.lt_of_lt_of_eq (Nat.lt_succ_self _) (by simp [Job.size])
      | cons b r =>
        cases h
        simp [Job.size]
    | save f r =>
      cases r with
      | nil => cases h
      | cons b r =>
        cases h
        exact Nat.lt_succ_self _
    | setLogFile path opened =>
      cases h
      exact Nat.zero_lt_one
    | fopen path opened => cases h
    | closeLogFile => cases h

/-- The lowest level that is printed, and what the lock protects. -/
structure State (Thread File : Type) where
  level : LogLevel
  monitor : Mutex.State Thread (Sinks File) (Job File)

def start (level : LogLevel) (stderr : List UInt8) (files : File → List UInt8) :
    State Thread File :=
  ⟨level, Mutex.start ⟨none, stderr, files, []⟩⟩

/-- What happens: a thread calls, it gets the lock, or it does a step of its job; and `g_level` is
written and read without the lock. -/
inductive Event (Thread File : Type)
  | setLevel (level : LogLevel)
  | log (i : Thread) (c : Call)
  | setLogFile (i : Thread) (path : List UInt8) (opened : Option File)
  | closeLogFile (i : Thread)
  | lock (i : Thread)
  | work (i : Thread)

def State.on (s : State Thread File) (e : Mutex.Event Thread (Job File)) :
    Option (State Thread File) :=
  (Mutex.step jobs s.monitor e).map fun m => { s with monitor := m }

def step (s : State Thread File) : Event Thread File → Option (State Thread File)
  | .setLevel level => some { s with level }
  | .log i c =>
    if c.level.toNat < s.level.toNat then some s else s.on (.ask i (.print c.bytes c.bytes))
  | .setLogFile i path opened => s.on (.ask i (.setLogFile path opened))
  | .closeLogFile i => s.on (.ask i .closeLogFile)
  | .lock i => s.on (.lock i)
  | .work i => s.on (.work i)

def run (s : State Thread File) : List (Event Thread File) → Option (State Thread File)
  | [] => some s
  | e :: es => (step s e).bind fun s => run s es

end Patrol.Logger
