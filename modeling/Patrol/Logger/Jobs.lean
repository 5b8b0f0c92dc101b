import Patrol.Logger.Logger

/-! The jobs of the threads: a part of one, and whole ones, one after another. -/

namespace Patrol.Logger

open ProofKit Config ConfigManager Mutex

variable {Thread File : Type}

theorem Sinks.print_nil (w : Sinks File) : w.print [] = w := by
  rw [print, List.append_nil]

theorem Sinks.print_append (w : Sinks File) (a b : List UInt8) :
    (w.print a).print b = w.print (a ++ b) := by
  simp only [print, List.append_assoc]

/-! ### Closing and opening -/

theorem Sinks.fclose_gFile (w : Sinks File) : w.fclose.gFile = none := by
  unfold Sinks.fclose
  split
  · assumption
  · rfl

theorem Sinks.fclose_stderr (w : Sinks File) : w.fclose.stderr = w.stderr := by
  unfold Sinks.fclose
  split <;> rfl

theorem Sinks.fclose_files (w : Sinks File) : w.fclose.files = w.files := by
  unfold Sinks.fclose
  split <;> rfl

theorem Sinks.fopen_stderr (w : Sinks File) (opened : Option File) :
    (w.fopen opened).stderr = w.stderr := by
  cases opened <;> rfl

theorem Sinks.fopen_files (w : Sinks File) (opened : Option File) :
    (w.fopen opened).files = w.files := by
  cases opened <;> rfl

theorem Sinks.fopen_gFile (w : Sinks File) (opened : Option File) :
    (w.fopen opened).gFile = opened := by
  cases opened <;> rfl

/-! ### What a list of jobs is to print -/

def Job.lines : Job File → List (List UInt8)
  | .print line _ => [line]
  | _ => []

/-- The log file after a job. -/
def Job.logFile (g : Option File) : Job File → Option File
  | .setLogFile path opened => if path.isEmpty then none else opened
  | .closeLogFile => none
  | _ => g

/-- The lines of the calls, in the order in which they get the lock. -/
def printed (order : List (Thread × Job File)) : List (List UInt8) :=
  order.flatMap fun a => a.2.lines

/-- The log file after jobs. -/
def logFile (g : Option File) (order : List (Thread × Job File)) : Option File :=
  order.foldl (fun g a => a.2.logFile g) g

theorem printed_concat (order : List (Thread × Job File)) (a : Thread × Job File) :
    printed (order ++ [a]) = printed order ++ a.2.lines := by
  rw [printed, List.flatMap_append, List.flatMap_singleton]
  rfl

theorem logFile_concat (g : Option File) (order : List (Thread × Job File)) (a : Thread × Job File) :
    logFile g (order ++ [a]) = a.2.logFile (logFile g order) := by
  rw [logFile, List.foldl_append]
  rfl

/-! ### What the threads ask for -/

/-- What a call asks for. -/
inductive Asked : Job File → Prop
  | log (line : List UInt8) : Asked (.print line line)
  | setLogFile (path : List UInt8) (opened : Option File) : Asked (.setLogFile path opened)
  | closeLogFile : Asked .closeLogFile

variable [DecidableEq File]

/-! ### One job -/

/-- What a job does where nothing interrupts it. -/
def Sinks.perform (w : Sinks File) : Job File → Sinks File
  | .print line rest =>
    match w.gFile with
    | none => w.print rest
    | some f => (w.print rest).save f line
  | .save f rest => w.save f rest
  | .setLogFile path opened => if path.isEmpty then w.fclose else w.fclose.fopen opened
  | .fopen path opened => if path.isEmpty then w else w.fopen opened
  | .closeLogFile => w.fclose

theorem Sinks.save_nil (w : Sinks File) (f : File) : w.save f [] = w := by
  rw [save, List.append_nil, Function.update_eq_self]

theorem Sinks.save_append (w : Sinks File) (f : File) (a b : List UInt8) :
    (w.save f a).save f b = w.save f (a ++ b) := by
  simp only [save, Function.update_self, Function.update_idem, List.append_assoc]

theorem whole_save (f : File) (rest : List UInt8) (w : Sinks File) :
    jobs.whole (.save f rest) w = w.save f rest := by
  induction rest generalizing w with
  | nil => rw [jobs.whole_of_done rfl, Sinks.save_nil]
  | cons b rest ih => rw [jobs.whole_of_rest rfl, ih, Sinks.save_append, List.singleton_append]

theorem whole_print (line rest : List UInt8) (w : Sinks File) :
    jobs.whole (.print line rest) w = w.perform (.print line rest) := by
  induction rest generalizing w with
  | nil =>
    cases h : w.gFile with
    | none =>
      have hact : jobs.act (.print line []) w = (none, w) := by
        simp only [jobs, act, h, Option.map_none]
      rw [jobs.whole_of_done hact, Sinks.perform, h, Sinks.print_nil]
    | some f =>
      have hact : jobs.act (.print line []) w = (some (.save f line), w) := by
        simp only [jobs, act, h, Option.map_some]
      rw [jobs.whole_of_rest hact, whole_save, Sinks.perform, h, Sinks.print_nil]
  | cons b rest ih =>
    rw [jobs.whole_of_rest rfl, ih, Sinks.perform, Sinks.perform, Sinks.print_append,
      List.singleton_append]
    rfl

theorem whole_eq (job : Job File) (w : Sinks File) : jobs.whole job w = w.perform job := by
  cases job with
  | print line rest => exact whole_print line rest w
  | save f rest => exact whole_save f rest w
  | setLogFile path opened =>
    rw [jobs.whole_of_rest rfl, jobs.whole_of_done rfl, Sinks.perform]
  | fopen path opened => exact jobs.whole_of_done rfl
  | closeLogFile => exact jobs.whole_of_done rfl

/-- A part of a line is on `stderr`, or all of it, and a part of it is in the log file. -/
theorem part_print {line : List UInt8} {w y : Sinks File} {rest : Job File}
    (h : jobs.Part (.print line line) w rest y) :
    ∃ p r, line = p ++ r ∧ ((rest = .print line r ∧ y = w.print p) ∨
      ∃ f, w.gFile = some f ∧ rest = .save f r ∧ y = (w.print line).save f p) := by
  induction h with
  | start => exact ⟨[], line, rfl, Or.inl ⟨rfl, w.print_nil.symm⟩⟩
  | act h hact ih =>
    obtain ⟨p, r, hline, ⟨rfl, rfl⟩ | ⟨f, hf, rfl, rfl⟩⟩ := ih
    · cases r with
      | nil =>
        rw [List.append_nil] at hline
        obtain ⟨hopen, rfl⟩ := Prod.mk.inj hact
        obtain ⟨f, hf, rfl⟩ := Option.map_eq_some_iff.mp hopen
        exact ⟨[], line, rfl, Or.inr ⟨f, hf, rfl, by rw [Sinks.save_nil, hline]⟩⟩
      | cons b r =>
        cases hact
        exact ⟨p ++ [b], r, by simpa using hline, Or.inl ⟨rfl, w.print_append p [b]⟩⟩
    · cases r with
      | nil => cases hact
      | cons b r =>
        cases hact
        refine ⟨p ++ [b], r, by simpa using hline, Or.inr ⟨f, hf, rfl, ?_⟩⟩
        exact (w.print line).save_append f p [b]

theorem part_setLogFile {path : List UInt8} {opened : Option File} {w y : Sinks File}
    {rest : Job File} (h : jobs.Part (.setLogFile path opened) w rest y) :
    (rest = .setLogFile path opened ∧ y = w) ∨ (rest = .fopen path opened ∧ y = w.fclose) := by
  induction h with
  | start => exact Or.inl ⟨rfl, rfl⟩
  | act h hact ih =>
    obtain ⟨rfl, rfl⟩ | ⟨rfl, rfl⟩ := ih
    · cases hact
      exact Or.inr ⟨rfl, rfl⟩
    · cases hact

theorem part_closeLogFile {w y : Sinks File} {rest : Job File}
    (h : jobs.Part .closeLogFile w rest y) : y = w := by
  have hpart : rest = .closeLogFile ∧ y = w := by
    induction h with
    | start => exact ⟨rfl, rfl⟩
    | act h hact ih =>
      obtain ⟨rfl, rfl⟩ := ih
      cases hact
  exact hpart.2

/-! ### Jobs one after another -/

/-- The lines of the calls that get the lock while `f` is the log file, which is `g` at first. -/
def saved (f : File) (g : Option File) : List (Thread × Job File) → List (List UInt8)
  | [] => []
  | a :: order => (if g = some f then a.2.lines else []) ++ saved f (a.2.logFile g) order

theorem saved_concat (f : File) (g : Option File) (order : List (Thread × Job File))
    (a : Thread × Job File) : saved f g (order ++ [a]) =
      saved f g order ++ if logFile g order = some f then a.2.lines else [] := by
  induction order generalizing g with
  | nil =>
    rw [List.nil_append, saved, saved, saved, List.append_nil, List.nil_append]
    rfl
  | cons b order ih =>
    rw [List.cons_append, saved, saved, ih, List.append_assoc]
    rfl

/-- What is printed into a file is printed on `stderr`. -/
theorem saved_sublist (f : File) (g : Option File) (order : List (Thread × Job File)) :
    (saved f g order).Sublist (printed order) := by
  induction order generalizing g with
  | nil => exact List.Sublist.slnil
  | cons a order ih =>
    rw [saved, printed, List.flatMap_cons, ← printed]
    apply List.Sublist.append _ (ih _)
    split
    · exact List.Sublist.refl _
    · exact List.nil_sublist _

/-- The log file that is open has been opened and not closed; every other has been closed as often as it
has been opened. -/
structure Sinks.Accounts (w : Sinks File) : Prop where
  balanced : Ledger.Balanced w.calls
  live : Ledger.live w.calls = w.gFile.elim 0 fun f => {f}

theorem Sinks.Accounts.fclose {w : Sinks File} (h : w.Accounts) : w.fclose.Accounts := by
  unfold Sinks.fclose
  have hlive := h.live
  split
  · exact h
  · next f hf =>
    rw [hf, Option.elim_some] at hlive
    refine ⟨h.balanced.release (by rw [hlive]; simp), ?_⟩
    rw [Ledger.live_concat, hlive, Ledger.post, Multiset.erase_singleton]
    rfl

theorem Sinks.Accounts.fopen {w : Sinks File} (h : w.Accounts) (hnone : w.gFile = none)
    (opened : Option File) : (w.fopen opened).Accounts := by
  have hlive := h.live
  rw [hnone, Option.elim_none] at hlive
  cases opened with
  | none => exact ⟨h.balanced, hlive⟩
  | some f =>
    refine ⟨h.balanced.acquire f, ?_⟩
    rw [Sinks.fopen, Ledger.live_concat, hlive]
    rfl

/-- What jobs have made of what the lock protects. -/
structure Done (w : Sinks File) (order : List (Thread × Job File)) (y : Sinks File) : Prop where
  gFile : y.gFile = logFile w.gFile order
  stderr : y.stderr = w.stderr ++ (printed order).flatten
  files : ∀ f, y.files f = w.files f ++ (saved f w.gFile order).flatten
  accounts : y.Accounts

variable {w y : Sinks File} {order : List (Thread × Job File)}

/-- A job that only opens and closes. -/
theorem Done.quiet (h : Done w order y) (i : Thread) {job : Job File} {z : Sinks File}
    (hlines : job.lines = []) (hgFile : z.gFile = job.logFile y.gFile)
    (hstderr : z.stderr = y.stderr) (hfiles : z.files = y.files) (haccounts : z.Accounts) :
    Done w (order ++ [(i, job)]) z where
  gFile := by rw [logFile_concat, hgFile, h.gFile]
  stderr := by rw [printed_concat, hlines, List.append_nil, hstderr, h.stderr]
  files f := by rw [saved_concat, hlines, ite_self, List.append_nil, hfiles, h.files f]
  accounts := haccounts

theorem Done.print (h : Done w order y) (i : Thread) (line : List UInt8) :
    Done w (order ++ [(i, .print line line)]) (y.perform (.print line line)) := by
  have hprint : (printed (order ++ [(i, (.print line line : Job File))])).flatten =
      (printed order).flatten ++ line := by
    rw [printed_concat, List.flatten_append, Job.lines, List.flatten_singleton]
  have hsaved : ∀ f, (saved f w.gFile (order ++ [(i, .print line line)])).flatten =
      (saved f w.gFile order).flatten ++ if y.gFile = some f then line else [] := by
    intro f
    rw [saved_concat, ← h.gFile, List.flatten_append, Job.lines]
    split
    · rw [List.flatten_singleton]
    · rfl
  have hgFile : logFile w.gFile (order ++ [(i, .print line line)]) = y.gFile := by
    rw [logFile_concat, ← h.gFile]
    rfl
  unfold Sinks.perform
  cases hg : y.gFile with
  | none =>
    refine ⟨?_, ?_, ?_, ⟨h.accounts.balanced, h.accounts.live⟩⟩
    · exact hgFile.symm
    · rw [hprint, ← List.append_assoc, ← h.stderr]
      rfl
    · intro f
      rw [hsaved, hg, if_neg nofun, List.append_nil, ← h.files f]
      rfl
  | some g =>
    refine ⟨?_, ?_, ?_, ⟨h.accounts.balanced, h.accounts.live⟩⟩
    · exact hgFile.symm
    · rw [hprint, ← List.append_assoc, ← h.stderr]
      rfl
    · intro f
      rw [hsaved, hg, ← List.append_assoc, ← h.files f]
      by_cases hf : g = f
      · subst hf
        rw [if_pos rfl]
        exact Function.update_self g _ _
      · rw [if_neg (by simpa using hf), List.append_nil]
        exact Function.update_of_ne (Ne.symm hf) _ _

theorem Done.perform (h : Done w order y) (i : Thread) {job : Job File} (hasked : Asked job) :
    Done w (order ++ [(i, job)]) (y.perform job) := by
  cases hasked with
  | log line => exact h.print i line
  | setLogFile path opened =>
    have hclosed := h.accounts.fclose
    rw [Sinks.perform]
    split
    · next hempty =>
      apply h.quiet i rfl _ y.fclose_stderr y.fclose_files hclosed
      rw [y.fclose_gFile, Job.logFile, if_pos hempty]
    · next hempty =>
      apply h.quiet i rfl _ _ _ (hclosed.fopen y.fclose_gFile opened)
      · rw [Sinks.fopen_gFile, Job.logFile, if_neg hempty]
      · rw [Sinks.fopen_stderr, y.fclose_stderr]
      · rw [Sinks.fopen_files, y.fclose_files]
  | closeLogFile =>
    exact h.quiet i rfl y.fclose_gFile y.fclose_stderr y.fclose_files h.accounts.fclose

theorem serial_done (hw : w.Accounts) (hasked : ∀ a ∈ order, Asked a.2) :
    Done w order (serial jobs w order) := by
  induction order using List.reverseRecOn with
  | nil => exact ⟨rfl, (List.append_nil _).symm, fun _ => (List.append_nil _).symm, hw⟩
  | append_singleton order a ih =>
    simp only [List.forall_mem_append, List.forall_mem_singleton] at hasked
    rw [serial_concat, whole_eq]
    exact (ih hasked.1).perform a.1 hasked.2

end Patrol.Logger
