import Patrol.Logger.Jobs

/-! What the threads print: the lines of their calls, whole and one after another. -/

namespace Patrol.Logger

open ProofKit Config ConfigManager Mutex

variable {Thread File : Type}

/-! ### What the threads ask for -/

/-- The events at the lock: the calls below the level do not come to it. -/
def forward (level : LogLevel) : List (Event Thread File) → List (Mutex.Event Thread (Job File))
  | [] => []
  | .setLevel level :: es => forward level es
  | .log i c :: es =>
    if c.level.toNat < level.toNat then forward level es
    else .ask i (.print c.bytes c.bytes) :: forward level es
  | .setLogFile i path opened :: es => .ask i (.setLogFile path opened) :: forward level es
  | .closeLogFile i :: es => .ask i .closeLogFile :: forward level es
  | .lock i :: es => .lock i :: forward level es
  | .work i :: es => .work i :: forward level es

/-- What the threads ask for, call by call. -/
def requests (level : LogLevel) (es : List (Event Thread File)) : List (Thread × Job File) :=
  asked (forward level es)

theorem requests_asked (level : LogLevel) (es : List (Event Thread File)) :
    ∀ a ∈ requests level es, Asked a.2 := by
  induction es generalizing level with
  | nil => exact nofun
  | cons e es ih =>
    cases e with
    | setLevel level => exact ih level
    | log i c =>
      rw [requests, forward]
      split
      · exact ih level
      · exact List.forall_mem_cons.mpr ⟨.log c.bytes, ih level⟩
    | setLogFile i path opened => exact List.forall_mem_cons.mpr ⟨.setLogFile path opened, ih level⟩
    | closeLogFile i => exact List.forall_mem_cons.mpr ⟨.closeLogFile, ih level⟩
    | lock i => exact ih level
    | work i => exact ih level

variable [DecidableEq File]

/-! ### Lines -/

/-- Bytes are lines, one after another: all of them, or, where a line is being written, at least all but
a part of the last. -/
structure Lines (writing : Prop) (lines : List (List UInt8)) (bytes : List UInt8) : Prop where
  le : bytes <+: lines.flatten
  ge : lines.dropLast.flatten <+: bytes
  whole : ¬ writing → bytes = lines.flatten

theorem Lines.all (writing : Prop) (lines : List (List UInt8)) :
    Lines writing lines lines.flatten where
  le := List.prefix_rfl
  ge := by
    cases lines using List.reverseRecOn with
    | nil => exact List.prefix_rfl
    | append_singleton lines line =>
      rw [List.dropLast_concat, List.flatten_append]
      exact List.prefix_append _ _
  whole _ := rfl

/-- The last line has begun. -/
theorem Lines.begun {writing : Prop} (h : writing) (lines : List (List UInt8)) (p r : List UInt8) :
    Lines writing (lines ++ [p ++ r]) (lines.flatten ++ p) where
  le := by
    rw [List.flatten_append, List.flatten_singleton, ← List.append_assoc]
    exact List.prefix_append _ _
  ge := by
    rw [List.dropLast_concat]
    exact List.prefix_append _ _
  whole hnot := absurd h hnot

/-- The last of the calls that got the lock, after those `before`, is to print a line, and its thread has
the lock still. -/
def Printing (place : Thread → Place (Job File)) (before order : List (Thread × Job File)) : Prop :=
  ∃ i line rest, order = before ++ [(i, .print line line)] ∧ place i = .inside rest

/-- What is on `stderr` and in the files are the lines of jobs.  The last may be there in part only while
its thread has the lock, and in a file only where this is the log file. -/
structure Written (place : Thread → Place (Job File)) (w : Sinks File)
    (order : List (Thread × Job File)) (y : Sinks File) : Prop where
  stderr : ∃ bytes, y.stderr = w.stderr ++ bytes ∧
    Lines (∃ before, Printing place before order) (printed order) bytes
  files : ∀ f, ∃ bytes, y.files f = w.files f ++ bytes ∧
    Lines (∃ before, Printing place before order ∧ logFile w.gFile before = some f)
      (saved f w.gFile order) bytes
  accounts : y.Accounts

variable {w y : Sinks File} {order : List (Thread × Job File)}

theorem Done.written (h : Done w order y) (place : Thread → Place (Job File)) :
    Written place w order y where
  stderr := ⟨_, h.stderr, .all _ _⟩
  files f := ⟨_, h.files f, .all _ _⟩
  accounts := h.accounts

/-- A job that prints nothing has not been done to its end. -/
theorem Done.quietPart (h : Done w order y) (place : Thread → Place (Job File)) (i : Thread)
    {job : Job File} {z : Sinks File} (hlines : job.lines = []) (hstderr : z.stderr = y.stderr)
    (hfiles : z.files = y.files) (haccounts : z.Accounts) :
    Written place w (order ++ [(i, job)]) z where
  stderr := by
    refine ⟨_, hstderr.trans h.stderr, ?_⟩
    rw [printed_concat, hlines, List.append_nil]
    exact .all _ _
  files f := by
    refine ⟨_, (congrFun hfiles f).trans (h.files f), ?_⟩
    rw [saved_concat, hlines, ite_self, List.append_nil]
    exact .all _ _
  accounts := haccounts

/-- A job has not been done to its end. -/
theorem Done.part (h : Done w order y) {place : Thread → Place (Job File)} {i : Thread}
    {job rest : Job File} {z : Sinks File} (hasked : Asked job) (hpart : jobs.Part job y rest z)
    (hinside : place i = .inside rest) : Written place w (order ++ [(i, job)]) z := by
  cases hasked with
  | log line =>
    have hprinting : Printing place order (order ++ [(i, .print line line)]) :=
      ⟨i, line, rest, rfl, hinside⟩
    have hprinted : printed (order ++ [(i, (.print line line : Job File))]) =
        printed order ++ [line] := printed_concat _ _
    have hsaved : ∀ f, saved f w.gFile (order ++ [(i, .print line line)]) =
        saved f w.gFile order ++ if y.gFile = some f then [line] else [] := by
      intro f
      rw [saved_concat, ← h.gFile]
      rfl
    obtain ⟨p, r, rfl, ⟨rfl, rfl⟩ | ⟨g, hg, rfl, rfl⟩⟩ := part_print hpart
    · refine ⟨⟨(printed order).flatten ++ p, ?_, ?_⟩, ?_, ⟨h.accounts.balanced, h.accounts.live⟩⟩
      · rw [Sinks.print, h.stderr, List.append_assoc]
      · rw [hprinted]
        exact .begun ⟨order, hprinting⟩ _ p r
      · intro f
        refine ⟨_, h.files f, ?_⟩
        rw [hsaved]
        split
        · next hf =>
          have hwriting : ∃ before, Printing place before (order ++ [(i, .print (p ++ r) (p ++ r))]) ∧
              logFile w.gFile before = some f := ⟨order, hprinting, by rw [← h.gFile, hf]⟩
          have hbegun := Lines.begun hwriting (saved f w.gFile order) [] (p ++ r)
          rwa [List.append_nil] at hbegun
        · rw [List.append_nil]
          exact .all _ _
    · refine ⟨⟨(printed order).flatten ++ (p ++ r), ?_, ?_⟩, ?_,
        ⟨h.accounts.balanced, h.accounts.live⟩⟩
      · rw [← List.append_assoc, ← h.stderr]
        rfl
      · have hall := Lines.all (∃ before, Printing place before
          (order ++ [(i, .print (p ++ r) (p ++ r))])) (printed order ++ [p ++ r])
        rwa [List.flatten_append, List.flatten_singleton, ← hprinted] at hall
      · intro f
        rw [hsaved, hg]
        by_cases hf : g = f
        · subst hf
          refine ⟨(saved g w.gFile order).flatten ++ p, ?_, ?_⟩
          · rw [← List.append_assoc, ← h.files g]
            exact Function.update_self g _ _
          · rw [if_pos rfl]
            exact .begun ⟨order, hprinting, by rw [← h.gFile, hg]⟩ _ p r
        · refine ⟨(saved f w.gFile order).flatten, ?_, ?_⟩
          · rw [← h.files f]
            exact Function.update_of_ne (Ne.symm hf) _ _
          · rw [if_neg (by simpa using hf), List.append_nil]
            exact .all _ _
  | setLogFile path opened =>
    obtain ⟨-, rfl⟩ | ⟨-, rfl⟩ := part_setLogFile hpart
    · exact h.quietPart place i rfl rfl rfl h.accounts
    · exact h.quietPart place i rfl y.fclose_stderr y.fclose_files h.accounts.fclose
  | closeLogFile =>
    obtain rfl := part_closeLogFile hpart
    exact h.quietPart place i rfl rfl rfl h.accounts

/-! ### Runs -/

variable [DecidableEq Thread]

theorem run_forward {s s' : State Thread File} {es : List (Event Thread File)}
    (h : run s es = some s') :
    Mutex.run jobs s.monitor (forward s.level es) = some s'.monitor := by
  induction es generalizing s with
  | nil =>
    cases h
    rfl
  | cons e es ih =>
    obtain ⟨s₁, hstep, hrun⟩ := Option.bind_eq_some_iff.mp h
    have hon : ∀ e : Mutex.Event Thread (Job File), s.on e = some s₁ →
        Mutex.run jobs s.monitor (e :: forward s.level es) = some s'.monitor := by
      intro e he
      obtain ⟨m, hm, rfl⟩ := Option.map_eq_some_iff.mp he
      rw [Mutex.run, hm, Option.bind_some]
      exact ih hrun
    cases e with
    | setLevel level =>
      cases hstep
      exact ih hrun
    | log i c =>
      rw [step] at hstep
      rw [forward]
      split at hstep
      · next hlow =>
        cases hstep
        rw [if_pos hlow]
        exact ih hrun
      · next hlow =>
        rw [if_neg hlow]
        exact hon _ hstep
    | setLogFile i path opened => exact hon _ hstep
    | closeLogFile i => exact hon _ hstep
    | lock i => exact hon _ hstep
    | work i => exact hon _ hstep

/-- Whatever the order of the calls at the lock is, it says what is written. -/
theorem written_of_ordered {w : Sinks File} (hw : w.Accounts) {level : LogLevel}
    {es : List (Event Thread File)} {order : List (Thread × Job File)}
    {m : Mutex.State Thread (Sinks File) (Job File)}
    (h : Ordered jobs w (requests level es) order m) :
    Done w order (serial jobs w order) ∧ Written m.place w order m.shared := by
  have hasked : ∀ a ∈ order, Asked a.2 := fun a ha => requests_asked level es a (h.mem_jobs ha)
  have hdone := serial_done hw hasked
  refine ⟨hdone, ?_⟩
  cases hlocked : m.locked with
  | false =>
    rw [(h.free hlocked).2]
    exact hdone.written m.place
  | true =>
    obtain ⟨i, job, rest, before, rfl, hpart, hinside, -⟩ := h.held hlocked
    simp only [List.forall_mem_append, List.forall_mem_singleton] at hasked
    exact (serial_done hw hasked.1).part hasked.2 hpart hinside

theorem start_accounts (stderr : List UInt8) (files : File → List UInt8) :
    Sinks.Accounts (⟨none, stderr, files, []⟩ : Sinks File) :=
  ⟨Ledger.balanced_nil, rfl⟩

/-- What is on `stderr` and in the log files after any run, whatever the order of the steps of the threads
is.  There is an order of the calls that got the lock: those of each thread in the order in which it
made them, none of them lost and none twice, but for the one that waits.  On `stderr` are their lines in
this order, each whole before the next begins; in each file are whole lines too, just those of the calls
for which it is the log file.  Only the last line may be there in part, while the thread that prints it has
the lock.  No file is closed twice, and none that is not the log file is left open. -/
theorem run_lines {level : LogLevel} {stderr : List UInt8} {files : File → List UInt8}
    {es : List (Event Thread File)} {s : State Thread File}
    (h : run (start level stderr files) es = some s) :
    ∃ order, (∀ i, jobsOf i (requests level es) = jobsOf i order ++ (s.monitor.place i).pending) ∧
      Written s.monitor.place ⟨none, stderr, files, []⟩ order s.monitor.shared := by
  obtain ⟨order, hordered⟩ := run_ordered (run_forward h)
  exact ⟨order, hordered.threads, (written_of_ordered (start_accounts stderr files) hordered).2⟩

/-- A thread has opened a log file, and prints; another waits. -/
def waitingRun : List (Event Bool Unit) :=
  [.setLogFile true (ascii "p") (some ()), .lock true, .work true, .work true,
    .log true ⟨.debug, ascii "a.cpp", 1, ascii "never printed", ⟨126, 6, 1, 9, 35, 7⟩⟩,
    .log true ⟨.info, ascii "src/a.cpp", 2, ascii "first", ⟨126, 6, 1, 9, 35, 7⟩⟩,
    .log false ⟨.warn, ascii "b.cpp", 3, ascii "second", ⟨126, 6, 1, 9, 35, 7⟩⟩,
    .lock true, .work true]

theorem run_lines_waiting :
    ∃ s order, run (start .info [] fun _ => []) waitingRun = some s ∧
      (∀ i, jobsOf i (requests .info waitingRun) = jobsOf i order ++ (s.monitor.place i).pending) ∧
      Written s.monitor.place ⟨none, [], fun _ => [], []⟩ order s.monitor.shared := by
  obtain ⟨s, h⟩ := Option.isSome_iff_exists.mp
    (show (run (start .info [] fun _ => []) waitingRun).isSome = true by rfl)
  obtain ⟨order, hlines⟩ := run_lines h
  exact ⟨s, order, h, hlines⟩

/-! ### Calls that wait -/

/-- A step at the lock is one of the logger. -/
def Event.ofMonitor : Mutex.Event Thread (Job File) → Option (Event Thread File)
  | .ask _ _ => none
  | .lock i => some (.lock i)
  | .work i => some (.work i)

/-- Steps at the lock alone are events of the logger. -/
theorem run_of_monitor {s : State Thread File} {more : List (Mutex.Event Thread (Job File))}
    {m : Mutex.State Thread (Sinks File) (Job File)} (hasked : asked more = [])
    (h : Mutex.run jobs s.monitor more = some m) :
    run s (more.filterMap Event.ofMonitor) = some { s with monitor := m } := by
  induction more generalizing s with
  | nil =>
    cases h
    rfl
  | cons e more ih =>
    obtain ⟨m₁, hstep, hrun⟩ := Option.bind_eq_some_iff.mp h
    have hon : s.on e = some { s with monitor := m₁ } := by rw [State.on, hstep, Option.map_some]
    cases e with
    | ask i job => cases hasked
    | lock i =>
      show run s (.lock i :: more.filterMap Event.ofMonitor) = _
      rw [run, step, hon, Option.bind_some, @ih { s with monitor := m₁ } hasked hrun]
    | work i =>
      show run s (.work i :: more.filterMap Event.ofMonitor) = _
      rw [run, step, hon, Option.bind_some, @ih { s with monitor := m₁ } hasked hrun]

/-- A line goes after all that is there. -/
theorem perform_print (w : Sinks File) (line : List UInt8) :
    (w.perform (.print line line)).stderr = w.stderr ++ line ∧
      ∀ f, (w.perform (.print line line)).gFile = some f →
        (w.perform (.print line line)).files f = w.files f ++ line := by
  unfold Sinks.perform
  cases hg : w.gFile with
  | none =>
    refine ⟨rfl, fun f hf => ?_⟩
    exact absurd (hg.symm.trans hf) nofun
  | some g =>
    refine ⟨rfl, fun f hf => ?_⟩
    obtain rfl : g = f := Option.some.inj (hg.symm.trans hf)
    exact Function.update_self g _ _

/-- A step that serves a thread that waits: one of the thread that has the lock, or of its own. -/
def Serves (s : State Thread File) (i : Thread) (e : Event Thread File) : Prop :=
  e = .lock i ∨ e = .work i ∨ ∃ j rest, e = .work j ∧ s.monitor.place j = .inside rest

/-- There is no deadlock.  After any run, a call that waits for the lock can print its line by steps of the
thread that has the lock and of its own, on `stderr` and in the file that is then the log file, after all
that is there. -/
theorem log_served {level : LogLevel} {stderr : List UInt8} {files : File → List UInt8}
    {es : List (Event Thread File)} {s : State Thread File}
    (h : run (start level stderr files) es = some s) {i : Thread} {line : List UInt8}
    (hplace : s.monitor.place i = .waiting (.print line line)) :
    ∃ more s', run s more = some s' ∧ (∀ e ∈ more, Serves s i e) ∧ s'.monitor.place i = .outside ∧
      (∃ before, s.monitor.shared.stderr <+: before ∧
        s'.monitor.shared.stderr = before ++ line) ∧
      ∀ f, s'.monitor.shared.gFile = some f → ∃ before, s.monitor.shared.files f <+: before ∧
        s'.monitor.shared.files f = before ++ line := by
  obtain ⟨order, hordered⟩ := run_ordered (run_forward h)
  obtain ⟨hdone, hwritten⟩ := written_of_ordered (start_accounts stderr files) hordered
  obtain ⟨more, m, hrun, hserves, -, hout, hshared⟩ := hordered.served hplace
  have hes := run_of_monitor (asked_of_serves hserves) hrun
  obtain ⟨hstderr, hfiles⟩ := perform_print
    (serial jobs (⟨none, stderr, files, []⟩ : Sinks File) order) line
  rw [whole_eq] at hshared
  refine ⟨_, { s with monitor := m }, hes, ?_, hout, ⟨stderr ++ (printed order).flatten, ?_, ?_⟩, ?_⟩
  · intro e he
    obtain ⟨e', he', heq⟩ := List.mem_filterMap.mp he
    obtain rfl | rfl | ⟨j, rest, rfl, hinside⟩ := hserves e' he'
    · exact Or.inl (Option.some.inj heq).symm
    · exact Or.inr (Or.inl (Option.some.inj heq).symm)
    · exact Or.inr (Or.inr ⟨j, rest, (Option.some.inj heq).symm, hinside⟩)
  · obtain ⟨bytes, hbytes, hlines⟩ := hwritten.stderr
    rw [hbytes]
    exact (List.prefix_append_right_inj stderr).mpr hlines.le
  · rw [hshared, hstderr, hdone.stderr]
  · intro f hf
    obtain ⟨bytes, hbytes, hlines⟩ := hwritten.files f
    refine ⟨files f ++ (saved f none order).flatten, ?_, ?_⟩
    · rw [hbytes]
      exact (List.prefix_append_right_inj (files f)).mpr hlines.le
    · rw [hshared] at hf ⊢
      rw [hfiles f hf, hdone.files f]

theorem log_served_waiting :
    ∃ s line, run (start .info [] fun _ => []) waitingRun = some s ∧
      s.monitor.place false = .waiting (.print line line) ∧
      ∃ more s', run s more = some s' ∧ (∀ e ∈ more, Serves s false e) ∧
        s'.monitor.place false = .outside ∧
        (∃ before, s.monitor.shared.stderr <+: before ∧
          s'.monitor.shared.stderr = before ++ line) ∧
        ∀ f, s'.monitor.shared.gFile = some f → ∃ before, s.monitor.shared.files f <+: before ∧
          s'.monitor.shared.files f = before ++ line := by
  obtain ⟨s, h⟩ := Option.isSome_iff_exists.mp
    (show (run (start .info [] fun _ => []) waitingRun).isSome = true by rfl)
  let c : Call := ⟨.warn, ascii "b.cpp", 3, ascii "second", ⟨126, 6, 1, 9, 35, 7⟩⟩
  have hplace : s.monitor.place false = .waiting (.print c.bytes c.bytes) := by
    cases h
    rfl
  exact ⟨s, c.bytes, h, hplace, log_served h hplace⟩

end Patrol.Logger
