import Patrol.Core.TaskScheduler

/-! `Timer`: fires once or again and again, when `check` finds its interval over.  The elapsed time is
cast as in the scheduler. -/

namespace Patrol.Core

structure Timer (Callback : Type) where
  interval : UInt32 := 1000
  cb : Option Callback := none
  repeats : Bool := false
  running : Bool := false
  last : Int := 0

namespace Timer

variable {Callback : Type}

def setInterval (t : Timer Callback) (ms : UInt32) : Timer Callback := { t with interval := ms }

def setCallback (t : Timer Callback) (cb : Option Callback) : Timer Callback := { t with cb }

def setRepeat (t : Timer Callback) (r : Bool) : Timer Callback := { t with repeats := r }

def start (t : Timer Callback) (now : Int) : Timer Callback :=
  { t with last := now, running := true }

def stop (t : Timer Callback) : Timer Callback := { t with running := false }

def reset (t : Timer Callback) (now : Int) : Timer Callback := { t with last := now }

/-- The timer after a `check`, what this returns, and the callback that it calls just before. -/
def check (t : Timer Callback) (now : Int) : Timer Callback × Bool × Option Callback :=
  if !t.running then (t, false, none)
  else if elapsedMs now t.last < t.interval then (t, false, none)
  else ({ t with last := now, running := if !t.repeats then false else t.running }, true, t.cb)

/-- A running timer fires exactly if its interval is at most the elapsed time after the cast. -/
theorem check_fires {t : Timer Callback} (h : t.running = true) (now : Int) :
    (t.check now).2.1 = true ↔ t.interval ≤ elapsedMs now t.last := by
  rw [check, h, ← UInt32.not_lt]
  by_cases hlt : elapsedMs now t.last < t.interval <;> simp [hlt]

theorem check_last (t : Timer Callback) (now : Int) :
    (t.check now).1.last = if (t.check now).2.1 then now else t.last := by
  rw [check]
  split
  · rfl
  · split <;> rfl

/-- A `check` never sets a timer running. -/
theorem check_running {t : Timer Callback} (h : t.running = false) (now : Int) :
    t.check now = (t, false, none) := by
  rw [check, h]
  rfl

end Timer

end Patrol.Core
