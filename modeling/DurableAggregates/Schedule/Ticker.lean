/-!
# Tickers

A ticker is due at regular times, one interval after another, on a clock of milliseconds. A tick is served at the
later of its due time and the moment someone waits for it. One that is served at most `Ticker.tolerance` late keeps
the rhythm: the next is due one interval after it was due. A later one skips what was missed: the next is due at the
first multiple of the interval, counted from its due time, that lies after now.
-/

namespace DurableAggregates.Schedule

structure Ticker where
  interval : Nat
  due : Nat
  deriving DecidableEq, Repr

namespace Ticker

/-- How late a tick may be served without breaking the rhythm, in milliseconds. -/
def tolerance : Nat := 5

/-- A ticker first due one interval from now. -/
def starting (now interval : Nat) : Ticker := { interval, due := now + interval }

def isDue (t : Ticker) (now : Nat) : Bool := t.due ≤ now

/-- The ticker after the due tick was served. -/
def serve (t : Ticker) (now : Nat) : Ticker :=
  { t with due := if now ≤ t.due + tolerance then t.due + t.interval
                  else now + t.interval - (now - t.due) % t.interval }

theorem due_lt_serve {t : Ticker} {now : Nat} (h : 0 < t.interval) (hdue : t.due ≤ now) :
    t.due < (t.serve now).due := by
  have := Nat.mod_lt (now - t.due) h
  simp only [serve]
  split <;> omega

end Ticker

end DurableAggregates.Schedule
