namespace VehicleLink

structure Timer where
  period : Nat
  due : Nat
  deriving DecidableEq, Repr

namespace Timer

/-- Handling a tick later than this counts as late. -/
def tolerance : Nat := 5

/-- Timers reach no further than thirty years of 365 days: who is to be woken later than that is
woken at that distance.  Ages are still measured against what was asked for. -/
def horizon : Nat := 30 * 365 * 24 * 60 * 60 * 1000

def span (delay : Nat) : Nat := min delay horizon

/-- The first tick is due at once.  There are no timers of period zero. -/
def start? (period now : Nat) : Option Timer :=
  if period = 0 then none else some ⟨span period, now⟩

/-- The timer after a tick handled at `now`: the next one is a period after this one was due,
or, if it was handled late, a period after the handling. -/
def next (t : Timer) (now : Nat) : Timer :=
  { t with due := (if t.due + tolerance < now then now else t.due) + t.period }

end Timer

end VehicleLink
