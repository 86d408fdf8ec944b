import WorkflowAudit.Time.Calendar

namespace WorkflowAudit.Time

structure Instant where
  seconds : Int
  nanos : Nat
  deriving DecidableEq, Repr

namespace Instant

def isBefore (a b : Instant) : Bool :=
  a.seconds < b.seconds || (a.seconds = b.seconds && a.nanos < b.nanos)

def secondsPerDay : Int := 86400

def date (t : Instant) : Date := Date.ofDays (t.seconds / secondsPerDay)

def firstDay : Int := Date.toDays ⟨-262143, 1, 1⟩

def lastDay : Int := Date.toDays ⟨262142, 12, 31⟩

def isInRange (t : Instant) : Bool :=
  let day := t.seconds / secondsPerDay
  firstDay ≤ day && day ≤ lastDay

/-- The instant a number of days earlier, unless that lies before the first day. Leaving a leap
second, the clock reads the second after it. -/
def minusDays? (t : Instant) (days : Nat) : Option Instant :=
  if days = 0 then some t else
    let t := if t.nanos ≥ 1000000000 then ⟨t.seconds + 1, t.nanos - 1000000000⟩ else t
    let earlier : Instant := ⟨t.seconds - days * secondsPerDay, t.nanos⟩
    if earlier.isInRange then some earlier else none

end Instant

end WorkflowAudit.Time
