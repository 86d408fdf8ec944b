import WorkflowAudit.Runs.Stats

namespace WorkflowAudit.Runs

namespace Stats

def ofNone (repository workflow : String) (start stop : Time.Instant) : Stats :=
  ⟨repository, workflow, start, stop, 0, 0, 0, .zero⟩

def add (s : Stats) (r : Record) : Stats :=
  { s with
    total := s.total + 1
    failed := if r.conclusion = some .failure then s.failed + 1 else s.failed
    cancelled := if r.conclusion = some .cancelled then s.cancelled + 1 else s.cancelled
    events := s.events.add r.event }

def isOf (s : Stats) (r : Record) : Bool :=
  s.repository = r.repository && s.workflow = r.workflow

end Stats

def count (start stop : Time.Instant) (r : Record) : List Stats → List Stats
  | [] => [(Stats.ofNone r.repository r.workflow start stop).add r]
  | s :: rest => if s.isOf r then s.add r :: rest else s :: count start stop r rest

def within (start : Time.Instant) (records : List Record) : List Record :=
  records.filter fun r => start.isBefore r.createdAt

/-- The window starts before all time. -/
inductive WindowError
  | outOfRange
  deriving DecidableEq, Repr

def WindowError.message : WindowError → String
  | .outOfRange => "\u0060DateTime - TimeDelta\u0060 overflowed"

/-- One group per workflow that ran after the start of the window, in order of their first runs. -/
def aggregate (records : List Record) (windowDays : Nat) (now : Time.Instant) :
    Except WindowError (List Stats) :=
  match now.minusDays? windowDays with
  | none => .error .outOfRange
  | some start => .ok ((within start records).foldl (fun groups r => count start now r groups) [])

end WorkflowAudit.Runs
