import WorkflowAudit.Audit.Outcome
import WorkflowAudit.Config.Settings

/-! Audits of several repositories at a time. A pool has one unit per repository, known by its place
among them. Units start, go on and finish in any order, at most a given number of them at a time,
and the audit may be cancelled at any moment. Results are collected as they come and put in order of
the places at the end. The calls are answered by a function. -/

namespace WorkflowAudit.Audit

open Config (Settings)
open Hosting (Call)
open Lint (Engine)

def answerAt (answer : (c : Call) → c.Answer) (cancelled : Bool) : (q : Query) → q.Answer
  | .call c => answer c
  | .cancelled => cancelled

namespace Pool

inductive Slot
  | waiting (repository : String)
  | running (rest : Dialogue Query.Answer (Option RepositoryAudit))
  | finished

namespace Slot

def isRunning : Slot → Bool
  | .running _ => true
  | _ => false

def isFinished : Slot → Bool
  | .finished => true
  | _ => false

end Slot

inductive Event
  | start (place : Nat) (sawCancelled : Bool)
  | proceed (place : Nat) (q : Query)
  | finish (place : Nat)
  | cancel
  deriving DecidableEq, Repr

end Pool

structure Pool where
  slots : List Pool.Slot
  collected : List (Nat × Option RepositoryAudit)
  cancelled : Bool

namespace Pool

def start (repositories : List String) : Pool := ⟨repositories.map .waiting, [], false⟩

def runningCount (p : Pool) : Nat := p.slots.countP Slot.isRunning

def isDone (p : Pool) : Bool := p.slots.all Slot.isFinished

def inPlace (p : Pool) : List (Option RepositoryAudit) :=
  (p.collected.mergeSort fun a b => a.1 ≤ b.1).map (·.2)

def outcome? (engine : Engine) (settings : Settings) (now : Time.Instant) (p : Pool) :
    Option (Except Runs.WindowError Outcome) :=
  if p.isDone then some (Outcome.ofAudits engine settings.windowDays now p.cancelled p.inPlace)
  else none

def put (p : Pool) (place : Nat) (s : Slot) : Pool := { p with slots := p.slots.set place s }

def collect (p : Pool) (place : Nat) (result : Option RepositoryAudit) : Pool :=
  { p with collected := p.collected ++ [(place, result)] }

section

variable (answer : (c : Call) → c.Answer) (engine : Engine) (settings : Settings)

/-- One step of a pool. A pool of no width counts as one of width 1. -/
inductive Step : Pool → Event → Pool → Prop
  | start {p : Pool} {place : Nat} {repository : String} :
    p.slots[place]? = some (.waiting repository) →
    p.runningCount < max settings.concurrency 1 →
    Step p (.start place p.cancelled) (p.put place
      (.running ((auditRepository engine settings.runLimit repository).advance
        (answerAt answer p.cancelled))))
  | proceed {p : Pool} {place : Nat} {q : Query}
      {next : q.Answer → Dialogue Query.Answer (Option RepositoryAudit)} :
    p.slots[place]? = some (.running (.ask q next)) →
    Step p (.proceed place q) (p.put place (.running (next (answerAt answer p.cancelled q))))
  | finish {p : Pool} {place : Nat} {result : Option RepositoryAudit} :
    p.slots[place]? = some (.running (.done result)) →
    Step p (.finish place) ((p.put place .finished).collect place result)
  | cancel {p : Pool} : Step p .cancel { p with cancelled := true }

inductive Run : Pool → List Event → Pool → Prop
  | here {p : Pool} : Run p [] p
  | after {p q r : Pool} {events : List Event} {e : Event} :
    Run p events q → Step answer engine settings q e r → Run p (events ++ [e]) r

end

end Pool

end WorkflowAudit.Audit
