import WorkflowAudit.Config.Error
import WorkflowAudit.Files.Question
import WorkflowAudit.Toml.Read

/-! Settings out of files. What a file does not set has its standard value; keys that are no
settings are passed over. -/

namespace WorkflowAudit.Config

namespace Settings

open Toml (Item Table)

def natural? (bits : Nat) : Item → Option Nat
  | .value (.integer i) => if 0 ≤ i && i < Int.pow 2 bits then some i.toNat else none
  | _ => none

def double? : Item → Option Float
  | .value (.integer i) => some (Float.ofInt i)
  | .value (.float x) => some x
  | _ => none

def setting? {α : Type} (t : Table) (name : String) (standard : α) (read : Item → Option α) :
    Option α :=
  match t.lookup name with
  | none => some standard
  | some item => read item

def ofTable? (t : Table) : Option Settings := do
  let count (name : String) (standard : Nat) := setting? t name standard (natural? 64)
  let ratio (name : String) (standard : Float) := setting? t name standard double?
  return ⟨← setting? t "window_days" standard.windowDays (natural? 32),
    ← count "run_limit" standard.runLimit, ← count "top_n" standard.topN,
    ← count "schedule_threshold" standard.scheduleThreshold,
    ← count "concurrency" standard.concurrency,
    ← ratio "push_dominant_ratio" standard.pushDominantRatio,
    ← count "push_dominant_min_runs" standard.pushDominantMinRuns,
    ← ratio "failure_ratio" standard.failureRatio, ← ratio "cancel_ratio" standard.cancelRatio,
    ← count "min_runs" standard.minRuns⟩

def validate (s : Settings) : Except Error Settings :=
  match s.violation? with
  | none => .ok s
  | some v => .error (.invalid v)

def ofText (path text : String) : Except Error Settings :=
  match (Toml.read? text).bind ofTable? with
  | some s => s.validate
  | none => .error (.malformed path)

end Settings

def standardPath : String := ".ciaudit.toml"

def load (path : String) : Files.Dialogue (Except Error Settings) :=
  .ask (.read path) fun
    | .ok text => .done (Settings.ofText path text)
    | .error cause => .done (.error (.unreadable path cause))

def discover : Option String → Files.Dialogue (Except Error Settings)
  | some path => load path
  | none => .ask (.layout standardPath) fun
    | some .file => load standardPath
    | _ => .done (.ok .standard)

end WorkflowAudit.Config
