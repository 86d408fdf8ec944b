import Mathlib
import WorkflowAudit.Audit.Outcome

namespace WorkflowAudit.Audit

open Lint (Engine)

namespace FileResults

theorem findings_join (l : List FileResults) : (join l).findings = l.flatMap (·.findings) := by
  induction l with
  | nil => rfl
  | cons r l ih => exact congrArg (r.findings ++ ·) ih

theorem diagnostics_join (l : List FileResults) :
    (join l).diagnostics = l.flatMap (·.diagnostics) := by
  induction l with
  | nil => rfl
  | cons r l ih => exact congrArg (r.diagnostics ++ ·) ih

end FileResults

theorem Outcome.ofAudits_cases (engine : Engine) (windowDays : Nat) (now : Time.Instant)
    (cancelled : Bool) (audits : List (Option RepositoryAudit)) :
    (now.minusDays? windowDays = none ∧
      ofAudits engine windowDays now cancelled audits = .error .outOfRange) ∨
    ∃ o, ofAudits engine windowDays now cancelled audits = .ok o ∧
      o.records = (audits.filterMap id).flatMap (·.records) ∧
      Runs.aggregate o.records windowDays now = .ok o.stats ∧
      o.findings = (audits.filterMap id).flatMap (·.files.findings) ∧
      o.diagnostics =
        (audits.filterMap id).flatMap (fun a => a.runHistory ++ a.files.diagnostics) ∧
      o.coverage = coverageOf audits cancelled := by
  rw [ofAudits]
  cases hstats : Runs.aggregate ((audits.filterMap id).flatMap (·.records)) windowDays now with
  | error e =>
    left
    rw [Runs.aggregate] at hstats
    cases hstart : now.minusDays? windowDays with
    | none =>
      rw [hstart] at hstats
      exact ⟨rfl, congrArg Except.error (Except.error.inj hstats).symm⟩
    | some start =>
      rw [hstart] at hstats
      cases hstats
  | ok stats => exact .inr ⟨_, rfl, rfl, hstats, rfl, rfl, rfl⟩

theorem Outcome.ruleOrder_of_ofAudits {engine : Engine} {windowDays : Nat} {now : Time.Instant}
    {cancelled : Bool} {audits : List (Option RepositoryAudit)} {o : Outcome}
    (h : ofAudits engine windowDays now cancelled audits = .ok o) : o.ruleOrder = engine.ruleIds := by
  rw [ofAudits] at h
  cases hstats : Runs.aggregate ((audits.filterMap id).flatMap (·.records)) windowDays now with
  | error e =>
    rw [hstats] at h
    cases h
  | ok stats =>
    rw [hstats] at h
    obtain rfl := Except.ok.inj h
    rfl

end WorkflowAudit.Audit
