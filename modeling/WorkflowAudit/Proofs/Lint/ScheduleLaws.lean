import WorkflowAudit.Proofs.Lint.EngineLaws
import WorkflowAudit.Proofs.Lint.Offences
import WorkflowAudit.Proofs.Text.DigitLaws

namespace WorkflowAudit.Lint

open Workflow (Document)

inductive EveryFewMinutes : List Char → Prop
  | everyMinute : EveryFewMinutes ['*']
  | every {digits : List Char} : digits ≠ [] → (∀ c ∈ digits, c.isDigit) →
    Text.decimalValue digits ∈ Set.Icc 1 9 → EveryFewMinutes ('*' :: '/' :: digits)

def RunsEveryFewMinutes (cron : String) : Prop :=
  ∃ minutes, Text.IsFirstWord minutes cron.toList ∧ EveryFewMinutes minutes

theorem frequentMinute_iff {s : List Char} : FrequentMinute s ↔ EveryFewMinutes s := by
  constructor
  · intro h
    cases h with
    | every => exact .everyMinute
    | @everyFew zeros c hdigit hne =>
      have hdigits : ∀ d ∈ List.replicate zeros '0' ++ [c], d.isDigit := by
        refine List.forall_mem_append.mpr ⟨fun d hd => ?_, List.forall_mem_singleton.mpr hdigit⟩
        rw [List.eq_of_mem_replicate hd]
        decide
      exact .every (List.append_ne_nil_of_right_ne_nil _ (List.cons_ne_nil c [])) hdigits
        ((Text.decimalValue_mem_Icc_iff hdigits).mpr ⟨zeros, c, rfl, hne⟩)
  · intro h
    cases h with
    | everyMinute => exact .every
    | every _ hdigits hvalue =>
      obtain ⟨zeros, c, rfl, hne⟩ := (Text.decimalValue_mem_Icc_iff hdigits).mp hvalue
      exact .everyFew zeros (hdigits c (by simp)) hne

theorem isFrequentCron_iff_runsEveryFewMinutes {cron : String} :
    Rules.isFrequentCron cron ↔ RunsEveryFewMinutes cron := by
  simp only [isFrequentCron_iff, FrequentCron, RunsEveryFewMinutes, frequentMinute_iff]

instance : DecidablePred RunsEveryFewMinutes :=
  fun _ => decidable_of_iff _ isFrequentCron_iff_runsEveryFewMinutes

def scheduledCrons (d : Document) : List String :=
  match d.trigger? .schedule with
  | some schedule => schedule.crons
  | none => []

def quotingFindings (file : String) : List String → List Finding
  | [] => []
  | crons =>
    [⟨"FREQUENT_SCHEDULE", .warning, "Schedule fires at most every 9 minutes: " ++
      Text.joined ", " (crons.map fun cron => "'" ++ cron ++ "'"), file, none⟩]

theorem frequentSchedule_inFile (d : Document) (file : String) :
    (Rules.frequentSchedule d).map (·.inFile "FREQUENT_SCHEDULE" file) =
      quotingFindings file ((scheduledCrons d).filter (RunsEveryFewMinutes ·)) := by
  have hfilter : ∀ crons : List String,
      crons.filter (RunsEveryFewMinutes ·) = crons.filter Rules.isFrequentCron := by
    intro crons
    refine List.filter_congr fun cron _ => ?_
    rw [Bool.eq_iff_iff, decide_eq_true_iff, isFrequentCron_iff_runsEveryFewMinutes]
  rw [Rules.frequentSchedule, scheduledCrons, hfilter]
  cases d.trigger? .schedule with
  | none => rfl
  | some schedule => cases h : schedule.crons.filter Rules.isFrequentCron <;> simp only [h] <;> rfl

/-- A cron is frequent by the number in its minutes, and the frequent crons of a schedule are quoted
in their order and as often as they stand there. -/
theorem quotes_runsEveryFewMinutes :
    (∀ cron : String, Rules.isFrequentCron cron ↔ RunsEveryFewMinutes cron) ∧
    ∀ (d : Document) (file : String),
      (Engine.builtin.evaluate d file).findings.filter (·.rule = "FREQUENT_SCHEDULE") =
        quotingFindings file ((scheduledCrons d).filter (RunsEveryFewMinutes ·)) := by
  have hrule : Engine.builtinRules.filter (·.id = "FREQUENT_SCHEDULE") =
      [.ofDetections "FREQUENT_SCHEDULE" "cron schedule firing every minute or every few minutes"
        Rules.frequentSchedule] := rfl
  refine ⟨fun _ => isFrequentCron_iff_runsEveryFewMinutes, fun d file => ?_⟩
  rw [Engine.filter_findings_builtin d file hrule, frequentSchedule_inFile]

example : RunsEveryFewMinutes "  */007 * * * *" ∧ ¬RunsEveryFewMinutes "*/010 * * * *" ∧
    ¬RunsEveryFewMinutes "*/00 * * * *" := by
  decide +kernel

end WorkflowAudit.Lint
