import WorkflowAudit.Config.Load
import WorkflowAudit.Proofs.Audit.OutcomeCoverage

namespace WorkflowAudit.Time.Instant

/-- The day the clock reads. Leaving a leap second it reads the second after it. -/
def clockDay (t : Instant) : Int :=
  (if 1000000000 ≤ t.nanos then t.seconds + 1 else t.seconds) / secondsPerDay

def IsWithinYears (first last : Int) (t : Instant) : Prop :=
  Date.toDays ⟨first, 1, 1⟩ ≤ t.seconds / secondsPerDay ∧
    t.seconds / secondsPerDay ≤ Date.toDays ⟨last, 12, 31⟩

instance (first last : Int) : DecidablePred (IsWithinYears first last) :=
  fun _ => inferInstanceAs (Decidable (_ ∧ _))

theorem clockDay_nonneg {t : Instant} (ht : t.IsWithinYears 1970 9999) : 0 ≤ t.clockDay := by
  have hfirst : 0 ≤ t.seconds / 86400 := ht.1
  rw [clockDay, secondsPerDay]
  split <;> omega

theorem clockDay_le_lastDay {t : Instant} (ht : t.IsWithinYears 1970 9999) :
    t.clockDay ≤ lastDay := by
  have hlast : t.seconds / 86400 ≤ 2932896 := ht.2
  have hday : lastDay = 95026236 := by decide
  rw [clockDay, secondsPerDay, hday]
  split <;> omega

theorem day_minusDays (seconds : Int) (days : Nat) :
    (seconds - days * secondsPerDay) / secondsPerDay = seconds / secondsPerDay - days := by
  rw [secondsPerDay]
  omega

theorem minusDays?_eq_none_iff {t : Instant} (ht : t.IsWithinYears 1970 9999) {days : Nat} :
    t.minusDays? days = none ↔ t.clockDay - days < firstDay := by
  have hfirst : firstDay ≤ t.clockDay := Int.le_trans (by decide) (clockDay_nonneg ht)
  have hlast := clockDay_le_lastDay ht
  by_cases hdays : days = 0
  · simp [minusDays?, hdays, hfirst]
  · have hday : (if 1000000000 ≤ t.nanos then ⟨t.seconds + 1, t.nanos - 1000000000⟩ else t :
        Instant).seconds / secondsPerDay = t.clockDay := by
      rw [clockDay]
      split <;> rfl
    simp only [minusDays?, hdays, if_false, isInRange, day_minusDays, ge_iff_le, hday,
      Bool.and_eq_true, decide_eq_true_eq, ite_eq_right_iff, reduceCtorEq, imp_false]
    omega

end WorkflowAudit.Time.Instant

namespace WorkflowAudit.Audit

open Config (Settings)
open Hosting (Call)
open Lint (Engine)
open Time (Instant)

def StartsInTime (settings : Settings) (now : Instant) : Prop :=
  Instant.firstDay ≤ now.clockDay - settings.windowDays

instance (settings : Settings) : DecidablePred (StartsInTime settings) :=
  fun _ => inferInstanceAs (Decidable (_ ≤ _))

section

variable {engine : Engine} {settings : Settings} {now : Instant} {repositories : List String}

theorem startsInTime_iff (hnow : now.IsWithinYears 1970 9999) :
    StartsInTime settings now ↔ (now.minusDays? settings.windowDays).isSome := by
  rw [Option.isSome_iff_ne_none, Ne, Instant.minusDays?_eq_none_iff hnow, StartsInTime, Int.not_lt]

theorem aggregate_isOk_iff (hnow : now.IsWithinYears 1970 9999) (records : List Runs.Record) :
    (∃ groups, Runs.aggregate records settings.windowDays now = .ok groups) ↔
      StartsInTime settings now := by
  rw [startsInTime_iff hnow, Runs.aggregate]
  cases now.minusDays? settings.windowDays with
  | none => simp
  | some start => simp

theorem ofAudits_isOk_iff (hnow : now.IsWithinYears 1970 9999) (cancelled : Bool)
    (audits : List (Option RepositoryAudit)) :
    (∃ o, Outcome.ofAudits engine settings.windowDays now cancelled audits = .ok o) ↔
      StartsInTime settings now := by
  rcases Outcome.ofAudits_cases engine settings.windowDays now cancelled audits with
    ⟨hstart, herror⟩ | ⟨o, ho, -, hstats, -⟩
  · simp [herror, startsInTime_iff hnow, hstart]
  · rw [← aggregate_isOk_iff hnow o.records]
    exact iff_of_true ⟨o, ho⟩ ⟨o.stats, hstats⟩

theorem startsInTime_of_le (hnow : now.IsWithinYears 1970 9999)
    (hdays : settings.windowDays ≤ 96465292) : StartsInTime settings now := by
  have hday := Instant.clockDay_nonneg hnow
  have hfirst : Instant.firstDay = -96465292 := by decide
  rw [StartsInTime, hfirst]
  omega

/-- Whatever the runs and the answers, an audit ends normally exactly if the first day of its window
is on the time line. No window of at most 96465292 days starts before. -/
theorem endsNormally_iff (engine : Engine) (settings : Settings) (repositories : List String)
    (hnow : now.IsWithinYears 1970 9999) :
    (∀ records, (∃ groups, Runs.aggregate records settings.windowDays now = .ok groups) ↔
      StartsInTime settings now) ∧
    (∀ log result, (run engine settings repositories now).Transcript log result →
      ((∃ o, result = .ok o) ↔ StartsInTime settings now)) ∧
    (∀ answer events p result,
      Pool.Run answer engine settings (Pool.start repositories) events p →
      p.outcome? engine settings now = some result →
      ((∃ o, result = .ok o) ↔ StartsInTime settings now)) ∧
    (settings.windowDays ≤ 96465292 → StartsInTime settings now) := by
  have hrun : ∀ log result, (run engine settings repositories now).Transcript log result →
      ((∃ o, result = .ok o) ↔ StartsInTime settings now) := by
    intro log result h
    obtain ⟨-, audits, cancelled, -, -, rfl⟩ := of_run h
    exact ofAudits_isOk_iff hnow cancelled audits
  refine ⟨aggregate_isOk_iff hnow, hrun, ?_, startsInTime_of_le hnow⟩
  intro answer events p result hpool hresult
  obtain ⟨log, hlog, -⟩ := hpool.exists_transcript hresult
  exact hrun log result hlog

end

def longestWindow : Settings := { windowDays := 4294967295 }

/-- Settings within their bounds do not make an audit end normally, in June 2024 for one. -/
theorem validate_not_sufficient :
    ¬∀ (settings : Settings) (now : Instant) (records : List Runs.Record),
      settings.validate = .ok settings → now.IsWithinYears 1970 9999 →
      ∃ groups, Runs.aggregate records settings.windowDays now = .ok groups := by
  intro h
  obtain ⟨groups, hgroups⟩ := h longestWindow ⟨1717243200, 0⟩ [] rfl (by decide)
  cases hgroups

theorem endsNormally_iff_longestWindow :
    longestWindow.validate = .ok longestWindow ∧
      Instant.IsWithinYears 1970 9999 ⟨1717243200, 0⟩ ∧
      ¬∃ o, Outcome.ofAudits .builtin longestWindow.windowDays ⟨1717243200, 0⟩ false [] = .ok o := by
  have hnow : Instant.IsWithinYears 1970 9999 ⟨1717243200, 0⟩ := by decide
  obtain ⟨-, hrun, -, -⟩ := endsNormally_iff .builtin longestWindow [] hnow
  refine ⟨rfl, hnow, ?_⟩
  rw [hrun [⟨.cancelled, false⟩] _ (.ask .done)]
  decide

end WorkflowAudit.Audit
