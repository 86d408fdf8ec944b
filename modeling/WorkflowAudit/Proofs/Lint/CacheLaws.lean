import WorkflowAudit.Proofs.Lint.EngineLaws
import WorkflowAudit.Proofs.Lint.Relaxation
import WorkflowAudit.Proofs.Lint.RuleTableLaws

namespace WorkflowAudit.Lint

open Workflow (Document Job Step)

/-- A document with a gap in the steps of one of its jobs. -/
structure StepGap where
  document : Document
  jobsBefore : List Job
  job : Job
  jobsAfter : List Job
  stepsBefore : List Step
  stepsAfter : List Step

namespace StepGap

def fill (g : StepGap) (s : Step) : Document :=
  { g.document with
    jobs := g.jobsBefore ++ { g.job with steps := g.stepsBefore ++ s :: g.stepsAfter } ::
      g.jobsAfter }

def others (g : StepGap) : List Step :=
  g.jobsBefore.flatMap (·.steps) ++ g.stepsBefore ++ g.stepsAfter ++ g.jobsAfter.flatMap (·.steps)

theorem exists_fill_eq {d : Document} {j : Job} {s : Step} (hj : j ∈ d.jobs) (hs : s ∈ j.steps) :
    ∃ g : StepGap, g.fill s = d := by
  obtain ⟨jobsBefore, jobsAfter, hjobs⟩ := List.append_of_mem hj
  obtain ⟨stepsBefore, stepsAfter, hsteps⟩ := List.append_of_mem hs
  refine ⟨⟨d, jobsBefore, j, jobsAfter, stepsBefore, stepsAfter⟩, ?_⟩
  rw [fill, ← hsteps, ← hjobs]

theorem exists_step_fill_iff {g : StepGap} {s : Step} {P : Step → Prop} :
    (∃ j ∈ (g.fill s).jobs, ∃ t ∈ j.steps, P t) ↔ P s ∨ ∃ t ∈ g.others, P t := by
  simp only [fill, others, List.mem_append, List.mem_cons, List.mem_flatMap]
  grind

end StepGap

def ActionMentions (s : Step) (word : String) : Prop :=
  ∃ name, s.actionName = some name ∧ Mentions name word

def NamesCache (key : String) : Prop := key = "cache" ∨ "-cache".toList <:+ key.toList

def IsCacheParam (e : String × String) : Prop := NamesCache e.1 ∧ ¬Installs e.2.toList

def IsOff (value : String) : Prop :=
  Text.trim value.toList = [] ∨ Text.trim value.toList = "false".toList

instance : DecidablePred IsCacheParam := fun e =>
  decidable_of_iff (Rules.isCacheKey e.1 ∧ ¬Rules.isInstall e.2) <| by
    simp [IsCacheParam, NamesCache, Rules.isCacheKey, isInstall_iff]

def withoutCacheParams (s : Step) : Step :=
  { s with params := s.params.filter (¬IsCacheParam ·) }

def ReportsNoCache (d : Document) (file : String) : Prop := Engine.builtin.Reports d file "NO_CACHE"

section Steps

variable {s : Step} {e : String × String}

theorem mem_params_withoutCacheParams :
    e ∈ (withoutCacheParams s).params.entries ↔ e ∈ s.params.entries ∧ ¬IsCacheParam e := by
  rw [withoutCacheParams, KeyMap.mem_entries_filter, decide_eq_true_iff]

theorem installsPackages_withoutCacheParams :
    InstallsPackages (withoutCacheParams s) ↔ InstallsPackages s := by
  have hvalues : (∃ value ∈ (withoutCacheParams s).params.values, Installs value.toList) ↔
      ∃ value ∈ s.params.values, Installs value.toList := by
    simp only [KeyMap.values, List.mem_map, exists_exists_and_eq_and,
      mem_params_withoutCacheParams, IsCacheParam]
    grind
  rw [InstallsPackages, InstallsPackages, hvalues]
  rfl

theorem providesCache_iff_of_not_mentions (h : ¬ActionMentions s "cache") :
    ProvidesCache s ↔ ∃ e ∈ s.params.entries, NamesCache e.1 ∧ ¬IsOff e.2 := by
  refine (or_iff_right h).trans ?_
  simp only [NamesCache, IsOff, not_or, ne_eq]

theorem not_isOff_of_installs {value : String} (h : Installs value.toList) : ¬IsOff value := by
  have hon := turnsCacheOn_of_isInstall (.inl rfl : "cache" = "cache" ∨ _) (isInstall_iff.mpr h)
  simpa only [IsOff, not_or, ne_eq] using (turnsCacheOn_iff.mp hon).2

theorem providesCache_withoutCacheParams (h : ¬ActionMentions s "cache") :
    ProvidesCache (withoutCacheParams s) ↔
      ∃ e ∈ s.params.entries, NamesCache e.1 ∧ Installs e.2.toList := by
  rw [providesCache_iff_of_not_mentions (s := withoutCacheParams s) h]
  simp only [mem_params_withoutCacheParams, IsCacheParam, not_and, not_not]
  constructor
  · rintro ⟨e, ⟨he, hkept⟩, hname, -⟩
    exact ⟨e, he, hname, hkept hname⟩
  · rintro ⟨e, he, hname, hinstall⟩
    exact ⟨e, ⟨he, fun _ => hinstall⟩, hname, not_isOff_of_installs hinstall⟩

theorem providesCache_of_withoutCacheParams (h : ProvidesCache (withoutCacheParams s)) :
    ProvidesCache s := by
  refine h.imp id fun ⟨e, he, hon⟩ => ⟨e, (mem_params_withoutCacheParams.mp he).1, hon⟩

theorem keepsCache_iff (h : ¬ActionMentions s "cache") :
    (ProvidesCache s → ProvidesCache (withoutCacheParams s)) ↔
      (∀ e ∈ s.params.entries, IsCacheParam e → IsOff e.2) ∨
        ∃ e ∈ s.params.entries, NamesCache e.1 ∧ Installs e.2.toList := by
  rw [providesCache_withoutCacheParams h, providesCache_iff_of_not_mentions h]
  by_cases hinstall : ∃ e ∈ s.params.entries, NamesCache e.1 ∧ Installs e.2.toList
  · exact iff_of_true (fun _ => hinstall) (.inr hinstall)
  · rw [or_iff_left hinstall]
    constructor
    · intro hkeep e he hparam
      by_contra hon
      exact hinstall (hkeep ⟨e, he, hparam.1, hon⟩)
    · rintro hoff ⟨e, he, hname, hon⟩
      by_contra hnone
      exact hon (hoff e he ⟨hname, fun hin => hinstall ⟨e, he, hname, hin⟩⟩)

end Steps

section Documents

variable {d : Document} {file : String} {g : StepGap} {s : Step}

theorem reportsNoCache_iff_noCache_ne_nil : ReportsNoCache d file ↔ Rules.noCache d ≠ [] :=
  Engine.reports_builtin_iff d file (rfl : Engine.builtinRules.filter (·.id = "NO_CACHE") =
    [.ofDetections "NO_CACHE" "dependency install without any cache" Rules.noCache])

theorem reportsNoCache_iff : ReportsNoCache d file ↔
    (¬∃ j ∈ d.jobs, ∃ s ∈ j.steps, ProvidesCache s) ∧
      ∃ j ∈ d.jobs, ∃ s ∈ j.steps, InstallsPackages s := by
  rw [reportsNoCache_iff_noCache_ne_nil, Rules.noCache, Row.detectsSteps_iff,
    ← Bool.not_eq_true, Row.any_steps_iff]
  simp only [providesCache_iff, installsPackages_iff]

theorem reportsNoCache_fill_iff : ReportsNoCache (g.fill s) file ↔
    ¬(ProvidesCache s ∨ ∃ t ∈ g.others, ProvidesCache t) ∧
      (InstallsPackages s ∨ ∃ t ∈ g.others, InstallsPackages t) := by
  rw [reportsNoCache_iff, StepGap.exists_step_fill_iff, StepGap.exists_step_fill_iff]

/-- Leaving out parameters named like caches never silences the rule. In a step that is no cache by
its action it makes no difference exactly if all of them are off, a command is left under such a
name, another step provides a cache, or nothing is fetched at all. -/
theorem reportsNoCache_withoutCacheParams (s : Step) (file : String) :
    (∀ (d : Document) (j : Job), j ∈ d.jobs → s ∈ j.steps → ∃ g : StepGap, g.fill s = d) ∧
    ∀ g : StepGap,
      (ReportsNoCache (g.fill s) file → ReportsNoCache (g.fill (withoutCacheParams s)) file) ∧
      (¬ActionMentions s "cache" →
        ((ReportsNoCache (g.fill (withoutCacheParams s)) file ↔ ReportsNoCache (g.fill s) file) ↔
          (∀ e ∈ s.params.entries, IsCacheParam e → IsOff e.2) ∨
            (∃ e ∈ s.params.entries, NamesCache e.1 ∧ Installs e.2.toList) ∨
            (∃ t ∈ g.others, ProvidesCache t) ∨
            ¬(InstallsPackages s ∨ ∃ t ∈ g.others, InstallsPackages t))) := by
  refine ⟨fun d j => StepGap.exists_fill_eq, fun g => ?_⟩
  rw [reportsNoCache_fill_iff, reportsNoCache_fill_iff, installsPackages_withoutCacheParams]
  have hweaker := @providesCache_of_withoutCacheParams s
  refine ⟨fun ⟨hnone, hinstall⟩ => ⟨mt (Or.imp_left hweaker) hnone, hinstall⟩, fun h => ?_⟩
  rw [← or_assoc, ← keepsCache_iff h]
  grind

end Documents

def freshBuild : Step :=
  ⟨none, some "docker/build-push-action@v5", none, .ofList [("no-cache", "true")]⟩

def fetchesAfter : StepGap where
  document := .empty
  jobsBefore := []
  job := ⟨"t", none, ["ubuntu-latest"], none, none, none, none, none, none, []⟩
  jobsAfter := []
  stepsBefore := []
  stepsAfter := [⟨none, none, some "npm ci", .empty⟩]

theorem not_actionMentions_freshBuild {word : String}
    (h : Text.containsLowered "docker/build-push-action" word = false) :
    ¬ActionMentions freshBuild word := by
  have hname : freshBuild.actionName = some "docker/build-push-action" := by decide +kernel
  rintro ⟨name, hsome, hmentions⟩
  rw [hname, Option.some_inj] at hsome
  rw [← hsome, ← containsLowered_iff, h] at hmentions
  cases hmentions

/-- To build without a cache counts as a cache of packages. -/
theorem reportsNoCache_differs_without_noCacheParam :
    ¬∀ (g : StepGap) (s : Step) (file : String),
      ¬ActionMentions s "cache" → ¬ActionMentions s "setup" →
        (ReportsNoCache (g.fill (withoutCacheParams s)) file ↔ ReportsNoCache (g.fill s) file) := by
  intro h
  specialize h fetchesAfter freshBuild "ci.yml"
    (not_actionMentions_freshBuild (by decide +kernel))
    (not_actionMentions_freshBuild (by decide +kernel))
  rw [reportsNoCache_iff_noCache_ne_nil, reportsNoCache_iff_noCache_ne_nil] at h
  exact absurd (h.mp (by decide +kernel)) (by decide +kernel)

theorem reportsNoCache_withoutCacheParams_freshBuild :
    ((∃ j ∈ (fetchesAfter.fill freshBuild).jobs, freshBuild ∈ j.steps) ∧
      ∃ g : StepGap, g.fill freshBuild = fetchesAfter.fill freshBuild) ∧
    ¬ActionMentions freshBuild "cache" ∧
      ¬(ReportsNoCache (fetchesAfter.fill (withoutCacheParams freshBuild)) "ci.yml" ↔
        ReportsNoCache (fetchesAfter.fill freshBuild) "ci.yml") := by
  have hjob : { fetchesAfter.job with steps := freshBuild :: fetchesAfter.stepsAfter } ∈
      (fetchesAfter.fill freshBuild).jobs := List.mem_cons_self
  have hname : ¬ActionMentions freshBuild "cache" :=
    not_actionMentions_freshBuild (by decide +kernel)
  have hwhen := ((reportsNoCache_withoutCacheParams freshBuild "ci.yml").2 fetchesAfter).2 hname
  refine ⟨⟨⟨_, hjob, List.mem_cons_self⟩,
    (reportsNoCache_withoutCacheParams freshBuild "ci.yml").1 _ _ hjob List.mem_cons_self⟩,
    hname, mt hwhen.mp ?_⟩
  rintro (hoff | ⟨e, he, -, hinstall⟩ | ⟨t, ht, hcache⟩ | hnothing)
  · have := hoff ("no-cache", "true") (by decide +kernel) (by decide +kernel)
    exact absurd this (not_or.mpr ⟨by decide +kernel, by decide +kernel⟩)
  · obtain rfl : e = ("no-cache", "true") := List.eq_of_mem_singleton he
    exact absurd (isInstall_iff.mpr hinstall) (by decide +kernel)
  · obtain rfl := List.eq_of_mem_singleton ht
    exact absurd (providesCache_iff.mpr hcache) (by decide +kernel)
  · exact hnothing (.inr ⟨_, List.mem_cons_self, installsPackages_iff.mp (by decide +kernel)⟩)

end WorkflowAudit.Lint
