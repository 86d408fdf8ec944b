import WorkflowAudit.Lint.Rules.Scope
import WorkflowAudit.Proofs.KeyMapLaws
import WorkflowAudit.Proofs.Lint.Commands
import WorkflowAudit.Proofs.Text.PartLaws

namespace WorkflowAudit.Lint

open Rules (RunnerFamily)
open Workflow (Document Filters Job Step)

inductive FrequentMinute : List Char → Prop
  | every : FrequentMinute ['*']
  | everyFew (zeros : Nat) {d : Char} : d.isDigit → d ≠ '0' →
    FrequentMinute ('*' :: '/' :: (List.replicate zeros '0' ++ [d]))

def FrequentCron (cron : String) : Prop :=
  ∃ minute, Text.IsFirstWord minute cron.toList ∧ FrequentMinute minute

theorem isFrequentMinute_iff {s : List Char} : Rules.isFrequentMinute s ↔ FrequentMinute s := by
  constructor
  · intro h
    unfold Rules.isFrequentMinute at h
    split at h
    · exact .every
    · rename_i digits
      have hzeros : digits.takeWhile (· = '0') =
          List.replicate (digits.takeWhile (· = '0')).length '0' := by
        rw [List.eq_replicate_iff]
        exact ⟨rfl, fun c hc => by simpa using List.all_eq_true.mp List.all_takeWhile c hc⟩
      have hdigits := List.takeWhile_append_dropWhile (p := fun c => decide (c = '0')) (l := digits)
      split at h
      · rename_i d hd
        have hne : d ≠ '0' := by
          have := List.head_dropWhile_not (fun c => decide (c = '0')) (l := digits) (by simp [hd])
          simpa [hd] using this
        rw [← hdigits, hd, hzeros]
        exact .everyFew _ h hne
      · cases h
    · cases h
  · intro h
    cases h with
    | every => rfl
    | everyFew zeros hdigit hne =>
      have hdrop : ∀ (zeros : Nat) {d : Char}, d ≠ '0' →
          (List.replicate zeros '0' ++ [d]).dropWhile (fun c => decide (c = '0')) = [d] := by
        intro zeros d hne
        rw [List.dropWhile_append_of_pos (by simp), List.dropWhile_cons_of_neg (by simpa using hne)]
      simp only [Rules.isFrequentMinute, hdrop zeros hne]
      exact hdigit

theorem isFrequentCron_iff {cron : String} : Rules.isFrequentCron cron ↔ FrequentCron cron := by
  rw [Rules.isFrequentCron, FrequentCron]
  simp only [← Text.firstWord?_eq_some_iff, ← isFrequentMinute_iff]
  cases Text.firstWord? cron.toList with
  | none => simp
  | some minute => simp

instance : DecidablePred FrequentCron := fun _ => decidable_of_iff _ isFrequentCron_iff

def OldCheckout (uses : String) : Prop :=
  ∃ (major : List Char) (minors : List (List Char)),
    uses.toList = "actions/checkout@v".toList ++ major ++ minors.flatMap ('.' :: ·) ∧
    (major = ['1'] ∨ major = ['2']) ∧ ∀ minor ∈ minors, minor ≠ [] ∧ ∀ c ∈ minor, c.isDigit

theorem versionPieces?_eq_some_iff {version : List Char} {pieces : List (List Char)} :
    Rules.versionPieces? version = some pieces ↔ Text.splitOn '.' version = pieces ∧
      ∀ piece ∈ pieces, piece ≠ [] ∧ ∀ c ∈ piece, c.isDigit := by
  simp only [Rules.versionPieces?]
  split
  · rename_i h
    simp only [List.all_eq_true, Bool.and_eq_true, Bool.not_eq_true',
      List.isEmpty_eq_false_iff] at h
    constructor
    · intro heq
      obtain rfl := Option.some.inj heq
      exact ⟨rfl, h⟩
    · rintro ⟨rfl, -⟩
      rfl
  · rename_i h
    constructor
    · intro heq
      cases heq
    · rintro ⟨rfl, hpieces⟩
      refine absurd ?_ h
      simpa only [List.all_eq_true, Bool.and_eq_true, Bool.not_eq_true', List.isEmpty_eq_false_iff]
        using hpieces

theorem isOldCheckout_iff {uses : String} : Rules.isOldCheckout uses ↔ OldCheckout uses := by
  have hdot : ∀ {piece : List Char}, (∀ c ∈ piece, c.isDigit) → '.' ∉ piece := by
    intro piece hpiece hmem
    exact absurd (hpiece _ hmem) (by decide)
  simp only [Rules.isOldCheckout, OldCheckout, Bool.and_eq_true, List.isPrefixOf_iff_prefix]
  constructor
  · rintro ⟨⟨version, huses⟩, h⟩
    rw [← huses, List.drop_left] at h
    split at h
    · rename_i major minors hpieces
      obtain ⟨hsplit, hdigits⟩ := versionPieces?_eq_some_iff.mp hpieces
      obtain ⟨rfl, -⟩ := Text.splitOn_eq_cons_iff.mp hsplit
      refine ⟨major, minors, by rw [← huses, List.append_assoc], by simpa using h, ?_⟩
      exact fun minor hminor => hdigits minor (List.mem_cons_of_mem _ hminor)
    · cases h
  · rintro ⟨major, minors, huses, hmajor, hminors⟩
    have hdigits : ∀ piece ∈ major :: minors, piece ≠ [] ∧ ∀ c ∈ piece, c.isDigit := by
      intro piece hpiece
      rcases List.mem_cons.mp hpiece with rfl | hpiece
      · rcases hmajor with rfl | rfl <;> simp
      · exact hminors piece hpiece
    have hpieces : Rules.versionPieces? (major ++ minors.flatMap ('.' :: ·)) =
        some (major :: minors) := by
      rw [versionPieces?_eq_some_iff, Text.splitOn_eq_cons_iff]
      exact ⟨⟨rfl, fun piece hpiece => hdot (hdigits piece hpiece).2⟩, hdigits⟩
    rw [huses, List.append_assoc]
    refine ⟨List.prefix_append .., ?_⟩
    rw [List.drop_left, hpieces]
    simpa using hmajor

def Mentions (s part : String) : Prop := part.toList <:+: s.toList.map Char.toLower

theorem containsLowered_iff {s part : String} : Text.containsLowered s part ↔ Mentions s part :=
  Text.contains_iff

def ProvidesCache (s : Step) : Prop :=
  (∃ name, s.actionName = some name ∧ Mentions name "cache") ∨
    ∃ e ∈ s.params.entries, (e.1 = "cache" ∨ "-cache".toList <:+ e.1.toList) ∧
      Text.trim e.2.toList ≠ [] ∧ Text.trim e.2.toList ≠ "false".toList

theorem turnsCacheOn_iff {key value : String} :
    Rules.turnsCacheOn key value ↔ (key = "cache" ∨ "-cache".toList <:+ key.toList) ∧
      Text.trim value.toList ≠ [] ∧ Text.trim value.toList ≠ "false".toList := by
  simp only [Rules.turnsCacheOn, Rules.isCacheKey, Bool.and_eq_true, Bool.or_eq_true,
    decide_eq_true_eq, List.isSuffixOf_iff_suffix, Bool.not_eq_true', List.isEmpty_eq_false_iff,
    ne_eq]

theorem providesCache_iff {s : Step} : Rules.providesCache s ↔ ProvidesCache s := by
  simp only [Rules.providesCache, ProvidesCache, Bool.or_eq_true, List.any_eq_true,
    turnsCacheOn_iff, Rules.isCacheAction]
  refine or_congr ?_ Iff.rfl
  cases s.actionName with
  | none => simp
  | some name => simp [containsLowered_iff]

def InstallsPackages (s : Step) : Prop :=
  (∃ script, s.run = some script ∧ Installs script.toList) ∨
    ∃ value ∈ s.params.values, Installs value.toList

theorem installsPackages_iff {s : Step} : Rules.installsPackages s ↔ InstallsPackages s := by
  simp only [Rules.installsPackages, InstallsPackages, Bool.or_eq_true, List.any_eq_true,
    isInstall_iff]
  refine or_congr ?_ Iff.rfl
  cases s.run with
  | none => simp
  | some script => simp [isInstall_iff]

def familyWord : RunnerFamily → String
  | .macOS => "macos"
  | .windows => "windows"

def RunsOnFamily (f : RunnerFamily) (j : Job) : Prop :=
  (∀ label ∈ j.runsOn, label.toList.map Char.toLower ≠ "self-hosted".toList) ∧
    ∃ label ∈ j.runsOn, Mentions label (familyWord f)

theorem runsOnFamily_iff {f : RunnerFamily} {j : Job} :
    Rules.runsOnFamily j f ↔ RunsOnFamily f j := by
  have hnamed : ∀ label, f.isNamedBy label ↔ Mentions label (familyWord f) := by
    intro label
    cases f with
    | macOS => exact containsLowered_iff
    | windows => exact containsLowered_iff
  simp only [Rules.runsOnFamily, RunsOnFamily, Rules.isSelfHosted, Bool.and_eq_true,
    Bool.not_eq_true', List.any_eq_false, List.any_eq_true, decide_eq_true_eq, hnamed, ne_eq]

instance (f : RunnerFamily) : DecidablePred (RunsOnFamily f) :=
  fun _ => decidable_of_iff _ runsOnFamily_iff

theorem expensiveRunner_eq_append (d : Document) : Rules.expensiveRunner d =
    (Rules.expensiveRunnerOf d .macOS).toList ++ (Rules.expensiveRunnerOf d .windows).toList := by
  rw [Rules.expensiveRunner, RunnerFamily.all]
  simp only [List.filterMap_cons, List.filterMap_nil]
  cases Rules.expensiveRunnerOf d .macOS <;> cases Rules.expensiveRunnerOf d .windows <;> rfl

theorem tag_of_expensiveRunnerOf {d : Document} {f : RunnerFamily} {x : Detection}
    (h : Rules.expensiveRunnerOf d f = some x) : x.tag = some f.tag := by
  rw [Rules.expensiveRunnerOf] at h
  split at h
  · cases h
  · obtain rfl := Option.some.inj h
    rfl

def Restricted (j : Job) : Prop :=
  ∃ condition, j.condition = some condition ∧
    HasCommand [["main", "master", "default_branch", "schedule"]] condition.toList

theorem isRestricted_iff {j : Job} : Rules.isRestricted j ↔ Restricted j := by
  have hpattern : Rules.protectedPattern =
      Rules.command [["main", "master", "default_branch", "schedule"]] := rfl
  rw [Rules.isRestricted, Restricted, hpattern]
  cases j.condition with
  | none => simp
  | some condition =>
    simp only [Option.some.injEq, exists_eq_left']
    exact occursIn_command (by decide)

def NamesProtectedBranch (f : Filters) : Prop :=
  ∃ branches, f.branches = some branches ∧ ("main" ∈ branches ∨ "master" ∈ branches)

theorem namesProtectedBranch_iff {f : Filters} :
    f.namesProtectedBranch ↔ NamesProtectedBranch f := by
  rw [Filters.namesProtectedBranch, NamesProtectedBranch]
  cases f.branches with
  | none => simp
  | some branches => simp [and_or_left, exists_or]

end WorkflowAudit.Lint
