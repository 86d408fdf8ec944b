import WorkflowAudit.Proofs.Audit.OutcomeCoverage
import WorkflowAudit.Proofs.Lint.EngineLaws
import WorkflowAudit.Proofs.Lint.Offences
import WorkflowAudit.Proofs.Report.TotalsLaws

namespace WorkflowAudit.Audit

open Config (Settings)
open Hosting (Call)
open Lint (Engine FindingRow)
open Lint.Rules (RunnerFamily)
open Report (expensiveFindings tagOf)
open Workflow (Document)

/-- Results that come of files being fetched and analysed by an engine, or not. -/
inductive FileResults.CollectedBy (engine : Engine) : FileResults → Prop
  | none : CollectedBy engine .none
  | ofSkipped {repository message : String} {file : Option String} {kind : Kind} :
    CollectedBy engine (.ofSkipped repository file kind message)
  | ofDocument {repository file : String} {d : Document} :
    CollectedBy engine (.ofDocument engine repository file d)
  | append {a b : FileResults} :
    CollectedBy engine a → CollectedBy engine b → CollectedBy engine (a.append b)

/-! ### Results of runs -/

section Collected

variable {engine : Engine} {log : Log} {repository : String}

namespace FileResults

theorem collectedBy_join {l : List FileResults} (h : ∀ r ∈ l, r.CollectedBy engine) :
    (join l).CollectedBy engine := by
  induction l with
  | nil => exact .none
  | cons r l ih =>
    obtain ⟨hr, hl⟩ := List.forall_mem_cons.mp h
    exact hr.append (ih hl)

theorem collectedBy_ofFetched (file : String)
    (answer : Except Hosting.FetchError (Option String)) :
    (ofFetched engine repository file answer).CollectedBy engine := by
  match answer with
  | .ok (some text) => exact .ofDocument
  | .ok Option.none => exact .ofSkipped
  | .error e => exact .ofSkipped

end FileResults

theorem collectedBy_auditFiles {r : FileResults}
    (h : (auditFiles engine repository).Transcript log r) : r.CollectedBy engine := by
  rcases of_auditFiles h with ⟨e, -, rfl⟩ | ⟨names, rest, results, -, hfiles, rfl⟩
  · exact .ofSkipped
  · refine FileResults.collectedBy_join ?_
    refine hfiles.forEach_induction (motive := fun _ _ (results : List FileResults) =>
      ∀ r ∈ results, r.CollectedBy engine) (fun _ hr => nomatch hr) ?_
    intro file files first rest r results hfile hresults
    obtain ⟨answer, _, rfl, hfetched⟩ := hfile.of_ask
    obtain ⟨rfl, rfl⟩ := hfetched.of_done
    exact List.forall_mem_cons.mpr ⟨FileResults.collectedBy_ofFetched file answer, hresults⟩

theorem collectedBy_auditRepository {runLimit : Nat} {audit : Option RepositoryAudit}
    (h : (auditRepository engine runLimit repository).Transcript log audit) :
    ∀ a ∈ audit, a.files.CollectedBy engine := by
  rcases of_auditRepository h with ⟨-, rfl⟩ | ⟨rest, a, -, rfl, hstarted⟩
  · exact fun _ ha => nomatch ha
  · rintro _ ⟨⟩
    obtain ⟨answer, rest, -, hfiles, -⟩ := of_auditStarted hstarted
    exact collectedBy_auditFiles hfiles

theorem collectedBy_run {settings : Settings} {repositories : List String} {now : Time.Instant}
    {o : Outcome} (h : (run engine settings repositories now).Transcript log (.ok o)) :
    o.ruleOrder = engine.ruleIds ∧ ∃ files : FileResults, files.CollectedBy engine ∧
      o.findings = files.findings ∧ o.coverage.filesAnalyzed = files.analyzed := by
  obtain ⟨log, audits, cancelled, rfl, haudits, hresult⟩ := of_run h
  have hcollected : ∀ audit ∈ audits, ∀ a ∈ audit, a.files.CollectedBy engine := by
    refine haudits.forEach_induction
      (motive := fun _ _ (audits : List (Option RepositoryAudit)) =>
        ∀ audit ∈ audits, ∀ a ∈ audit, a.files.CollectedBy engine) (fun _ h => nomatch h) ?_
    intro repository repositories first rest audit audits haudit haudits
    exact List.forall_mem_cons.mpr ⟨collectedBy_auditRepository haudit, haudits⟩
  have hfiles : ∀ r ∈ (audits.filterMap id).map (·.files), r.CollectedBy engine := by
    intro r hr
    obtain ⟨a, ha, rfl⟩ := List.mem_map.mp hr
    obtain ⟨audit, haudit, ha⟩ := List.mem_filterMap.mp ha
    exact hcollected audit haudit a ha
  refine ⟨Outcome.ruleOrder_of_ofAudits hresult.symm,
    FileResults.join ((audits.filterMap id).map (·.files)), FileResults.collectedBy_join hfiles, ?_⟩
  rcases Outcome.ofAudits_cases engine settings.windowDays now cancelled audits with
    ⟨-, herror⟩ | ⟨o', ho, -, -, hfindings, -, hcoverage⟩
  · cases hresult.trans herror
  · obtain rfl := Except.ok.inj (hresult.trans ho)
    refine ⟨?_, by rw [hcoverage]; rfl⟩
    rw [hfindings, FileResults.findings_join, List.flatMap_map]

end Collected

/-! ### Rules and tags of findings -/

theorem FileResults.CollectedBy.rule_mem {engine : Engine} {r : FileResults}
    (h : r.CollectedBy engine) : ∀ row ∈ r.findings, row.finding.rule ∈ engine.ruleIds := by
  induction h with
  | none | ofSkipped => exact fun _ hrow => nomatch hrow
  | ofDocument =>
    intro row hrow
    obtain ⟨f, hf, rfl⟩ := List.mem_map.mp hrow
    exact Engine.rule_mem_ruleIds _ _ _ hf
  | append _ _ iha ihb => exact List.forall_mem_append.mpr ⟨iha, ihb⟩

def runnerTags : List String := RunnerFamily.all.map RunnerFamily.tag

theorem tagOf_of_expensiveRunnerOf {d : Document} {family : RunnerFamily} {x : Lint.Detection}
    (h : Lint.Rules.expensiveRunnerOf d family = some x) (rule file : String) :
    tagOf (x.inFile rule file) = family.tag := by
  rw [tagOf, Lint.Detection.inFile, Lint.tag_of_expensiveRunnerOf h, Option.getD_some]

theorem tags_expensiveRunner (d : Document) (rule file : String) :
    ((Lint.Rules.expensiveRunner d).map fun x => tagOf (x.inFile rule file)).Sublist
      runnerTags := by
  rw [Lint.Rules.expensiveRunner, runnerTags]
  induction RunnerFamily.all with
  | nil => exact .slnil
  | cons family families ih =>
    rw [List.filterMap_cons]
    split
    case h_1 => exact ih.cons _
    case h_2 x hx =>
      rw [List.map_cons, List.map_cons, tagOf_of_expensiveRunnerOf hx]
      exact ih.cons_cons _

theorem expensiveFindings_ofDocument (repository file : String) (d : Document) :
    expensiveFindings (FileResults.ofDocument .builtin repository file d).findings =
      (Lint.Rules.expensiveRunner d).map (·.inFile Report.expensiveRunnerRule file) := by
  have hrows : (FileResults.ofDocument .builtin repository file d).findings.map (·.finding) =
      (Engine.builtin.evaluate d file).findings := by
    simp [FileResults.ofDocument, Function.comp_def]
  have hrule : Engine.builtinRules.filter (·.id = Report.expensiveRunnerRule) =
      [.ofDetections "EXPENSIVE_RUNNER" "macOS or Windows runners outside protected branches"
        Lint.Rules.expensiveRunner] := rfl
  rw [expensiveFindings, hrows]
  exact Engine.filter_findings_builtin _ _ hrule

theorem FileResults.CollectedBy.count_le {r : FileResults} (h : r.CollectedBy .builtin)
    (tag : String) :
    ((expensiveFindings r.findings).map tagOf).count tag ≤ r.analyzed * runnerTags.count tag := by
  induction h with
  | none | ofSkipped => exact Nat.zero_le _
  | ofDocument =>
    rename_i repository file d
    rw [expensiveFindings_ofDocument, List.map_map]
    change _ ≤ 1 * _
    rw [Nat.one_mul]
    exact (tags_expensiveRunner d Report.expensiveRunnerRule file).count_le tag
  | append _ _ iha ihb =>
    rename_i a b _ _
    change ((expensiveFindings (a.findings ++ b.findings)).map tagOf).count tag ≤
      (a.analyzed + b.analyzed) * runnerTags.count tag
    rw [Report.expensiveFindings_append, List.map_append, List.count_append, Nat.add_mul]
    exact Nat.add_le_add iha ihb

theorem FileResults.CollectedBy.of_mem_expensiveSplitByTag {r : FileResults}
    (h : r.CollectedBy .builtin) {e : String × Report.RunnerSplit}
    (he : e ∈ (Report.expensiveSplitByTag r.findings).entries) :
    e.1 ∈ runnerTags ∧ e.2.onAll + e.2.limited ≤ r.analyzed := by
  obtain ⟨⟨f, hf, htag⟩, hsplit⟩ := Report.of_mem_expensiveSplitByTag he
  have hcount := h.count_le e.1
  have hnodup : runnerTags.count e.1 ≤ 1 :=
    List.nodup_iff_count_le_one.mp (by decide) e.1
  constructor
  · have hpos : 0 < ((expensiveFindings r.findings).map tagOf).count e.1 :=
      List.count_pos_iff.mpr (List.mem_map.mpr ⟨f, hf, htag⟩)
    exact List.count_pos_iff.mp (Nat.pos_of_mul_pos_left (Nat.lt_of_lt_of_le hpos hcount))
  · calc
      e.2.onAll + e.2.limited = ((expensiveFindings r.findings).filter (tagOf · = e.1)).length := by
        rw [hsplit, Lint.length_eq_countOf]
        rfl
      _ = ((expensiveFindings r.findings).map tagOf).count e.1 := by
        rw [← List.countP_eq_length_filter, List.count, List.countP_map]
        rfl
      _ ≤ r.analyzed * runnerTags.count e.1 := hcount
      _ ≤ r.analyzed * 1 := Nat.mul_le_mul_left _ hnodup
      _ = r.analyzed := Nat.mul_one _

/-! ### Reports of runs -/

def Outcome.IsOfRun (engine : Engine) (settings : Settings) (repositories : List String)
    (now : Time.Instant) (o : Outcome) : Prop :=
  (∃ log, (run engine settings repositories now).Transcript log (.ok o)) ∨
    ∃ answer events p, Pool.Run answer engine settings (Pool.start repositories) events p ∧
      p.outcome? engine settings now = some (.ok o)

theorem Outcome.IsOfRun.exists_transcript {engine : Engine} {settings : Settings}
    {repositories : List String} {now : Time.Instant} {o : Outcome}
    (h : o.IsOfRun engine settings repositories now) :
    ∃ log, (run engine settings repositories now).Transcript log (.ok o) := by
  rcases h with hrun | ⟨answer, events, p, hpool, houtcome⟩
  · exact hrun
  · obtain ⟨log, hrun, -⟩ := hpool.exists_transcript houtcome
    exact ⟨log, hrun⟩

/-- The totals of findings in a report agree with each other. The report of a run has one row for
each rule of the engine, and with the built-in rules no tag counts a file twice. -/
theorem totals_agree :
    (∀ (stats : List Runs.Stats) (rows : List FindingRow) (order : List String)
      (coverage : Report.Coverage) (options : Report.Options),
      (Report.render stats rows order coverage options).TotalsAgree rows order) ∧
    ∀ (engine : Engine) (settings : Settings) (repositories : List String) (now : Time.Instant)
      (o : Outcome) (options : Report.Options), o.IsOfRun engine settings repositories now →
      (o.report options).ruleCounts.map (·.rule) = engine.ruleIds ∧
      (engine = .builtin → ∀ e ∈ (o.report options).expensiveRunnersByTag.entries,
        e.1 ∈ ["MACOS_10X", "WINDOWS_2X"] ∧
          e.2.onAll + e.2.limited ≤ (o.report options).coverage.filesAnalyzed) := by
  refine ⟨Report.totalsAgree_render, ?_⟩
  intro engine settings repositories now o options ho
  obtain ⟨log, hrun⟩ := ho.exists_transcript
  obtain ⟨horder, files, hcollected, hfindings, hanalyzed⟩ := collectedBy_run hrun
  constructor
  · change (Report.ruleCounts o.ruleOrder o.findings).map (·.rule) = _
    rw [Report.rules_ruleCounts, horder, hfindings, Report.unlisted_eq_nil hcollected.rule_mem,
      List.append_nil]
  · rintro rfl e he
    change e ∈ (Report.expensiveSplitByTag o.findings).entries at he
    change _ ∧ _ ≤ o.coverage.filesAnalyzed
    rw [hfindings] at he
    rw [hanalyzed]
    exact hcollected.of_mem_expensiveSplitByTag he

def sampleRows : List FindingRow :=
  [⟨"acme/web", ⟨"EXPENSIVE_RUNNER", .warning, "", "ci.yml", some "MACOS_10X"⟩⟩,
    ⟨"acme/web", ⟨"SIGNED_COMMITS", .info, "", "ci.yml", none⟩⟩,
    ⟨"acme/docs", ⟨"EXPENSIVE_RUNNER", .info, "", "ci.yml", some "WINDOWS_2X"⟩⟩]

theorem totals_agree_sampleLog :
    (Report.render [] sampleRows ["EXPENSIVE_RUNNER", "NO_CACHE", "EXPENSIVE_RUNNER"] .none
      .standard).ruleCounts.map (·.rule) =
        ["EXPENSIVE_RUNNER", "NO_CACHE", "EXPENSIVE_RUNNER", "SIGNED_COMMITS"] ∧
    ∃ o, (run .builtin .standard ["acme/web", "acme/docs"] ⟨86400, 0⟩).Transcript sampleLog
        (.ok o) ∧
      (o.report .standard).ruleCounts.map (·.rule) = Engine.builtin.ruleIds ∧
      ∀ e ∈ (o.report .standard).expensiveRunnersByTag.entries,
        e.1 ∈ ["MACOS_10X", "WINDOWS_2X"] := by
  obtain ⟨hrender, hreport⟩ := totals_agree
  refine ⟨(hrender ..).rules, ?_⟩
  obtain ⟨result, hrun⟩ : ∃ result, (run .builtin .standard ["acme/web", "acme/docs"]
      ⟨86400, 0⟩).Transcript sampleLog result := ⟨_, .ask (.ask (.ask (.ask (.ask (.ask .done)))))⟩
  obtain ⟨-, audits, cancelled, -, -, rfl⟩ := of_run hrun
  rcases Outcome.ofAudits_cases .builtin Settings.standard.windowDays ⟨86400, 0⟩ cancelled audits
    with ⟨hnone, -⟩ | ⟨o, ho, -⟩
  · exact absurd hnone (by decide)
  · rw [ho] at hrun
    obtain ⟨hrules, htags⟩ := hreport .builtin .standard _ _ o .standard (.inl ⟨_, hrun⟩)
    exact ⟨o, hrun, hrules, fun e he => (htags rfl e he).1⟩

end WorkflowAudit.Audit
