import WorkflowAudit.Hosting.GitHub.Client
import WorkflowAudit.Proofs.Audit.OutcomeLaws
import WorkflowAudit.Proofs.Audit.PoolRuns
import WorkflowAudit.Proofs.Runs.AggregateLaws

/-! Independence of repositories. What an audit says about a repository depends on what is answered
about that repository only. -/

namespace WorkflowAudit.Report

def Coverage.add (a b : Coverage) : Coverage where
  ownersRequested := a.ownersRequested + b.ownersRequested
  ownersSkipped := a.ownersSkipped + b.ownersSkipped
  repositoriesRequested := a.repositoriesRequested + b.repositoriesRequested
  repositoriesAudited := a.repositoriesAudited + b.repositoriesAudited
  repositoriesSkipped := a.repositoriesSkipped + b.repositoriesSkipped
  repositoriesCancelled := a.repositoriesCancelled + b.repositoriesCancelled
  filesAnalyzed := a.filesAnalyzed + b.filesAnalyzed
  filesSkipped := a.filesSkipped + b.filesSkipped
  degradedDocuments := a.degradedDocuments + b.degradedDocuments
  ruleFailures := a.ruleFailures + b.ruleFailures
  cancelled := a.cancelled || b.cancelled

theorem Coverage.add_comm (a b : Coverage) : a.add b = b.add a := by
  simp only [add, Nat.add_comm, Bool.or_comm]

theorem Coverage.add_assoc (a b c : Coverage) : (a.add b).add c = a.add (b.add c) := by
  simp only [add, Nat.add_assoc, Bool.or_assoc]

end WorkflowAudit.Report

namespace WorkflowAudit.Hosting

def Call.IsAbout (repository : String) : Call → Prop
  | .repositories _ => False
  | .runs r _ | .files r | .definition r _ => r = repository

theorem Call.IsAbout.unique {repository other : String} {c : Call} (h : c.IsAbout repository)
    (h' : c.IsAbout other) : repository = other := by
  cases c with
  | repositories owner => cases h
  | runs r limit | files r | definition r file => exact h.symm.trans h'

/-- The runs that are listed for a repository are those of that repository. -/
def ListsOwnRuns (answer : (c : Call) → c.Answer) : Prop :=
  ∀ repository limit records, answer (.runs repository limit) = .ok records →
    ∀ r ∈ records, r.repository = repository

theorem GitHub.Client.listsOwnRuns (client : Client) (web : (q : Http.Request) → Http.Answer q) :
    ListsOwnRuns fun c => (client.answer c).answeredBy web := by
  intro repository limit records h
  change (client.runs repository limit).answeredBy web = _ at h
  rw [runs] at h
  split at h
  · rw [Dialogue.answeredBy_bind] at h
    cases hpages : Dialogue.answeredBy web (pages ..) with
    | error e =>
      rw [hpages] at h
      cases h
    | ok l =>
      rw [hpages] at h
      obtain rfl := Except.ok.inj h
      intro r hr
      obtain ⟨_, _, rfl⟩ := List.mem_map.mp hr
      rfl
  · obtain rfl := Except.ok.inj h
    exact fun _ hr => nomatch hr

end WorkflowAudit.Hosting

namespace WorkflowAudit.Audit

open Config (Settings)
open Hosting (Call ListsOwnRuns)
open Lint (Engine)
open Report (Coverage)

/-! ### One repository -/

def Query.IsAbout (repository : String) : Query → Prop
  | .call c => c.IsAbout repository
  | .cancelled => False

def Query.IsForFiles (repository : String) (q : Query) : Prop :=
  q = .call (.files repository) ∨ ∃ file, q = .call (.definition repository file)

theorem auditFiles_asksOnly_files (engine : Engine) (repository : String) :
    (auditFiles engine repository).AsksOnly (Query.IsForFiles repository) := by
  refine .ask (.inl rfl) fun answer => ?_
  match answer with
  | .error e => exact .done
  | .ok names =>
    refine .bind (.forEach (fun file => ?_) _) fun _ => .done
    exact .ask (.inr ⟨file, rfl⟩) fun _ => .done

theorem auditStarted_asksOnly_about (engine : Engine) (runLimit : Nat) (repository : String) :
    (auditStarted engine runLimit repository).AsksOnly (Query.IsAbout repository) := by
  have hfiles : (auditFiles engine repository).AsksOnly (Query.IsAbout repository) := by
    refine (auditFiles_asksOnly_files engine repository).mono ?_
    rintro _ (rfl | ⟨file, rfl⟩) <;> rfl
  refine .ask rfl fun answer => ?_
  match answer with
  | .ok records => exact hfiles.bind fun _ => .done
  | .error e => exact hfiles.bind fun _ => .done

structure FileResults.IsOf (repository : String) (r : FileResults) : Prop where
  findings : ∀ row ∈ r.findings, row.repository = repository
  diagnostics : ∀ d ∈ r.diagnostics, d.repository = repository

namespace FileResults.IsOf

theorem ofDocument (engine : Engine) (repository file : String) (d : Workflow.Document) :
    (ofDocument engine repository file d).IsOf repository where
  findings row hrow := by
    obtain ⟨_, _, rfl⟩ := List.mem_map.mp hrow
    rfl
  diagnostics diagnostic h := by
    rcases List.mem_append.mp h with h | h
    · split at h
      · rw [List.mem_singleton.mp h]
      · cases h
    · obtain ⟨_, _, rfl⟩ := List.mem_map.mp h
      rfl

theorem ofSkipped (repository : String) (file : Option String) (kind : Kind) (message : String) :
    (ofSkipped repository file kind message).IsOf repository :=
  ⟨fun _ h => (nomatch h), fun _ h => congrArg Diagnostic.repository (List.mem_singleton.mp h)⟩

theorem ofFetched (engine : Engine) (repository file : String)
    (answer : (Call.definition repository file).Answer) :
    (ofFetched engine repository file answer).IsOf repository := by
  match answer with
  | .ok (some text) => exact ofDocument ..
  | .ok Option.none => exact ofSkipped ..
  | .error e => exact ofSkipped ..

theorem join {repository : String} {l : List FileResults} (h : ∀ r ∈ l, r.IsOf repository) :
    (join l).IsOf repository where
  findings row hrow := by
    rw [findings_join] at hrow
    obtain ⟨r, hr, hrow⟩ := List.mem_flatMap.mp hrow
    exact (h r hr).findings row hrow
  diagnostics d hd := by
    rw [diagnostics_join] at hd
    obtain ⟨r, hr, hd⟩ := List.mem_flatMap.mp hd
    exact (h r hr).diagnostics d hd

end FileResults.IsOf

section

variable {answer answer' : (c : Call) → c.Answer} {engine : Engine} {runLimit : Nat}
variable {repository : String}

theorem isOf_auditFiles (answer : (q : Query) → q.Answer) (engine : Engine) (repository : String) :
    ((auditFiles engine repository).answeredBy answer).IsOf repository := by
  rw [auditFiles, Dialogue.answeredBy]
  cases answer (.call (.files repository)) with
  | error e => exact .ofSkipped ..
  | ok names =>
    change FileResults.IsOf repository (Dialogue.answeredBy answer (Dialogue.bind _ _))
    rw [Dialogue.answeredBy_bind, Dialogue.answeredBy_forEach]
    refine FileResults.IsOf.join fun r hr => ?_
    obtain ⟨file, _, rfl⟩ := List.mem_map.mp hr
    exact .ofFetched ..

theorem auditOf_eq (answer : (c : Call) → c.Answer) (engine : Engine) (runLimit : Nat)
    (repository : String) : auditOf answer engine runLimit repository =
      match answer (.runs repository runLimit) with
      | .ok records => ⟨records, [],
          (auditFiles engine repository).answeredBy (answerAt answer false)⟩
      | .error e => ⟨[], [⟨repository, none, .runHistory, e.message⟩],
          (auditFiles engine repository).answeredBy (answerAt answer false)⟩ := by
  rw [auditOf, auditStarted, Dialogue.answeredBy, answerAt]
  cases answer (.runs repository runLimit) with
  | ok records => rw [Dialogue.answeredBy_bind]; rfl
  | error e => rw [Dialogue.answeredBy_bind]; rfl

theorem files_auditOf (answer : (c : Call) → c.Answer) (engine : Engine) (runLimit : Nat)
    (repository : String) : (auditOf answer engine runLimit repository).files =
      (auditFiles engine repository).answeredBy (answerAt answer false) := by
  rw [auditOf_eq]
  split <;> rfl

theorem repository_of_mem_records (hown : ListsOwnRuns answer) {r : Runs.Record}
    (h : r ∈ (auditOf answer engine runLimit repository).records) : r.repository = repository := by
  rw [auditOf_eq] at h
  split at h
  case h_1 records hrecords => exact hown _ _ _ hrecords r h
  case h_2 => cases h

theorem repository_of_mem_findings {row : Lint.FindingRow}
    (h : row ∈ (auditOf answer engine runLimit repository).files.findings) :
    row.repository = repository := by
  rw [files_auditOf] at h
  exact (isOf_auditFiles ..).findings row h

theorem repository_of_mem_diagnostics {d : Diagnostic}
    (h : d ∈ (auditOf answer engine runLimit repository).runHistory ++
      (auditOf answer engine runLimit repository).files.diagnostics) :
    d.repository = repository := by
  rcases List.mem_append.mp h with h | h
  · rw [auditOf_eq] at h
    split at h
    · cases h
    · rw [List.mem_singleton.mp h]
  · rw [files_auditOf] at h
    exact (isOf_auditFiles ..).diagnostics d h

theorem auditOf_congr (h : ∀ c : Call, c.IsAbout repository → answer c = answer' c) :
    auditOf answer engine runLimit repository = auditOf answer' engine runLimit repository := by
  refine (auditStarted_asksOnly_about engine runLimit repository).answeredBy_congr ?_
  intro q hq
  cases q with
  | call c => exact h c hq
  | cancelled => cases hq

theorem auditOf_congr_of_ne (hagree : ∀ c : Call, ¬c.IsAbout repository → answer c = answer' c)
    {r : String} (hr : r ≠ repository) :
    auditOf answer engine runLimit r = auditOf answer' engine runLimit r :=
  auditOf_congr fun c hc => hagree c fun habout => hr (hc.unique habout)

theorem files_auditOf_congr
    (h : ∀ c : Call, (∀ r limit, c ≠ .runs r limit) → answer c = answer' c) :
    (auditOf answer engine runLimit repository).files =
      (auditOf answer' engine runLimit repository).files := by
  rw [files_auditOf, files_auditOf]
  refine (auditFiles_asksOnly_files engine repository).answeredBy_congr ?_
  rintro _ (rfl | ⟨file, rfl⟩)
  · exact h _ fun _ _ => nofun
  · exact h _ fun _ _ => nofun

end

/-! ### Many repositories -/

theorem filter_flatMap_of_owner {α : Type} {owner : α → String} {parts : String → List α}
    (h : ∀ r, ∀ a ∈ parts r, owner a = r) (keep : String → Bool) (l : List String) :
    (l.flatMap parts).filter (fun a => keep (owner a)) = (l.filter keep).flatMap parts := by
  induction l with
  | nil => rfl
  | cons r l ih =>
    have hparts : (parts r).filter (fun a => keep (owner a)) = if keep r then parts r else [] := by
      split
      · rename_i hkeep
        exact List.filter_eq_self.mpr fun a ha => h r a ha ▸ hkeep
      · rename_i hkeep
        exact List.filter_eq_nil_iff.mpr fun a ha => h r a ha ▸ hkeep
    rw [List.flatMap_cons, List.filter_append, ih, hparts, List.filter_cons]
    split <;> rfl

namespace FileResults

theorem join_append (l l' : List FileResults) : join (l ++ l') = (join l).append (join l') := by
  induction l with
  | nil => simp [join, append, none]
  | cons r l ih =>
    change r.append (join (l ++ l')) = (r.append (join l)).append (join l')
    rw [ih]
    simp only [append, List.append_assoc, Nat.add_assoc]

end FileResults

namespace Outcome

theorem coverageOf_append (l l' : List (Option RepositoryAudit)) :
    coverageOf (l ++ l') false = (coverageOf l false).add (coverageOf l' false) := by
  simp [coverageOf, Coverage.add, Coverage.none, FileResults.join_append, FileResults.append]

/-- The outcomes tell the same of all other repositories. -/
structure AgreesElsewhere (repository : String) (o o' : Outcome) : Prop where
  records : o.records.filter (·.repository ≠ repository) =
    o'.records.filter (·.repository ≠ repository)
  stats : o.stats.filter (·.repository ≠ repository) = o'.stats.filter (·.repository ≠ repository)
  findings : o.findings.filter (·.repository ≠ repository) =
    o'.findings.filter (·.repository ≠ repository)
  diagnostics : o.diagnostics.filter (·.repository ≠ repository) =
    o'.diagnostics.filter (·.repository ≠ repository)

end Outcome

/-- What is covered if only some repositories are audited, and none is cancelled. -/
def coverageAlone (answer : (c : Call) → c.Answer) (engine : Engine) (runLimit : Nat)
    (repositories : List String) : Coverage :=
  Outcome.coverageOf (repositories.map fun r => some (auditOf answer engine runLimit r)) false

theorem coverageAlone_cons (answer : (c : Call) → c.Answer) (engine : Engine) (runLimit : Nat)
    (repository : String) (repositories : List String) :
    coverageAlone answer engine runLimit (repository :: repositories) =
      (coverageAlone answer engine runLimit [repository]).add
        (coverageAlone answer engine runLimit repositories) :=
  Outcome.coverageOf_append [some (auditOf answer engine runLimit repository)] _

theorem coverageAlone_eq_add (answer : (c : Call) → c.Answer) (engine : Engine) (runLimit : Nat)
    {repositories : List String} {repository : String} (hmem : repository ∈ repositories) :
    coverageAlone answer engine runLimit repositories =
      (coverageAlone answer engine runLimit (repositories.erase repository)).add
        (coverageAlone answer engine runLimit [repository]) := by
  induction repositories with
  | nil => cases hmem
  | cons r repositories ih =>
    by_cases hr : r = repository
    · rw [hr, List.erase_cons_head, coverageAlone_cons, Coverage.add_comm]
    · have hrest := (List.mem_cons.mp hmem).resolve_left (Ne.symm hr)
      rw [List.erase_cons_tail (by simpa using hr), coverageAlone_cons, ih hrest,
        coverageAlone_cons _ _ _ r (repositories.erase repository), Coverage.add_assoc]

section

variable {answer answer' : (c : Call) → c.Answer} {engine : Engine} {settings : Settings}
variable {repositories : List String} {repository : String} {now start : Time.Instant}

theorem sequentialOutcome_of_none (h : now.minusDays? settings.windowDays = none) :
    sequentialOutcome answer engine settings repositories now = .error .outOfRange := by
  rw [sequentialOutcome_eq]
  rcases Outcome.ofAudits_cases engine settings.windowDays now false
    (repositories.map fun r => some (auditOf answer engine settings.runLimit r)) with
    ⟨-, herror⟩ | ⟨o, -, -, hstats, -⟩
  · exact herror
  · rw [Runs.aggregate, h] at hstats
    cases hstats

theorem exists_sequentialOutcome (h : now.minusDays? settings.windowDays = some start)
    (answer : (c : Call) → c.Answer) (engine : Engine) (repositories : List String) :
    ∃ o, sequentialOutcome answer engine settings repositories now = .ok o ∧
      o.records =
        repositories.flatMap (fun r => (auditOf answer engine settings.runLimit r).records) ∧
      Runs.aggregate o.records settings.windowDays now = .ok o.stats ∧
      o.findings =
        repositories.flatMap (fun r => (auditOf answer engine settings.runLimit r).files.findings) ∧
      o.diagnostics = repositories.flatMap (fun r =>
        (auditOf answer engine settings.runLimit r).runHistory ++
          (auditOf answer engine settings.runLimit r).files.diagnostics) ∧
      o.coverage = coverageAlone answer engine settings.runLimit repositories := by
  rw [sequentialOutcome_eq]
  have hstarted : (repositories.map fun r =>
      some (auditOf answer engine settings.runLimit r)).filterMap id =
      repositories.map (auditOf answer engine settings.runLimit) := by
    simp [List.filterMap_map]
  rcases Outcome.ofAudits_cases engine settings.windowDays now false
    (repositories.map fun r => some (auditOf answer engine settings.runLimit r)) with
    ⟨hnone, -⟩ | houtcome
  · rw [hnone] at h
    cases h
  · simpa only [hstarted, List.flatMap_map, coverageAlone] using houtcome

theorem filter_flatMap_auditOf {α : Type} {owner : α → String} (parts : RepositoryAudit → List α)
    (hparts : ∀ r, ∀ a ∈ parts (auditOf answer engine settings.runLimit r), owner a = r)
    (hparts' : ∀ r, ∀ a ∈ parts (auditOf answer' engine settings.runLimit r), owner a = r)
    (hagree : ∀ c : Call, ¬c.IsAbout repository → answer c = answer' c) :
    (repositories.flatMap fun r => parts (auditOf answer engine settings.runLimit r)).filter
        (owner · ≠ repository) =
      (repositories.flatMap fun r => parts (auditOf answer' engine settings.runLimit r)).filter
        (owner · ≠ repository) := by
  rw [filter_flatMap_of_owner hparts fun r => r ≠ repository,
    filter_flatMap_of_owner hparts' fun r => r ≠ repository]
  refine List.flatMap_congr fun r hr => ?_
  have hne : r ≠ repository := of_decide_eq_true (List.mem_filter.mp hr).2
  rw [auditOf_congr_of_ne hagree hne]

theorem sequentialOutcome_agreesElsewhere (hstart : now.minusDays? settings.windowDays = some start)
    (hnodup : repositories.Nodup) (hmem : repository ∈ repositories)
    (hagree : ∀ c : Call, ¬c.IsAbout repository → answer c = answer' c)
    (hown : ListsOwnRuns answer) (hown' : ListsOwnRuns answer') {o o' : Outcome}
    (ho : sequentialOutcome answer engine settings repositories now = .ok o)
    (ho' : sequentialOutcome answer' engine settings repositories now = .ok o') :
    o.AgreesElsewhere repository o' ∧
      o.coverage =
        (coverageAlone answer engine settings.runLimit (repositories.erase repository)).add
          (coverageAlone answer engine settings.runLimit [repository]) ∧
      o'.coverage =
        (coverageAlone answer engine settings.runLimit (repositories.erase repository)).add
          (coverageAlone answer' engine settings.runLimit [repository]) := by
  obtain ⟨_, h, hrecords, hstats, hfindings, hdiagnostics, hcoverage⟩ :=
    exists_sequentialOutcome hstart answer engine repositories
  obtain rfl := Except.ok.inj (ho.symm.trans h)
  obtain ⟨_, h', hrecords', hstats', hfindings', hdiagnostics', hcoverage'⟩ :=
    exists_sequentialOutcome hstart answer' engine repositories
  obtain rfl := Except.ok.inj (ho'.symm.trans h')
  have hsame : o.records.filter (·.repository ≠ repository) =
      o'.records.filter (·.repository ≠ repository) := by
    rw [hrecords, hrecords']
    exact filter_flatMap_auditOf (·.records) (fun _ _ => repository_of_mem_records hown)
      (fun _ _ => repository_of_mem_records hown') hagree
  refine ⟨⟨hsame, ?_, ?_, ?_⟩, ?_, ?_⟩
  · have hfiltered := Runs.aggregate_filter (fun r => decide (r ≠ repository)) hstats
    rw [hsame, Runs.aggregate_filter (fun r => decide (r ≠ repository)) hstats'] at hfiltered
    exact (Except.ok.inj hfiltered).symm
  · rw [hfindings, hfindings']
    exact filter_flatMap_auditOf (·.files.findings)
      (fun _ _ => repository_of_mem_findings) (fun _ _ => repository_of_mem_findings) hagree
  · rw [hdiagnostics, hdiagnostics']
    exact filter_flatMap_auditOf (fun a => a.runHistory ++ a.files.diagnostics)
      (fun _ _ => repository_of_mem_diagnostics) (fun _ _ => repository_of_mem_diagnostics) hagree
  · rw [hcoverage]
    exact coverageAlone_eq_add _ _ _ hmem
  · rw [hcoverage', coverageAlone_eq_add _ _ _ hmem]
    have hothers : (repositories.erase repository).map
          (fun r => some (auditOf answer' engine settings.runLimit r)) =
        (repositories.erase repository).map
          fun r => some (auditOf answer engine settings.runLimit r) := by
      refine List.map_congr_left fun r hr => ?_
      have hne : r ≠ repository := (hnodup.mem_erase_iff.mp hr).1
      rw [auditOf_congr_of_ne hagree hne]
    rw [coverageAlone, hothers]
    rfl

theorem sequentialOutcome_files (hstart : now.minusDays? settings.windowDays = some start)
    (h : ∀ c : Call, (∀ r limit, c ≠ .runs r limit) → answer c = answer' c) {o o' : Outcome}
    (ho : sequentialOutcome answer engine settings repositories now = .ok o)
    (ho' : sequentialOutcome answer' engine settings repositories now = .ok o') :
    o.findings = o'.findings ∧ o.coverage.filesAnalyzed = o'.coverage.filesAnalyzed ∧
      o.coverage.filesSkipped = o'.coverage.filesSkipped ∧
      o.coverage.degradedDocuments = o'.coverage.degradedDocuments ∧
      o.coverage.ruleFailures = o'.coverage.ruleFailures := by
  obtain ⟨_, hok, -, -, hfindings, -, hcoverage⟩ :=
    exists_sequentialOutcome hstart answer engine repositories
  obtain rfl := Except.ok.inj (ho.symm.trans hok)
  obtain ⟨_, hok', -, -, hfindings', -, hcoverage'⟩ :=
    exists_sequentialOutcome hstart answer' engine repositories
  obtain rfl := Except.ok.inj (ho'.symm.trans hok')
  have hfiles (r : String) : (auditOf answer engine settings.runLimit r).files =
      (auditOf answer' engine settings.runLimit r).files := files_auditOf_congr h
  have hjoin : FileResults.join (((repositories.map fun r =>
        some (auditOf answer engine settings.runLimit r)).filterMap id).map (·.files)) =
      FileResults.join (((repositories.map fun r =>
        some (auditOf answer' engine settings.runLimit r)).filterMap id).map (·.files)) := by
    simp [List.filterMap_map, Function.comp_def, hfiles]
  rw [hfindings, hfindings', hcoverage, hcoverage']
  simp only [hfiles, coverageAlone, Outcome.coverageOf, hjoin, and_self]

end

/-! ### Pools -/

/-- Two audits without a cancellation, each by a pool, whose answers differ about one repository:
they tell the same of the others, and their coverage differs by the part of that repository. If only
the runs of that repository are answered differently, findings and files are the same. -/
theorem undisturbed_elsewhere {answer answer' : (c : Call) → c.Answer} {engine : Engine}
    {settings : Settings} {repositories : List String} {repository : String} {now : Time.Instant}
    {events events' : List Pool.Event} {p p' : Pool}
    {result result' : Except Runs.WindowError Outcome}
    (hnodup : repositories.Nodup) (hmem : repository ∈ repositories)
    (hagree : ∀ c : Call, ¬c.IsAbout repository → answer c = answer' c)
    (hown : ListsOwnRuns answer) (hown' : ListsOwnRuns answer')
    (hrun : Pool.Run answer engine settings (.start repositories) events p)
    (hcancel : .cancel ∉ events) (hresult : p.outcome? engine settings now = some result)
    (hrun' : Pool.Run answer' engine settings (.start repositories) events' p')
    (hcancel' : .cancel ∉ events') (hresult' : p'.outcome? engine settings now = some result') :
    (now.minusDays? settings.windowDays = none ∧ result = .error .outOfRange ∧
      result' = .error .outOfRange) ∨
    ∃ o o', result = .ok o ∧ result' = .ok o' ∧ o.AgreesElsewhere repository o' ∧
      o.coverage =
        (coverageAlone answer engine settings.runLimit (repositories.erase repository)).add
          (coverageAlone answer engine settings.runLimit [repository]) ∧
      o'.coverage =
        (coverageAlone answer engine settings.runLimit (repositories.erase repository)).add
          (coverageAlone answer' engine settings.runLimit [repository]) ∧
      ((∀ c, (∀ limit, c ≠ .runs repository limit) → answer c = answer' c) →
        o.findings = o'.findings ∧ o.coverage.filesAnalyzed = o'.coverage.filesAnalyzed ∧
          o.coverage.filesSkipped = o'.coverage.filesSkipped ∧
          o.coverage.degradedDocuments = o'.coverage.degradedDocuments ∧
          o.coverage.ruleFailures = o'.coverage.ruleFailures) := by
  obtain rfl := Pool.outcome_of_not_cancelled hrun hresult hcancel settings.concurrency
  obtain rfl := Pool.outcome_of_not_cancelled hrun' hresult' hcancel' settings.concurrency
  cases hstart : now.minusDays? settings.windowDays with
  | none => exact .inl ⟨rfl, sequentialOutcome_of_none hstart, sequentialOutcome_of_none hstart⟩
  | some start =>
    obtain ⟨o, ho, -⟩ := exists_sequentialOutcome hstart answer engine repositories
    obtain ⟨o', ho', -⟩ := exists_sequentialOutcome hstart answer' engine repositories
    obtain ⟨helsewhere, hcoverage, hcoverage'⟩ :=
      sequentialOutcome_agreesElsewhere hstart hnodup hmem hagree hown hown' ho ho'
    refine .inr ⟨o, o', ho, ho', helsewhere, hcoverage, hcoverage', fun hruns => ?_⟩
    exact sequentialOutcome_files hstart (fun c hc => hruns c (hc repository)) ho ho'

def upUnless {α : Type} (isDown : Bool) (a : α) : Except Hosting.FetchError α :=
  if isDown then .error (.other "down") else .ok a

def sampleService (down : List String) : (c : Call) → c.Answer
  | .repositories _ => .ok []
  | .runs r _ => upUnless (r ∈ down) [⟨r, "CI", ⟨0, 0⟩, .completed, some .success, "push"⟩]
  | .files r => upUnless (r ∈ down) []
  | .definition _ _ => .ok none

theorem listsOwnRuns_sampleService (down : List String) : ListsOwnRuns (sampleService down) := by
  intro repository limit records h r hr
  change upUnless _ _ = _ at h
  rw [upUnless] at h
  split at h
  · cases h
  · obtain rfl := Except.ok.inj h
    rw [List.mem_singleton.mp hr]

theorem undisturbed_elsewhere_sampleService :
    ∃ events events' p p' o o',
      Pool.Run (sampleService []) .builtin .standard (.start ["acme/web", "acme/docs"]) events p ∧
      Pool.Run (sampleService ["acme/docs"]) .builtin .standard (.start ["acme/web", "acme/docs"])
        events' p' ∧
      p.outcome? .builtin .standard ⟨86400, 0⟩ = some (.ok o) ∧
      p'.outcome? .builtin .standard ⟨86400, 0⟩ = some (.ok o') ∧
      o.AgreesElsewhere "acme/docs" o' := by
  have hagree : ∀ c : Call, ¬c.IsAbout "acme/docs" →
      sampleService [] c = sampleService ["acme/docs"] c := by
    intro c hc
    cases c with
    | repositories owner | definition r file => rfl
    | runs r limit | files r =>
      have hr : r ∉ ["acme/docs"] := fun h => hc (List.mem_singleton.mp h)
      exact congrArg (upUnless · _) (decide_eq_false hr).symm
  have hstart (down : List String) : Pool.Run (sampleService down) .builtin .standard
      (.start ["acme/web", "acme/docs"]) [] (.start ["acme/web", "acme/docs"]) := .here
  obtain ⟨events, p, hrun, hcancel, hdone⟩ := (hstart []).exists_isDone
  obtain ⟨events', p', hrun', hcancel', hdone'⟩ := (hstart ["acme/docs"]).exists_isDone
  have hresult : p.outcome? .builtin .standard ⟨86400, 0⟩ = some _ := if_pos hdone
  have hresult' : p'.outcome? .builtin .standard ⟨86400, 0⟩ = some _ := if_pos hdone'
  rcases undisturbed_elsewhere (by decide) (by decide) hagree (listsOwnRuns_sampleService _)
    (listsOwnRuns_sampleService _) hrun hcancel hresult hrun' hcancel' hresult' with
    ⟨hnone, -⟩ | ⟨o, o', ho, ho', helsewhere, -⟩
  · exact absurd hnone (by decide)
  · exact ⟨events, events', p, p', o, o', hrun, hrun', ho ▸ hresult, ho' ▸ hresult', helsewhere⟩

end WorkflowAudit.Audit
