import WorkflowAudit.Proofs.Audit.CoverageLaws
import WorkflowAudit.Proofs.Audit.PoolOutcome

namespace WorkflowAudit.Audit

open Config (Settings)
open Hosting (Call)
open Lint (Engine)

namespace Outcome

/-- What an outcome says it covered agrees with its diagnostics, and with what was asked of the
hosting service and answered: for the owners in `calls`, then for the repositories in `log`. -/
structure Accounts (owners repositories : List String) (calls : List ((c : Call) × c.Answer))
    (log : Log) (o : Outcome) : Prop where
  ownersRequested : o.coverage.ownersRequested = owners.length
  ownersSkipped : o.coverage.ownersSkipped = (failedOwners calls).length
  repositoryListing : o.coverage.ownersSkipped = Kind.count .repositoryListing o.diagnostics
  repositoriesRequested : o.coverage.repositoriesRequested = repositories.length
  repositories : o.coverage.repositoriesRequested = o.coverage.repositoriesAudited +
    o.coverage.repositoriesSkipped + o.coverage.repositoriesCancelled
  repositoriesSkipped : o.coverage.repositoriesSkipped = Kind.count .runHistory o.diagnostics
  filesSkipped : o.coverage.filesSkipped =
    Kind.count .fileListing o.diagnostics + Kind.count .fileContent o.diagnostics
  degradedDocuments : o.coverage.degradedDocuments = Kind.count .parse o.diagnostics
  ruleFailures : o.coverage.ruleFailures = Kind.count .rule o.diagnostics
  filesAnalyzed : o.coverage.filesAnalyzed = (analyzedFiles log).length
  filesListed : o.coverage.filesAnalyzed + Kind.count .fileContent o.diagnostics =
    (listedFiles log).length
  findings : ∀ row ∈ o.findings, (row.repository, row.finding.file) ∈ analyzedFiles log

end Outcome

theorem length_eq_started (audits : List (Option RepositoryAudit)) :
    audits.length = (audits.filterMap id).countP (·.runHistory.isEmpty) +
      (audits.filterMap id).countP (!·.runHistory.isEmpty) + audits.countP Option.isNone := by
  induction audits with
  | nil => rfl
  | cons audit audits ih =>
    cases audit with
    | none => simp [ih, Nat.add_assoc]
    | some a =>
      simp only [List.length_cons, ih, List.filterMap_cons, id_eq, List.countP_cons]
      cases a.runHistory.isEmpty <;> simp <;> omega

namespace Outcome

variable {engine : Engine} {settings : Settings} {now : Time.Instant}
variable {owners named repositories : List String} {calls : List ((c : Call) × c.Answer)}
variable {listing : List Diagnostic} {log : Log} {result : Except Runs.WindowError Outcome}

theorem accounts_recordOwnerListing
    (hresolve : (resolve owners named).Transcript calls (repositories, listing))
    (hrun : (run engine settings repositories now).Transcript log result) :
    (now.minusDays? settings.windowDays = none ∧ result = .error .outOfRange) ∨
      ∃ o, result = .ok o ∧
        (o.recordOwnerListing owners.length listing).Accounts owners repositories calls log := by
  obtain ⟨hkind, hlisting⟩ := listing_of_transcript hresolve
  have hlisted (k : Kind) : k.count listing =
      if .repositoryListing = k then (failedOwners calls).length else 0 :=
    hlisting ▸ Kind.count_of_forall hkind
  obtain ⟨audits, cancelled, haccounts, hlength, rfl⟩ := accounts_run hrun
  refine (ofAudits_cases engine settings.windowDays now cancelled audits).imp id ?_
  rintro ⟨⟨_, _, findings, diagnostics, coverage, _⟩, ho, -, -, hfindings, hdiagnostics, hcoverage⟩
  obtain rfl : findings = _ := hfindings
  obtain rfl : diagnostics = _ := hdiagnostics
  obtain rfl : coverage = _ := hcoverage
  have hcounts (k : Kind) :
      k.count (listing ++ (audits.filterMap id).flatMap fun a =>
          a.runHistory ++ a.files.diagnostics) =
        (if .repositoryListing = k then (failedOwners calls).length else 0) +
          ((if .runHistory = k then (audits.filterMap id).countP (!·.runHistory.isEmpty) else 0) +
            k.count (FileResults.join ((audits.filterMap id).map (·.files))).diagnostics) := by
    rw [Kind.count_append, hlisted, haccounts.count]
  have hfiles := haccounts.files
  refine ⟨_, ho, ?_⟩
  constructor
  case ownersRequested => rfl
  case ownersSkipped => exact hlisted .repositoryListing
  case repositoryListing =>
    refine (hlisted .repositoryListing).trans ((hcounts .repositoryListing).trans ?_).symm
    rw [hfiles.repositoryListing]
    rfl
  case repositoriesRequested => exact hlength
  case repositories => exact length_eq_started audits
  case repositoriesSkipped =>
    refine ((hcounts .runHistory).trans ?_).symm
    rw [hfiles.runHistory]
    exact Nat.zero_add _
  case filesSkipped =>
    refine hfiles.skipped.trans (congrArg₂ (· + ·) ?_ ?_)
    · exact ((hcounts .fileListing).trans (by simp)).symm
    · exact ((hcounts .fileContent).trans (by simp)).symm
  case degradedDocuments => exact hfiles.degraded.trans ((hcounts .parse).trans (by simp)).symm
  case ruleFailures => exact hfiles.ruleFailures.trans ((hcounts .rule).trans (by simp)).symm
  case filesAnalyzed => exact hfiles.analyzed
  case filesListed =>
    rw [← haccounts.requested, ← hfiles.requested]
    exact congrArg _ ((hcounts .fileContent).trans (by simp))
  case findings =>
    intro row hrow
    refine hfiles.findings row ?_
    rw [FileResults.findings_join, List.flatMap_map]
    exact hrow

end Outcome

/-! ### Pools -/

def AnsweredBy (answer : (c : Call) → c.Answer) (e : (q : Query) × q.Answer) : Prop :=
  ∃ cancelled, e.2 = answerAt answer cancelled e.1

section

variable {answer : (c : Call) → c.Answer} {engine : Engine}

theorem exists_transcript_resultOf (runLimit : Nat) (sawCancelled : Bool) (repository : String) :
    ∃ log, (auditRepository engine runLimit repository).Transcript log
        (resultOf answer engine runLimit sawCancelled repository) ∧
      ∀ e ∈ log, AnsweredBy answer e := by
  rw [← answeredBy_advance_auditRepository answer engine runLimit sawCancelled repository]
  have hanswer (cancelled : Bool) (q : Query) :
      AnsweredBy answer ⟨q, answerAt answer cancelled q⟩ := ⟨cancelled, rfl⟩
  obtain ⟨log, hlog, hanswered⟩ :=
    Dialogue.Transcript.exists_answeredBy (hanswer false) (Dialogue.advance _ _)
  exact Dialogue.Transcript.exists_of_advance (hanswer sawCancelled) hlog hanswered

/-- What a pool comes to, an audit one after another can come to with the same answers, if it is
told that it is cancelled where the units of the pool were told so. -/
theorem Pool.Run.exists_transcript {settings : Settings} {repositories : List String}
    {now : Time.Instant} {events : List Event} {p : Pool} {result : Except Runs.WindowError Outcome}
    (hrun : Run answer engine settings (start repositories) events p)
    (hresult : p.outcome? engine settings now = some result) :
    ∃ log, (run engine settings repositories now).Transcript log result ∧
      ∀ e ∈ log, AnsweredBy answer e := by
  rw [outcome?] at hresult
  split at hresult
  case isFalse => cases hresult
  case isTrue hdone =>
    obtain rfl := Option.some.inj hresult
    have hunits : List.Forall₂ (fun repository audit =>
        ∃ log, (auditRepository engine settings.runLimit repository).Transcript log audit ∧
          ∀ e ∈ log, AnsweredBy answer e) repositories p.inPlace := by
      have hplaces := (Invariant.of_run hrun).inPlace_eq hdone
      rw [hplaces]
      conv => arg 2; rw [← List.zipIdx_map_fst 0 repositories]
      rw [List.forall₂_map_left_iff, List.forall₂_map_right_iff, List.forall₂_same]
      exact fun c _ => exists_transcript_resultOf _ _ _
    obtain ⟨log, hlog, hanswered⟩ := Dialogue.Transcript.exists_forEach hunits
    refine ⟨_, hlog.bind (.ask .done), List.forall_mem_append.mpr ⟨hanswered, ?_⟩⟩
    exact List.forall_mem_singleton.mpr ⟨_, rfl⟩

end

/-! ### Agreement -/

/-- Whatever is answered and whenever the audit is cancelled, one repository after another or in a
pool, the coverage of the outcome agrees with its diagnostics, its findings and the transcript. -/
theorem coverage_agrees {owners named repositories : List String}
    {calls : List ((c : Call) × c.Answer)} {listing : List Diagnostic}
    (hresolve : (resolve owners named).Transcript calls (repositories, listing)) (engine : Engine)
    (settings : Settings) (now : Time.Instant) :
    (∀ log result, (run engine settings repositories now).Transcript log result →
      (now.minusDays? settings.windowDays = none ∧ result = .error .outOfRange) ∨
      ∃ o, result = .ok o ∧
        (o.recordOwnerListing owners.length listing).Accounts owners repositories calls log) ∧
    ∀ answer events p result,
      Pool.Run answer engine settings (Pool.start repositories) events p →
      p.outcome? engine settings now = some result →
      ∃ log, (run engine settings repositories now).Transcript log result ∧
        ∀ e ∈ log, AnsweredBy answer e :=
  ⟨fun _ _ hrun => Outcome.accounts_recordOwnerListing hresolve hrun,
    fun _ _ _ _ hrun hresult => hrun.exists_transcript hresult⟩

def sampleCalls : List ((c : Call) × c.Answer) := [⟨.repositories "acme", .error (.other "down")⟩]

def sampleLog : Log :=
  [⟨.cancelled, false⟩, ⟨.call (.runs "acme/web" 100), .error (.other "down")⟩,
    ⟨.call (.files "acme/web"), .ok ["ci.yml", "README.md"]⟩,
    ⟨.call (.definition "acme/web" "ci.yml"), .ok (some "on: push")⟩, ⟨.cancelled, true⟩,
    ⟨.cancelled, true⟩]

theorem coverage_agrees_sampleLog :
    ∃ o, (resolve ["acme"] ["acme/web", "acme/docs"]).Transcript sampleCalls
        (["acme/web", "acme/docs"], [⟨"acme", none, .repositoryListing, "down"⟩]) ∧
      (run .builtin .standard ["acme/web", "acme/docs"] ⟨86400, 0⟩).Transcript sampleLog (.ok o) ∧
      (o.recordOwnerListing 1 [⟨"acme", none, .repositoryListing, "down"⟩]).Accounts ["acme"]
        ["acme/web", "acme/docs"] sampleCalls sampleLog ∧
      o.coverage.filesAnalyzed = 1 := by
  have hresolve : (resolve ["acme"] ["acme/web", "acme/docs"]).Transcript sampleCalls _ :=
    .ask .done
  have hrun : (run .builtin .standard ["acme/web", "acme/docs"] ⟨86400, 0⟩).Transcript sampleLog
      _ := .ask (.ask (.ask (.ask (.ask (.ask .done)))))
  obtain ⟨houtcome, -⟩ := coverage_agrees hresolve .builtin .standard ⟨86400, 0⟩
  rcases houtcome _ _ hrun with ⟨hnone, -⟩ | ⟨o, ho, haccounts⟩
  · exact absurd hnone (by decide)
  · exact ⟨o, hresolve, ho ▸ hrun, haccounts, haccounts.filesAnalyzed⟩

end WorkflowAudit.Audit
