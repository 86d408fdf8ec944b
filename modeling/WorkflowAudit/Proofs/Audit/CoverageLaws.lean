import WorkflowAudit.Audit.Run
import WorkflowAudit.Proofs.Audit.OutcomeLaws
import WorkflowAudit.Proofs.DialogueLaws
import WorkflowAudit.Proofs.Lint.EngineLaws

/-! What an audit covered. Whatever is answered and whenever the audit is cancelled, the counts of
an outcome, its diagnostics and its findings agree with each other and with the transcript of the
audit: what was asked of the hosting service, and what it answered. -/

namespace WorkflowAudit.Audit

open Hosting (Call)
open Lint (Engine FindingRow)
open Workflow (Document)

def Kind.count (k : Kind) (l : List Diagnostic) : Nat := l.countP (·.kind = k)

@[simp] theorem Kind.count_nil (k : Kind) : k.count [] = 0 := rfl

@[simp] theorem Kind.count_cons (k : Kind) (d : Diagnostic) (l : List Diagnostic) :
    k.count (d :: l) = k.count l + if d.kind = k then 1 else 0 := by
  simp [count, List.countP_cons]

@[simp] theorem Kind.count_append (k : Kind) (l r : List Diagnostic) :
    k.count (l ++ r) = k.count l + k.count r :=
  List.countP_append

theorem Kind.count_of_forall {k kind : Kind} {l : List Diagnostic} (h : ∀ d ∈ l, d.kind = kind) :
    k.count l = if kind = k then l.length else 0 := by
  induction l with
  | nil => simp
  | cons d l ih =>
    obtain ⟨hd, hl⟩ := List.forall_mem_cons.mp h
    rw [count_cons, ih hl, hd, List.length_cons]
    split <;> rfl

/-! ### Transcripts of audits -/

abbrev Log := List ((q : Query) × q.Answer)

def requestedFiles (log : Log) : List (String × String) := log.filterMap fun
  | ⟨.call (.definition repository file), _⟩ => some (repository, file)
  | _ => none

def analyzedFiles (log : Log) : List (String × String) := log.filterMap fun
  | ⟨.call (.definition repository file), .ok (some _)⟩ => some (repository, file)
  | _ => none

def listedFiles (log : Log) : List (String × String) := log.flatMap fun
  | ⟨.call (.files repository), .ok names⟩ =>
    (names.filter Hosting.isDefinitionFile).map fun name => (repository, name)
  | _ => []

def failedOwners (calls : List ((c : Call) × c.Answer)) : List String := calls.filterMap fun
  | ⟨.repositories owner, .error _⟩ => some owner
  | _ => none

@[simp] theorem requestedFiles_append (log more : Log) :
    requestedFiles (log ++ more) = requestedFiles log ++ requestedFiles more :=
  List.filterMap_append

@[simp] theorem analyzedFiles_append (log more : Log) :
    analyzedFiles (log ++ more) = analyzedFiles log ++ analyzedFiles more :=
  List.filterMap_append

@[simp] theorem listedFiles_append (log more : Log) :
    listedFiles (log ++ more) = listedFiles log ++ listedFiles more :=
  List.flatMap_append

section Transcripts

variable {engine : Engine} {runLimit : Nat} {repository : String} {log : Log}

theorem of_auditFiles {r : FileResults} (h : (auditFiles engine repository).Transcript log r) :
    (∃ e : Hosting.FetchError, log = [⟨.call (.files repository), .error e⟩] ∧
      r = .ofSkipped repository none .fileListing e.message) ∨
    ∃ names rest results, log = ⟨.call (.files repository), .ok names⟩ :: rest ∧
      (Dialogue.forEach (fun file => .ask (.call (.definition repository file)) fun answer =>
        .done (FileResults.ofFetched engine repository file answer))
        (names.filter Hosting.isDefinitionFile)).Transcript rest results ∧
      r = .join results := by
  obtain ⟨answer, rest, rfl, hanswered⟩ := h.of_ask
  match answer with
  | .error e =>
    obtain ⟨rfl, rfl⟩ := hanswered.of_done
    exact .inl ⟨e, rfl, rfl⟩
  | .ok names =>
    obtain ⟨log, last, results, rfl, hfiles, hjoin⟩ := hanswered.of_bind
    obtain ⟨rfl, rfl⟩ := hjoin.of_done
    rw [List.append_nil]
    exact .inr ⟨names, log, results, rfl, hfiles, rfl⟩

theorem of_auditStarted {a : RepositoryAudit}
    (h : (auditStarted engine runLimit repository).Transcript log a) :
    ∃ answer rest, log = ⟨.call (.runs repository runLimit), answer⟩ :: rest ∧
      (auditFiles engine repository).Transcript rest a.files ∧
      (a.runHistory = [] ∨ ∃ d : Diagnostic, d.kind = .runHistory ∧ a.runHistory = [d]) := by
  obtain ⟨answer, rest, rfl, hanswered⟩ := h.of_ask
  match answer with
  | .ok records =>
    obtain ⟨log, last, files, rfl, hfiles, hdone⟩ := hanswered.of_bind
    obtain ⟨rfl, rfl⟩ := hdone.of_done
    rw [List.append_nil]
    exact ⟨_, log, rfl, hfiles, .inl rfl⟩
  | .error e =>
    obtain ⟨log, last, files, rfl, hfiles, hdone⟩ := hanswered.of_bind
    obtain ⟨rfl, rfl⟩ := hdone.of_done
    rw [List.append_nil]
    exact ⟨_, log, rfl, hfiles, .inr ⟨_, rfl, rfl⟩⟩

theorem of_auditRepository {audit : Option RepositoryAudit}
    (h : (auditRepository engine runLimit repository).Transcript log audit) :
    log = [⟨.cancelled, true⟩] ∧ audit = none ∨
    ∃ rest a, log = ⟨.cancelled, false⟩ :: rest ∧ audit = some a ∧
      (auditStarted engine runLimit repository).Transcript rest a := by
  obtain ⟨sawCancelled, rest, rfl, hanswered⟩ := h.of_ask
  match sawCancelled with
  | true =>
    obtain ⟨rfl, rfl⟩ := hanswered.of_done
    exact .inl ⟨rfl, rfl⟩
  | false =>
    obtain ⟨log, last, a, rfl, hstarted, hdone⟩ := hanswered.of_bind
    obtain ⟨rfl, rfl⟩ := hdone.of_done
    rw [List.append_nil]
    exact .inr ⟨log, a, rfl, rfl, hstarted⟩

theorem of_run {settings : Config.Settings} {repositories : List String} {now : Time.Instant}
    {result : Except Runs.WindowError Outcome}
    (h : (run engine settings repositories now).Transcript log result) :
    ∃ rest audits cancelled, log = rest ++ [⟨.cancelled, cancelled⟩] ∧
      (Dialogue.forEach (auditRepository engine settings.runLimit) repositories).Transcript rest
        audits ∧
      result = Outcome.ofAudits engine settings.windowDays now cancelled audits := by
  obtain ⟨rest, last, audits, rfl, haudits, hend⟩ := h.of_bind
  obtain ⟨cancelled, last, rfl, hdone⟩ := hend.of_ask
  obtain ⟨rfl, rfl⟩ := hdone.of_done
  exact ⟨rest, audits, cancelled, rfl, haudits, rfl⟩

end Transcripts

/-! ### Files -/

/-- The results agree with a transcript: each count with the diagnostics of its kinds, and the files
with what was asked for and found. -/
structure FileResults.Accounts (log : Log) (r : FileResults) : Prop where
  analyzed : r.analyzed = (analyzedFiles log).length
  requested : r.analyzed + Kind.count .fileContent r.diagnostics = (requestedFiles log).length
  skipped : r.skipped =
    Kind.count .fileListing r.diagnostics + Kind.count .fileContent r.diagnostics
  degraded : r.degraded = Kind.count .parse r.diagnostics
  ruleFailures : r.ruleFailures = Kind.count .rule r.diagnostics
  runHistory : Kind.count .runHistory r.diagnostics = 0
  repositoryListing : Kind.count .repositoryListing r.diagnostics = 0
  findings : ∀ row ∈ r.findings, (row.repository, row.finding.file) ∈ analyzedFiles log

namespace FileResults.Accounts

variable {log more : Log} {r s : FileResults}

theorem none : Accounts [] .none := by
  constructor <;> simp [FileResults.none, analyzedFiles, requestedFiles]

theorem congr (h : Accounts log r) (hanalyzed : analyzedFiles more = analyzedFiles log)
    (hrequested : requestedFiles more = requestedFiles log) : Accounts more r where
  analyzed := hanalyzed ▸ h.analyzed
  requested := hrequested ▸ h.requested
  skipped := h.skipped
  degraded := h.degraded
  ruleFailures := h.ruleFailures
  runHistory := h.runHistory
  repositoryListing := h.repositoryListing
  findings := hanalyzed ▸ h.findings

theorem append (h : Accounts log r) (h' : Accounts more s) :
    Accounts (log ++ more) (r.append s) where
  analyzed := by simp [FileResults.append, h.analyzed, h'.analyzed]
  requested := by
    simp only [FileResults.append, Kind.count_append, requestedFiles_append, List.length_append,
      ← h.requested, ← h'.requested]
    omega
  skipped := by
    simp only [FileResults.append, Kind.count_append, h.skipped, h'.skipped]
    omega
  degraded := by simp [FileResults.append, h.degraded, h'.degraded]
  ruleFailures := by simp [FileResults.append, h.ruleFailures, h'.ruleFailures]
  runHistory := by simp [FileResults.append, h.runHistory, h'.runHistory]
  repositoryListing := by simp [FileResults.append, h.repositoryListing, h'.repositoryListing]
  findings := by
    intro row hrow
    rw [analyzedFiles_append]
    rcases List.mem_append.mp hrow with hrow | hrow
    · exact List.mem_append_left _ (h.findings row hrow)
    · exact List.mem_append_right _ (h'.findings row hrow)

end FileResults.Accounts

namespace FileResults

theorem count_ofDocument (k : Kind) (engine : Engine) (repository file : String) (d : Document) :
    k.count (ofDocument engine repository file d).diagnostics =
      (if .parse = k then (ofDocument engine repository file d).degraded else 0) +
        if .rule = k then (ofDocument engine repository file d).ruleFailures else 0 := by
  simp only [ofDocument, Kind.count_append]
  congr 1
  · cases d.degraded <;> simp
  · rw [@Kind.count_of_forall k .rule _ (by simp), List.length_map]

theorem accounts_ofDocument (engine : Engine) (repository file text : String) (d : Document) :
    (ofDocument engine repository file d).Accounts
      [⟨.call (.definition repository file), .ok (some text)⟩] where
  analyzed := rfl
  requested := by rw [count_ofDocument]; rfl
  skipped := by rw [count_ofDocument, count_ofDocument]; rfl
  degraded := by rw [count_ofDocument]; rfl
  ruleFailures := by simp [count_ofDocument]
  runHistory := by rw [count_ofDocument]; rfl
  repositoryListing := by rw [count_ofDocument]; rfl
  findings := by
    intro row hrow
    obtain ⟨f, hf, rfl⟩ := List.mem_map.mp hrow
    rw [Lint.Engine.file_of_mem_findings d file engine hf]
    exact List.mem_singleton_self _

theorem accounts_ofFetched (engine : Engine) (repository file : String)
    (answer : (Call.definition repository file).Answer) :
    (ofFetched engine repository file answer).Accounts
      [⟨.call (.definition repository file), answer⟩] := by
  match answer with
  | .ok (some text) => exact accounts_ofDocument ..
  | .ok Option.none | .error e =>
    constructor <;> first | rfl | exact fun _ hrow => nomatch hrow

end FileResults

theorem accounts_fetches {engine : Engine} {repository : String} {files : List String} {log : Log}
    {results : List FileResults}
    (h : (Dialogue.forEach (fun file => .ask (.call (.definition repository file)) fun answer =>
      .done (FileResults.ofFetched engine repository file answer)) files).Transcript log results) :
    (FileResults.join results).Accounts log ∧
      requestedFiles log = files.map (fun name => (repository, name)) ∧ listedFiles log = [] := by
  refine h.forEach_induction (motive := fun files log results =>
    (FileResults.join results).Accounts log ∧
      requestedFiles log = files.map (fun name => (repository, name)) ∧ listedFiles log = [])
    ⟨.none, rfl, rfl⟩ ?_
  rintro file files first rest r results hfile ⟨haccounts, hrequested, hlisted⟩
  obtain ⟨answer, _, rfl, hfetched⟩ := hfile.of_ask
  obtain ⟨rfl, rfl⟩ := hfetched.of_done
  refine ⟨(FileResults.accounts_ofFetched engine repository file answer).append haccounts, ?_, ?_⟩
  · rw [requestedFiles_append, hrequested]
    rfl
  · rw [listedFiles_append, hlisted]
    rfl

theorem accounts_auditFiles {engine : Engine} {repository : String} {log : Log} {r : FileResults}
    (h : (auditFiles engine repository).Transcript log r) :
    r.Accounts log ∧ requestedFiles log = listedFiles log := by
  rcases of_auditFiles h with ⟨e, rfl, rfl⟩ | ⟨names, rest, results, rfl, hfiles, rfl⟩
  · refine ⟨?_, rfl⟩
    constructor <;> first | rfl | exact fun _ hrow => nomatch hrow
  · obtain ⟨haccounts, hrequested, hlisted⟩ := accounts_fetches hfiles
    refine ⟨{ haccounts with }, hrequested.trans ?_⟩
    change _ = _ ++ listedFiles rest
    rw [hlisted, List.append_nil]

/-! ### Repositories -/

structure RepositoryAudit.Accounts (log : Log) (a : RepositoryAudit) : Prop where
  files : a.files.Accounts log
  requested : requestedFiles log = listedFiles log
  runHistory : a.runHistory = [] ∨ ∃ d : Diagnostic, d.kind = .runHistory ∧ a.runHistory = [d]

theorem accounts_auditStarted {engine : Engine} {runLimit : Nat} {repository : String} {log : Log}
    {a : RepositoryAudit} (h : (auditStarted engine runLimit repository).Transcript log a) :
    a.Accounts log := by
  obtain ⟨answer, rest, rfl, hfiles, hhistory⟩ := of_auditStarted h
  obtain ⟨haccounts, hrequested⟩ := accounts_auditFiles hfiles
  exact ⟨{ haccounts with }, hrequested, hhistory⟩

theorem accounts_auditRepository {engine : Engine} {runLimit : Nat} {repository : String}
    {log : Log} {audit : Option RepositoryAudit}
    (h : (auditRepository engine runLimit repository).Transcript log audit) :
    log = [⟨.cancelled, true⟩] ∧ audit = none ∨ ∃ a, audit = some a ∧ a.Accounts log := by
  refine (of_auditRepository h).imp id ?_
  rintro ⟨rest, a, rfl, rfl, hstarted⟩
  obtain ⟨hfiles, hrequested, hhistory⟩ := accounts_auditStarted hstarted
  exact ⟨a, rfl, { hfiles with }, hrequested, hhistory⟩

structure Accounts (log : Log) (started : List RepositoryAudit) : Prop where
  files : (FileResults.join (started.map (·.files))).Accounts log
  requested : requestedFiles log = listedFiles log
  runHistory : ∀ a ∈ started,
    a.runHistory = [] ∨ ∃ d : Diagnostic, d.kind = .runHistory ∧ a.runHistory = [d]

theorem accounts_audits {engine : Engine} {runLimit : Nat} {repositories : List String} {log : Log}
    {audits : List (Option RepositoryAudit)}
    (h : (Dialogue.forEach (auditRepository engine runLimit) repositories).Transcript log audits) :
    Accounts log (audits.filterMap id) ∧ audits.length = repositories.length := by
  refine h.forEach_induction (motive := fun repositories log audits =>
    Accounts log (audits.filterMap id) ∧ audits.length = repositories.length) ?_ ?_
  · exact ⟨⟨.none, rfl, fun _ h => nomatch h⟩, rfl⟩
  rintro repository repositories first rest audit audits haudit ⟨haccounts, hlength⟩
  refine ⟨?_, congrArg (· + 1) hlength⟩
  rcases accounts_auditRepository haudit with ⟨rfl, rfl⟩ | ⟨a, rfl, ha⟩
  · exact ⟨{ haccounts.files with }, haccounts.requested, haccounts.runHistory⟩
  · refine ⟨ha.files.append haccounts.files, ?_, ?_⟩
    · rw [requestedFiles_append, listedFiles_append, ha.requested, haccounts.requested]
    · exact List.forall_mem_cons.mpr ⟨ha.runHistory, haccounts.runHistory⟩

theorem Accounts.count {log : Log} {started : List RepositoryAudit} (h : Accounts log started)
    (k : Kind) :
    k.count (started.flatMap fun a => a.runHistory ++ a.files.diagnostics) =
      (if .runHistory = k then started.countP (!·.runHistory.isEmpty) else 0) +
        k.count (FileResults.join (started.map (·.files))).diagnostics := by
  rw [FileResults.diagnostics_join, List.flatMap_map]
  have hhistory := h.runHistory
  clear h
  induction started with
  | nil => simp
  | cons a started ih =>
    obtain ⟨ha, hstarted⟩ := List.forall_mem_cons.mp hhistory
    rw [List.flatMap_cons, List.flatMap_cons, List.countP_cons, Kind.count_append,
      Kind.count_append, Kind.count_append, ih hstarted]
    rcases ha with ha | ⟨d, hd, ha⟩
    · simp only [ha, Kind.count_nil, List.isEmpty_nil, Bool.not_true, Bool.false_eq_true, if_false,
        Nat.add_zero]
      omega
    · simp only [ha, Kind.count_cons, Kind.count_nil, hd, List.isEmpty_cons, Bool.not_false,
        if_true]
      split <;> omega

theorem accounts_run {engine : Engine} {settings : Config.Settings} {repositories : List String}
    {now : Time.Instant} {log : Log} {result : Except Runs.WindowError Outcome}
    (h : (run engine settings repositories now).Transcript log result) :
    ∃ audits cancelled, Accounts log (audits.filterMap id) ∧
      audits.length = repositories.length ∧
      result = Outcome.ofAudits engine settings.windowDays now cancelled audits := by
  obtain ⟨log, audits, cancelled, rfl, haudits, rfl⟩ := of_run h
  obtain ⟨haccounts, hlength⟩ := accounts_audits haudits
  have hrequested : requestedFiles (log ++ [⟨.cancelled, cancelled⟩]) = requestedFiles log := by
    rw [requestedFiles_append]
    exact List.append_nil _
  have hanalyzed : analyzedFiles (log ++ [⟨.cancelled, cancelled⟩]) = analyzedFiles log := by
    rw [analyzedFiles_append]
    exact List.append_nil _
  have hlisted : listedFiles (log ++ [⟨.cancelled, cancelled⟩]) = listedFiles log := by
    rw [listedFiles_append]
    exact List.append_nil _
  refine ⟨audits, cancelled, ⟨?_, ?_, haccounts.runHistory⟩, hlength, rfl⟩
  · exact haccounts.files.congr hanalyzed hrequested
  · rw [hrequested, hlisted, haccounts.requested]

/-! ### Owners -/

theorem listing_of_transcript {owners named : List String}
    {calls : List ((c : Call) × c.Answer)} {repositories : List String} {listing : List Diagnostic}
    (h : (resolve owners named).Transcript calls (repositories, listing)) :
    (∀ d ∈ listing, d.kind = .repositoryListing) ∧
      listing.length = (failedOwners calls).length := by
  obtain ⟨first, last, listings, rfl, hlistings, hdone⟩ := h.of_bind
  obtain ⟨rfl, hresult⟩ := hdone.of_done
  obtain ⟨rfl, rfl⟩ := Prod.mk.inj hresult
  rw [List.append_nil]
  refine hlistings.forEach_induction
    (motive := fun _ calls (listings : List (List String × List Diagnostic)) =>
      (∀ d ∈ listings.flatMap (·.2), d.kind = .repositoryListing) ∧
        (listings.flatMap (·.2)).length = (failedOwners calls).length)
    ⟨fun _ h => (nomatch h), rfl⟩ ?_
  rintro owner owners first rest listed listings hlisted ⟨hkind, hlength⟩
  obtain ⟨answer, _, rfl, hanswered⟩ := hlisted.of_ask
  match answer with
  | .ok names =>
    obtain ⟨rfl, rfl⟩ := hanswered.of_done
    exact ⟨hkind, hlength⟩
  | .error e =>
    obtain ⟨rfl, rfl⟩ := hanswered.of_done
    exact ⟨List.forall_mem_cons.mpr ⟨rfl, hkind⟩, congrArg (· + 1) hlength⟩

end WorkflowAudit.Audit
