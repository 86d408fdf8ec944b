import WorkflowAudit.Program.Run
import WorkflowAudit.Proofs.Config.SettingsLaws
import WorkflowAudit.Proofs.Program.ActionLaws

namespace WorkflowAudit.Program

open Config (Flags Settings Holds Stops discover_eq_ok_iff stops_iff)
open Program.Action (filesOf)

def AuditRequest.flags (r : AuditRequest) : Flags := ⟨r.days, r.limit, r.concurrency⟩

inductive Failure.IsOfSettings : Failure → Prop
  | settings (e : Config.Error) : IsOfSettings (.settings e)
  | changedSettings (e : Config.Error) : IsOfSettings (.changedSettings e)

def auditUnder (paint : Terminal.Paint) (r : AuditRequest) (settings : Settings) :
    Action String := do
  if r.asksNothing then throw .nothingToAudit
  let client ← .ofExcept .client r.client
  let (repositories, listing) ←
    .ofDialogue ((Audit.resolve r.owners r.repositories).through (Action.call client))
  if repositories.isEmpty then throw (.noRepositories listing)
  let run := Audit.run .builtin settings repositories (← Action.ofDialogue Action.now)
  let outcome ← .attempt .window (run.through (Action.query client))
  let outcome := outcome.recordOwnerListing r.owners.length listing
  if let some path := r.exportTo then exportTo path outcome
  return auditOutput paint settings r.format outcome

theorem audit_eq_bind (paint : Terminal.Paint) (config : Option String) (r : AuditRequest) :
    audit paint config r = settings config r >>= auditUnder paint r := rfl

section Settings

variable {world : (q : Question) → q.Answer} {config : Option String} {r : AuditRequest}
  {s : Settings}

theorem outcome_settings_eq_ok_iff : (settings config r).outcome world = .ok s ↔
    ∃ loaded, (Config.discover config).answeredBy (filesOf world) = .ok loaded ∧
      (r.flags.change loaded).validate = .ok s := by
  rw [settings, Action.outcome_bind, Action.outcome_attempt, Action.answeredBy_files]
  simp only [Action.outcome_ofExcept]
  cases (Config.discover config).answeredBy (filesOf world) with
  | error e => exact iff_of_false nofun nofun
  | ok loaded =>
    change (r.flags.change loaded).validate.mapError _ = .ok s ↔ _
    cases hvalidate : (r.flags.change loaded).validate <;> simp [Except.mapError, hvalidate]

theorem exists_settings_iff : (∃ s, (settings config r).outcome world = .ok s) ↔
    ¬Stops (filesOf world) config r.flags := by
  simp only [stops_iff, not_not, outcome_settings_eq_ok_iff, discover_eq_ok_iff,
    Settings.validate_eq_ok_iff]
  grind

theorem layered_of_settings (h : (settings config r).outcome world = .ok s) :
    ∃ t, Holds (filesOf world) config t ∧ s.Layered r.flags t ∧ s.InBounds := by
  obtain ⟨loaded, hloaded, hvalidate⟩ := outcome_settings_eq_ok_iff.mp h
  obtain ⟨t, ht, hlayered, -⟩ := discover_eq_ok_iff.mp hloaded
  obtain ⟨rfl, hbounds⟩ := Settings.validate_eq_ok_iff.mp hvalidate
  exact ⟨t, ht, hlayered.change, hbounds⟩

theorem isOfFiles_of_mem_questions_settings {q : Question}
    (h : q ∈ (settings config r).questions world) : q.IsOfFiles := by
  rw [settings, Action.questions_bind, Action.questions_attempt] at h
  rcases List.mem_append.mp h with hfile | hrest
  · exact Action.isOfFiles_of_mem_questions hfile
  · split at hrest
    · rw [Action.questions_ofExcept] at hrest
      cases hrest
    · cases hrest

theorem isOfSettings_of_settings : (settings config r).FailsOnly Failure.IsOfSettings :=
  (Action.FailsOnly.attempt .settings _).bind fun _ => .ofExcept .changedSettings _

theorem not_isOfSettings_exportTo (path : String) (o : Audit.Outcome) :
    (exportTo path o).FailsOnly (¬·.IsOfSettings) := by
  refine (Action.FailsOnly.attempt (fun _ => nofun) _).bind fun _ => ?_
  exact (Action.FailsOnly.attempt (fun _ => nofun) _).bind fun _ => .attempt (fun _ => nofun) _

theorem not_isOfSettings_auditUnder (paint : Terminal.Paint) :
    (auditUnder paint r s).FailsOnly (¬·.IsOfSettings) := by
  refine .guarded nofun ((Action.FailsOnly.ofExcept (fun _ => nofun) _).bind fun client => ?_)
  refine (Action.FailsOnly.ofDialogue _).bind fun (repositories, listing) => ?_
  refine .guarded nofun ((Action.FailsOnly.ofDialogue _).bind fun now => ?_)
  refine (Action.FailsOnly.attempt (fun _ => nofun) _).bind fun outcome => ?_
  cases r.exportTo with
  | none => exact .pure _
  | some path => exact (not_isOfSettings_exportTo path _).bind fun _ => .pure _

end Settings

/-- An audit fails for its settings exactly if there are none to go on with, and then it has asked
for files alone. If it goes on, it does so with settings that come from their layers and are within
bounds. -/
theorem audit_stops_or_goesOn (world : (q : Question) → q.Answer) (paint : Terminal.Paint)
    (config : Option String) (r : AuditRequest) :
    ((∃ e, e.IsOfSettings ∧ (audit paint config r).outcome world = .error e) ↔
      Stops (filesOf world) config r.flags) ∧
    (Stops (filesOf world) config r.flags →
      ∀ q ∈ (audit paint config r).questions world, q.IsOfFiles) ∧
    (¬Stops (filesOf world) config r.flags →
      ∃ t s, Holds (filesOf world) config t ∧ s.Layered r.flags t ∧ s.InBounds ∧
        (audit paint config r).outcome world = (auditUnder paint r s).outcome world ∧
        ∃ asked, (∀ q ∈ asked, q.IsOfFiles) ∧ (audit paint config r).questions world =
          asked ++ (auditUnder paint r s).questions world) := by
  rw [audit_eq_bind, Action.outcome_bind, Action.questions_bind]
  have hfiles : ∀ q ∈ (settings config r).questions world, q.IsOfFiles :=
    fun _ => isOfFiles_of_mem_questions_settings
  cases hs : (settings config r).outcome world with
  | error e =>
    have hstops : Stops (filesOf world) config r.flags := by
      by_contra hgoesOn
      obtain ⟨s, hok⟩ := exists_settings_iff.mpr hgoesOn
      cases hs.symm.trans hok
    refine ⟨iff_of_true ⟨e, isOfSettings_of_settings world e hs, rfl⟩ hstops, fun _ => ?_,
      absurd hstops⟩
    simpa using hfiles
  | ok s =>
    have hgoesOn : ¬Stops (filesOf world) config r.flags := exists_settings_iff.mp ⟨s, hs⟩
    obtain ⟨t, ht, hlayered, hbounds⟩ := layered_of_settings hs
    refine ⟨iff_of_false ?_ hgoesOn, fun hstops => absurd hstops hgoesOn,
      fun _ => ⟨t, s, ht, hlayered, hbounds, rfl, _, hfiles, rfl⟩⟩
    rintro ⟨e, he, hfails⟩
    exact not_isOfSettings_auditUnder paint world e hfails he

def settingsWorld (text : String) : (q : Question) → q.Answer
  | .files (.layout path) => if path = Config.standardPath then some .file else none
  | .files (.read path) => if path = Config.standardPath then .ok text else .error .notFound
  | .files (.makeDirectory _) => .error .denied
  | .files (.write _ _) => .error .denied
  | .request _ => none
  | .interrupted => false
  | .now => ⟨0, 0⟩

def sampleSettings : String := "window_days = 3\ntop_n = 4\n"

def weekRequest : AuditRequest := ⟨["acme"], [], none, none, some 7, none, none, .text, none⟩

theorem read_sampleSettings : Toml.read? sampleSettings =
    some [("window_days", .value (.integer 3)), ("top_n", .value (.integer 4))] := rfl

theorem audit_stops_or_goesOn_weekRequest :
    (Stops (filesOf (settingsWorld "")) (some "missing.toml") weekRequest.flags ∧
      ∀ q ∈ (audit .plain (some "missing.toml") weekRequest).questions (settingsWorld ""),
        q.IsOfFiles) ∧
    ¬Stops (filesOf (settingsWorld sampleSettings)) none weekRequest.flags ∧
    ∃ s : Settings, s.windowDays = 7 ∧ s.topN = 4 ∧ s.InBounds ∧
      (audit .plain none weekRequest).outcome (settingsWorld sampleSettings) =
        (auditUnder .plain weekRequest s).outcome (settingsWorld sampleSettings) := by
  have hstops : Stops (filesOf (settingsWorld "")) (some "missing.toml") weekRequest.flags :=
    .unreadable (.named "missing.toml")
  have hsettings : (settings none weekRequest).outcome (settingsWorld sampleSettings) =
      .ok { windowDays := 7, topN := 4 } := rfl
  have hgoesOn := exists_settings_iff.mp ⟨_, hsettings⟩
  refine ⟨⟨hstops, (audit_stops_or_goesOn _ .plain _ weekRequest).2.1 hstops⟩, hgoesOn, ?_⟩
  obtain ⟨t, s, ht, hlayered, hbounds, houtcome, -⟩ :=
    (audit_stops_or_goesOn (settingsWorld sampleSettings) .plain none weekRequest).2.2 hgoesOn
  obtain rfl := ht.unique (.file (.standard rfl) read_sampleSettings)
  have hdays : s.windowDays = 7 :=
    (hlayered.counts _ (.head _)).unique (.flag rfl)
  have htop : s.topN = 4 :=
    (hlayered.counts _ (.tail _ (.tail _ (.head _)))).unique
      (.file rfl rfl (.integer (by decide)))
  exact ⟨s, hdays, htop, hbounds, houtcome⟩

end WorkflowAudit.Program
