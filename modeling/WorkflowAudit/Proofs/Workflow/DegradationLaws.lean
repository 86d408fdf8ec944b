import WorkflowAudit.Proofs.Workflow.BlockLaws
import WorkflowAudit.Proofs.Workflow.DedentLaws
import WorkflowAudit.Proofs.Workflow.EntryLaws
import WorkflowAudit.Proofs.Yaml.VacantLaws

namespace WorkflowAudit.Workflow

open Yaml (Value Mapping)

/-- What is told of a text by what it is read as: nothing of a mapping, one issue of anything else,
and what belongs to a failure if it cannot be read. -/
inductive Tells (result : Except Yaml.Error Value) (notMapping : Issue)
    (Fails : List Issue → Prop) : List Issue → Prop
  | mapping {entries : Mapping} : result = .ok (.mapping entries) →
    Tells result notMapping Fails []
  | other {v : Value} : result = .ok v → (∀ entries, v ≠ .mapping entries) →
    Tells result notMapping Fails [notMapping]
  | failed {e : Yaml.Error} {issues : List Issue} : result = .error e → Fails issues →
    Tells result notMapping Fails issues

def TellsInOrder (Told : Block → List Issue → Prop) (found : List Block)
    (issues : List Issue) : Prop :=
  ∃ told, List.Forall₂ Told found told ∧ issues = told.flatten

def JobTells (read : Reader) (indent : Nat) (b : Block) : List Issue → Prop :=
  Tells (read (String.ofList (dedentedText indent b))) (.jobNotMapping b.key)
    (· = [.jobSkipped b.key])

inductive JobsTell (read : Reader) (text : List Char) : List Issue → Prop
  | none : jobIndent? text = none → JobsTell read text []
  | some {indent : Nat} {found : List Block} {issues : List Issue} :
    jobIndent? text = some indent → CutInto indent (sectionBody text) found →
    TellsInOrder (JobTells read indent) found issues → JobsTell read text issues

inductive SectionFails (read : Reader) (b : Block) : List Issue → Prop
  | skipped : b.key ≠ "jobs" → SectionFails read b [.sectionSkipped b.key]
  | jobs {issues : List Issue} : b.key = "jobs" → JobsTell read b.text issues →
    SectionFails read b (.jobsUnreadable :: issues)

def SectionTells (read : Reader) (b : Block) : List Issue → Prop :=
  Tells (read (String.ofList b.text)) (.sectionNotMapping b.key) (SectionFails read b)

def SectionsTell (read : Reader) (text : List Char) (issues : List Issue) : Prop :=
  ∃ found, CutInto 0 (Text.lines text) found ∧ TellsInOrder (SectionTells read) found issues

inductive SaidOfJobs : Option Value → List Issue → Prop
  | absent : SaidOfJobs none [.noJobs]
  | other {v : Value} : (∀ entries, v ≠ .mapping entries) → SaidOfJobs (some v) [.jobsNotMapping]
  | entries {entries : Mapping} {jobs : List Job} {issues : List Issue} :
    ReadInOrder entries jobs issues → SaidOfJobs (some (.mapping entries)) issues

inductive LosesJobs : Option Value → Prop
  | all {v : Value} : (∀ entries, v ≠ .mapping entries) → LosesJobs (some v)
  | entry {entries : Mapping} {e : Value × Value} {id : String} : e ∈ entries → LostEntry e id →
    LosesJobs (some (.mapping entries))

structure Document.TellsOf (d : Document) (issues : List Issue) : Prop where
  diagnostics_eq : d.diagnostics = issues.map Issue.message
  degraded_eq : d.degraded = issues.any Issue.isLoss

section Blocks

variable {read : Reader} {Told : Block → List Issue → Prop} {found : List Block}

theorem tellsInOrder_join {recover : Block → Recovered} (h : ∀ b, Told b (recover b).issues) :
    TellsInOrder Told found (Recovered.join (found.map recover)).issues := by
  refine ⟨found.map fun b => (recover b).issues, ?_, ?_⟩
  · apply List.forall₂_map_right_iff.mpr
    apply List.forall₂_same.mpr
    intro b _
    exact h b
  · rw [Recovered.issues_join, List.flatMap_map, List.flatMap_def]

theorem jobTells_recoverJob (read : Reader) (indent : Nat) (b : Block) :
    JobTells read indent b (recoverJob read indent b).issues := by
  rw [recoverJob_eq, JobTells]
  cases read (String.ofList (dedentedText indent b)) with
  | error e => exact .failed rfl rfl
  | ok value =>
    cases value with
    | mapping entries => exact .mapping rfl
    | null | bool | number | string | sequence | tagged => exact .other rfl (by simp)

theorem jobsTell_recoverJobs (read : Reader) (text : List Char) :
    JobsTell read text (recoverJobs read text).issues := by
  cases h : jobIndent? text with
  | none =>
    have hnone : (sectionBody text).find? isContentLine = none := Option.map_eq_none_iff.mp h
    simp only [recoverJobs, hnone]
    exact .none h
  | some indent =>
    rw [recoverJobs_of_jobIndent h]
    exact .some h (cutInto_blocks indent _) (tellsInOrder_join (jobTells_recoverJob read indent))

theorem sectionTells_recoverSection (read : Reader) (b : Block) :
    SectionTells read b (recoverSection read b).issues := by
  rw [recoverSection, SectionTells]
  cases read (String.ofList b.text) with
  | error e =>
    by_cases hkey : b.key = "jobs"
    · simp only [if_pos hkey]
      exact .failed rfl (.jobs hkey (jobsTell_recoverJobs read b.text))
    · simp only [if_neg hkey]
      exact .failed rfl (.skipped hkey)
  | ok value =>
    cases value with
    | mapping entries => exact .mapping rfl
    | null | bool | number | string | sequence | tagged => exact .other rfl (by simp)

theorem sectionsTell_recoverSections (read : Reader) (text : List Char) :
    SectionsTell read text (recoverSections read text).issues :=
  ⟨_, cutInto_blocks 0 _, tellsInOrder_join (sectionTells_recoverSection read)⟩

end Blocks

section Issues

variable {i : Issue} {issues : List Issue} {d : Document}

/-- The messages start with different letters. -/
theorem message_eq_message_noJobs_iff : i.message = Issue.noJobs.message ↔ i = .noJobs := by
  constructor
  · intro h
    have hhead : i.message.toList.head? = some 'N' := congrArg (·.toList.head?) h
    cases i with
    | noJobs => rfl
    | unreadable | jobsUnreadable | sectionNotMapping | sectionSkipped | jobSkipped
    | jobNotMapping =>
      simp [Issue.message, Issue.unreadableStart, Issue.jobsUnreadableStart, Issue.sectionStart,
        Issue.jobStart, String.toList_append] at hhead
    | rootNotMapping | jobsNotMapping => simp [Issue.message] at hhead
  · rintro rfl
    rfl

theorem isLoss_iff : i.isLoss ↔ i ≠ .noJobs := by
  rw [Issue.isLoss, decide_eq_true_eq]

theorem Document.TellsOf.degraded_iff (h : d.TellsOf issues) :
    d.degraded ↔ ∃ message ∈ d.diagnostics, message ≠ Issue.noJobs.message := by
  rw [h.degraded_eq, h.diagnostics_eq, List.any_eq_true]
  constructor
  · rintro ⟨i, hi, hloss⟩
    refine ⟨i.message, List.mem_map_of_mem hi, ?_⟩
    rw [Ne, message_eq_message_noJobs_iff]
    exact isLoss_iff.mp hloss
  · rintro ⟨message, hmessage, hne⟩
    obtain ⟨i, hi, rfl⟩ := List.mem_map.mp hmessage
    rw [Ne, message_eq_message_noJobs_iff] at hne
    exact ⟨i, hi, isLoss_iff.mpr hne⟩

theorem ReadInOrder.any_isLoss_iff {entries : Mapping} {jobs : List Job}
    (h : ReadInOrder entries jobs issues) :
    issues.any Issue.isLoss ↔ ∃ e ∈ entries, ∃ id, LostEntry e id := by
  induction h with
  | nil => simp
  | @job e id _ fields _ _ hkey hvalue _ ih =>
    have he : ∀ id, ¬LostEntry e id := fun _ he => he.value fields hvalue
    simp only [ih, List.exists_mem_cons_iff, he, exists_false, false_or]
  | @lost e id _ _ _ hlost _ ih =>
    simp only [List.any_cons, Issue.isLoss, ne_eq, reduceCtorEq, not_false_eq_true, decide_true,
      Bool.true_or, List.exists_mem_cons_iff, true_iff]
    exact .inl ⟨id, hlost⟩
  | @unnamed e _ _ _ hkey _ ih =>
    have he : ∀ id, ¬LostEntry e id := fun id he => by simpa [hkey] using he.key
    simp only [ih, List.exists_mem_cons_iff, he, exists_false, false_or]

theorem saidOfJobs_jobsOfYaml (jobs : Option Value) : SaidOfJobs jobs (jobsOfYaml jobs).2 := by
  cases jobs with
  | none => exact .absent
  | some v =>
    cases v with
    | mapping entries => exact .entries (readInOrder_jobsOfYaml entries)
    | null | bool | number | string | sequence | tagged => exact .other (by simp)

theorem SaidOfJobs.any_isLoss_iff {jobs : Option Value} (h : SaidOfJobs jobs issues) :
    issues.any Issue.isLoss ↔ LosesJobs jobs := by
  cases h with
  | absent =>
    refine iff_of_false Bool.false_ne_true ?_
    rintro ⟨⟩
  | other hother => exact iff_of_true rfl (.all hother)
  | entries hread =>
    rw [hread.any_isLoss_iff]
    constructor
    · rintro ⟨e, he, id, hlost⟩
      exact .entry he hlost
    · rintro (hother | ⟨he, hlost⟩)
      · exact absurd rfl (hother _)
      · exact ⟨_, he, _, hlost⟩

end Issues

section Documents

variable {root : Value} {m : Mapping} {text : String}

theorem tellsOf_ofYaml_mapping (earlier : List Issue) (h : root.asMapping? = some m) :
    ∃ later, SaidOfJobs (root.get? "jobs") later ∧
      (Document.ofYaml earlier root).TellsOf (earlier ++ later) := by
  refine ⟨_, saidOfJobs_jobsOfYaml _, ?_⟩
  rw [Document.ofYaml, h]
  exact ⟨rfl, rfl⟩

theorem tellsOf_ofYaml (earlier : List Issue) (root : Value) :
    ∃ issues, (Document.ofYaml earlier root).TellsOf issues := by
  cases h : root.asMapping? with
  | some m =>
    obtain ⟨later, -, hlater⟩ := tellsOf_ofYaml_mapping earlier h
    exact ⟨_, hlater⟩
  | none =>
    rw [Document.ofYaml, h]
    cases root.untagged <;> exact ⟨_, rfl, rfl⟩

theorem tellsOf_parse (text : String) : ∃ issues, (Document.parse text).TellsOf issues := by
  rw [Document.parse, Document.parseWith]
  split
  · exact tellsOf_ofYaml _ _
  · exact tellsOf_ofYaml _ _

theorem parse_of_null (h : Yaml.read text = .ok root) (hnull : root.untagged = .null) :
    Document.parse text = .empty := by
  have hmapping : root.asMapping? = none := by rw [Value.asMapping?, hnull]
  rw [Document.parse, Document.parseWith, h]
  simp only [Document.ofYaml, hmapping, hnull]
  rfl

/-- What a document tells of its reading. It is degraded exactly if there is more to tell than that
no jobs are found: if jobs are lost, or if the text cannot be read as a whole. In that case each
block that is lost is told of once, before anything that is said of the jobs found. -/
theorem parse_tellsLosses (text : String) :
    ((Document.parse text).degraded ↔ ∃ message ∈ (Document.parse text).diagnostics,
      message ≠ "No 'jobs' section found in workflow") ∧
    (∀ root m, Yaml.read text = .ok root → root.asMapping? = some m →
      ((Document.parse text).degraded ↔ LosesJobs (root.get? "jobs"))) ∧
    (∀ e, Yaml.read text = .error e → (Document.parse text).degraded ∧
      ∃ told later, SectionsTell Yaml.read text.toList told ∧
        SaidOfJobs ((Value.mapping (recoverSections Yaml.read text.toList).entries).get? "jobs")
          later ∧
        (Document.parse text).diagnostics =
          (.unreadable :: (told ++ later)).map Issue.message) ∧
    (∀ root, Yaml.read text = .ok root → root.untagged = .null →
      Document.parse text = .empty) ∧
    (Yaml.IsVacant text.toList → Document.parse text = .empty) := by
  refine ⟨?_, ?_, ?_, fun root => parse_of_null, fun h => ?_⟩
  · obtain ⟨issues, htells⟩ := tellsOf_parse text
    exact htells.degraded_iff
  · intro root m hread hroot
    obtain ⟨later, hlater, htells⟩ := tellsOf_ofYaml_mapping [] hroot
    rw [Document.parse, Document.parseWith, hread]
    simp only [htells.degraded_eq, List.nil_append]
    exact hlater.any_isLoss_iff
  · intro e hread
    let recovered := recoverSections Yaml.read text.toList
    have hroot : (Value.mapping recovered.entries).asMapping? = some recovered.entries := rfl
    obtain ⟨later, hlater, htells⟩ :=
      tellsOf_ofYaml_mapping (.unreadable :: recovered.issues) hroot
    rw [Document.parse, parseWith_of_error hread]
    refine ⟨htells.degraded_eq, recovered.issues, later, sectionsTell_recoverSections _ _, hlater,
      htells.diagnostics_eq⟩
  · exact parse_of_null (Yaml.read_of_isVacant h) rfl

def numberJobText : String := "jobs:\n  a: 1\n"

def failingText : String := "on: [\njobs:\n  a:\n    uses: b\n  c: [\n"

theorem parse_tellsLosses_sampleTexts :
    (Document.parse numberJobText).degraded ∧ (Document.parse failingText).degraded ∧
      Document.parse "~" = .empty ∧ Document.parse "# none\n" = .empty := by
  have hnumber : Yaml.read numberJobText =
      .ok (.mapping [(.string "jobs", .mapping [(.string "a", .number (.int 1))])]) :=
    Yaml.read_eq_of_readsExactly (by decide +kernel)
  have hfailing : Yaml.read failingText = .error .expectedEntry := by cbv
  have hnull : Yaml.read "~" = .ok .null := Yaml.read_eq_of_readsExactly (by decide +kernel)
  have hcomment : Yaml.IsVacantLine "# none".toList :=
    ⟨⟨[], "# none".toList, rfl, by simp, by simp⟩, by simp [Yaml.isBreak],
      by simp [Yaml.Token.isAllowed]⟩
  have hend : Yaml.IsVacantLine [] := ⟨⟨[], [], rfl, by simp, by simp⟩, by simp, by simp⟩
  obtain ⟨-, hwhole, -⟩ := parse_tellsLosses numberJobText
  obtain ⟨-, -, hparts, -⟩ := parse_tellsLosses failingText
  obtain ⟨-, -, -, hvoid, -⟩ := parse_tellsLosses "~"
  obtain ⟨-, -, -, -, hvacant⟩ := parse_tellsLosses "# none\n"
  have hlost : LostEntry (.string "a", .number (.int 1)) "a" := ⟨rfl, by simp⟩
  refine ⟨?_, (hparts _ hfailing).1, hvoid _ hnull rfl, hvacant (.line hcomment (.last hend))⟩
  exact (hwhole _ _ hnumber rfl).mpr (.entry (List.mem_singleton_self _) hlost)

end Documents

end WorkflowAudit.Workflow
