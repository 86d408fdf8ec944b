import WorkflowAudit.Proofs.KeyMapLaws
import WorkflowAudit.Proofs.OccurrenceLaws
import WorkflowAudit.Proofs.Text.DigitLaws
import WorkflowAudit.Proofs.Workflow.EntryLaws
import WorkflowAudit.Proofs.Workflow.RecoveryLaws

namespace WorkflowAudit.Workflow

open Yaml (Value Mapping)

def Event.ownNames : List String := ["push", "pull_request", "schedule", "workflow_dispatch"]

structure Trigger.WellFormed (t : Trigger) : Prop where
  event : ∀ name, t.event = .other name → name ∉ Event.ownNames
  crons : t.crons ≠ [] → t.event = .schedule

structure Matrix.WellFormed (m : Matrix) : Prop where
  dynamic : m.isDynamic → m.dimensions = .empty
  included : "include" ∉ m.dimensions.keys
  excluded : "exclude" ∉ m.dimensions.keys

structure Job.WellFormed (j : Job) : Prop where
  runsOn : j.runsOn.Nodup
  matrix : ∀ m, j.matrix = some m → m.WellFormed
  timeout : ∀ s, j.timeout = some (.expression s) → ∀ n, ¬Text.IsSpacedNumeral 64 s.toList n

inductive StepsInOrder : List Value → List Step → Prop
  | nil : StepsInOrder [] []
  | step {v : Value} {fields : Mapping} {items : List Value} {steps : List Step} :
    v.asMapping? = some fields → StepsInOrder items steps →
    StepsInOrder (v :: items) (.ofYaml v :: steps)
  | other {v : Value} {items : List Value} {steps : List Step} :
    v.asMapping? = none → StepsInOrder items steps → StepsInOrder (v :: items) steps

def stepItems (job : Value) : List Value := ((job.get? "steps").bind Value.asSequence?).getD []

structure Job.WrittenIn (j : Job) (e : Value × Value) : Prop where
  entry : JobEntry e
  name : e.1.scalar? = some j.id
  steps : StepsInOrder (stepItems e.2) j.steps

structure Document.WellFormed (d : Document) (root : Value) : Prop where
  triggers : ∀ t ∈ d.triggers, t.WellFormed
  jobs : ∀ j ∈ d.jobs, j.WellFormed
  written : ∃ kept : Mapping, kept.Sublist (jobEntries root) ∧
    List.Forall₂ (fun e j => j.WrittenIn e) kept d.jobs

/-- What a text is read as: its value, or a mapping of the sections that can be read. -/
def sourceOf (text : String) : Value :=
  match Yaml.read text with
  | .ok root => root
  | .error _ => .mapping (recoverSections Yaml.read text.toList).entries

section Triggers

variable {t : Trigger} {v : Value}

theorem Event.notMem_ownNames_of_ofName {s name : String} (h : ofName s = .other name) :
    name ∉ ownNames := by
  unfold ofName at h
  split_ifs at h with hpush hpull hschedule hdispatch
  obtain rfl : s = name := Event.other.inj h
  simp [ownNames, hpush, hpull, hschedule, hdispatch]

theorem Trigger.wellFormed_bare (name : String) : (bare (.ofName name)).WellFormed where
  event _ h := Event.notMem_ownNames_of_ofName h
  crons h := absurd rfl h

theorem Trigger.wellFormed_ofYaml (name : String) (v : Value) : (ofYaml name v).WellFormed where
  event _ h := Event.notMem_ownNames_of_ofName h
  crons h := by
    rw [ofYaml] at h ⊢
    by_contra hne
    exact h (if_neg hne)

theorem Trigger.wellFormed_of_mem (h : t ∈ listOfYaml v) : t.WellFormed := by
  cases v with
  | string name =>
    obtain rfl : t = bare (.ofName name) := List.mem_singleton.mp h
    exact wellFormed_bare name
  | sequence items =>
    obtain ⟨name, -, rfl⟩ := List.mem_map.mp h
    exact wellFormed_bare name
  | mapping entries =>
    obtain ⟨⟨key, value⟩, -, ht⟩ := List.mem_filterMap.mp h
    obtain ⟨name, -, rfl⟩ := Option.map_eq_some_iff.mp ht
    exact wellFormed_ofYaml name value
  | null | bool | number | tagged => cases h

end Triggers

section Jobs

variable {v : Value} {m : Matrix} {j : Job} {e : Value × Value}

theorem Timeout.not_isSpacedNumeral {s : String} (h : ofYaml? v = some (.expression s)) (n : Nat) :
    ¬Text.IsSpacedNumeral 64 s.toList n := by
  cases v with
  | string text =>
    rw [ofYaml?] at h
    cases hnumber : Text.natural? 64 (Text.trim text.toList) with
    | some minutes =>
      rw [hnumber] at h
      cases h
    | none =>
      rw [hnumber] at h
      obtain rfl : text = s := Timeout.expression.inj (Option.some.inj h)
      rw [← Text.natural?_trim_eq_some_iff, hnumber]
      exact (Option.some_ne_none n).symm
  | number k => cases k <;> cases h
  | null | bool | sequence | mapping | tagged => cases h

theorem Matrix.name_of_dimensionOfYaml? {key value : Value} {d : String × List String}
    (h : dimensionOfYaml? key value = some d) : d.1 ≠ "include" ∧ d.1 ≠ "exclude" := by
  obtain ⟨name, -, h⟩ := Option.bind_eq_some_iff.mp h
  obtain ⟨_, hname, h⟩ := Option.bind_eq_some_iff.mp h
  have hne : name ≠ "include" ∧ name ≠ "exclude" := by simpa [guard] using hname
  cases value with
  | sequence | string => exact Option.some.inj h ▸ hne
  | null | bool | number | mapping | tagged => cases h

theorem Matrix.name_of_mem_keys {entries : Mapping} {name : String}
    (h : name ∈ (KeyMap.ofList (entries.filterMap fun (k, v) => dimensionOfYaml? k v)).keys) :
    name ≠ "include" ∧ name ≠ "exclude" := by
  obtain ⟨d, hd, rfl⟩ := List.mem_map.mp (KeyMap.mem_keys_ofList.mp h)
  obtain ⟨_, -, hread⟩ := List.mem_filterMap.mp hd
  exact name_of_dimensionOfYaml? hread

theorem Matrix.wellFormed_of_ofYaml? (h : ofYaml? v = some m) : m.WellFormed := by
  cases v with
  | string =>
    obtain rfl := Option.some.inj h
    exact ⟨fun _ => rfl, List.not_mem_nil, List.not_mem_nil⟩
  | mapping entries =>
    obtain rfl := Option.some.inj h
    exact ⟨fun h => absurd h Bool.false_ne_true, fun h => (name_of_mem_keys h).1 rfl,
      fun h => (name_of_mem_keys h).2 rfl⟩
  | null | bool | number | sequence | tagged => cases h

theorem nodup_runnerLabels (runsOn : Value) (strategy : Option Value) :
    (runnerLabels runsOn strategy).Nodup :=
  (firstOccurrences_eraseDups _).nodup

theorem Job.wellFormed_ofYaml (id : String) (v : Value) : (ofYaml id v).WellFormed where
  runsOn := by
    rw [ofYaml]
    cases v.get? "runs-on" with
    | none => exact .nil
    | some labels => exact nodup_runnerLabels labels _
  matrix m h := by
    obtain ⟨value, -, hm⟩ := Option.bind_eq_some_iff.mp h
    exact Matrix.wellFormed_of_ofYaml? hm
  timeout s h := by
    obtain ⟨value, -, hs⟩ := Option.bind_eq_some_iff.mp h
    exact Timeout.not_isSpacedNumeral hs

theorem stepsInOrder_filter (items : List Value) :
    StepsInOrder items ((items.filter Value.isMapping).map Step.ofYaml) := by
  induction items with
  | nil => exact .nil
  | cons v items ih =>
    cases h : v.asMapping? with
    | none =>
      rw [List.filter_cons_of_neg (by simp [Value.isMapping, h])]
      exact .other h ih
    | some fields =>
      rw [List.filter_cons_of_pos (by simp [Value.isMapping, h])]
      exact .step h ih

theorem Job.writtenIn_of_ofEntry? (h : ofEntry? e = some j) : j.WrittenIn e := by
  obtain ⟨hentry, id, hid, rfl⟩ := ofEntry?_eq_some_iff.mp h
  exact ⟨hentry, hid, stepsInOrder_filter (stepItems e.2)⟩

end Jobs

section Documents

theorem wellFormed_of_mem_triggers {earlier : List Issue} {root : Value} {t : Trigger}
    (h : t ∈ (Document.ofYaml earlier root).triggers) : t.WellFormed := by
  rw [Document.ofYaml] at h
  cases hroot : root.asMapping? with
  | none =>
    rw [hroot] at h
    cases hnull : root.untagged <;> rw [hnull] at h <;> cases h
  | some entries =>
    rw [hroot] at h
    change t ∈ ((triggerSection? entries).map Trigger.listOfYaml).getD [] at h
    cases hsection : triggerSection? entries with
    | none =>
      rw [hsection] at h
      cases h
    | some v =>
      rw [hsection] at h
      exact Trigger.wellFormed_of_mem h

theorem wellFormed_ofYaml (earlier : List Issue) (root : Value) :
    (Document.ofYaml earlier root).WellFormed root where
  triggers _ h := wellFormed_of_mem_triggers h
  jobs j h := by
    rw [jobs_ofYaml] at h
    obtain ⟨e, -, he⟩ := List.mem_filterMap.mp h
    obtain ⟨-, id, -, rfl⟩ := Job.ofEntry?_eq_some_iff.mp he
    exact Job.wellFormed_ofYaml id e.2
  written := by
    rw [jobs_ofYaml]
    obtain ⟨kept, hsublist, hjobs⟩ := exists_kept_filterMap (jobEntries root)
    exact ⟨kept, hsublist, hjobs.imp fun _ _ => Job.writtenIn_of_ofEntry?⟩

/-- Every text is read as a well-formed document, be it read as a whole or by its sections. -/
theorem wellFormed_parse (text : String) : (Document.parse text).WellFormed (sourceOf text) := by
  rw [Document.parse, Document.parseWith, sourceOf]
  cases Yaml.read text with
  | ok root => exact wellFormed_ofYaml _ root
  | error => exact wellFormed_ofYaml _ _

end Documents

end WorkflowAudit.Workflow
