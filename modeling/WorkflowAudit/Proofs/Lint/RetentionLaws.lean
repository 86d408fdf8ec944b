import WorkflowAudit.Proofs.Lint.EngineLaws
import WorkflowAudit.Proofs.Lint.RuleTableLaws
import WorkflowAudit.Proofs.Workflow.OrderLaws
import WorkflowAudit.Proofs.Workflow.WellFormedLaws
import WorkflowAudit.Proofs.Yaml.ExactLaws

namespace WorkflowAudit

namespace Yaml

/-! Numbers are written without an `r`, so that none of them is read as the name of a retention. -/

section Numbers

theorem r_notMem_toString (n : Nat) : 'r' ∉ (toString n).toList := by
  intro h
  rw [Nat.toString_eq_repr, Nat.toList_repr] at h
  exact absurd (Nat.isDigit_of_mem_toDigits (by decide) (by decide) h) (by decide)

theorem r_notMem_repr_int (i : Int) : 'r' ∉ i.repr.toList := by
  cases i with
  | ofNat n => exact r_notMem_toString n
  | negSucc n =>
    have hneg : (Int.negSucc n).repr = "-" ++ toString (n + 1) := rfl
    rw [hneg, String.toList_append, List.mem_append, not_or]
    exact ⟨by decide, r_notMem_toString (n + 1)⟩

theorem r_notMem_zeros (n : Nat) : 'r' ∉ (Decimal.zeros n).toList := by
  simp [Decimal.zeros]

theorem r_notMem_writeScaled (n : Decimal.Notation) (x : Decimal.Scaled) :
    'r' ∉ (n.writeScaled x).toList := by
  unfold Decimal.Notation.writeScaled
  extract_lets digits place mantissa
  have hdigits : 'r' ∉ digits.toList := r_notMem_toString x.digits
  have htake : ∀ k, 'r' ∉ digits.toList.take k := fun _ h => hdigits (List.mem_of_mem_take h)
  have hdrop : ∀ k, 'r' ∉ digits.toList.drop k := fun _ h => hdigits (List.mem_of_mem_drop h)
  have hmantissa : 'r' ∉ mantissa.toList := by
    unfold mantissa
    split <;> simp_all
  split_ifs <;> simp [r_notMem_zeros, r_notMem_repr_int, hdigits, htake, hdrop, hmantissa]

theorem r_notMem_write (n : Number) : 'r' ∉ n.write.toList := by
  cases n with
  | int i => exact r_notMem_repr_int i
  | float x =>
    rw [Number.write, Decimal.Notation.write]
    cases Decimal.Binary.ofFloat x with
    | nan => decide
    | infinite negative => cases negative <;> decide
    | finite negative m e => cases negative <;> simp [r_notMem_writeScaled]

end Numbers

namespace Value

def IsUntagged (v : Value) : Prop := v.untagged = v

/-- A key stands in a mapping that is reached without passing a tag. -/
inductive Stands (key : String) : Value → Prop
  | here {entries : Mapping} {e : Value × Value} :
    e ∈ entries → e.1.asString? = some key → Stands key (.mapping entries)
  | under {entries : Mapping} {e : Value × Value} :
    e ∈ entries → Stands key e.2 → Stands key (.mapping entries)
  | item {items : List Value} {v : Value} : v ∈ items → Stands key v → Stands key (.sequence items)

section Keys

variable {key name : String} {v w : Value} {m : Mapping} {items : List Value}

theorem stands_mapping_iff : Stands key (.mapping m) ↔
    ∃ e ∈ m, e.1.asString? = some key ∨ Stands key e.2 := by
  constructor
  · rintro (⟨he, hkey⟩ | ⟨he, hv⟩ | _)
    · exact ⟨_, he, .inl hkey⟩
    · exact ⟨_, he, .inr hv⟩
  · rintro ⟨e, he, hkey | hv⟩
    · exact .here he hkey
    · exact .under he hv

theorem stands_sequence_iff : Stands key (.sequence items) ↔ ∃ v ∈ items, Stands key v :=
  ⟨fun | .item hv h => ⟨_, hv, h⟩, fun ⟨_, hv, h⟩ => .item hv h⟩

mutual

theorem declares_iff_stands : ∀ v : Value, v.declares key ↔ Stands key v
  | .mapping entries => by
    rw [declares, stands_mapping_iff, declaresInEntries_iff_stands entries]
  | .sequence items => by
    rw [declares, stands_sequence_iff, declaresInItems_iff_stands items]
  | .null | .bool _ | .number _ | .string _ | .tagged _ _ =>
    iff_of_false Bool.false_ne_true nofun

theorem declaresInEntries_iff_stands : ∀ m : Mapping, declaresInEntries key m ↔
    ∃ e ∈ m, e.1.asString? = some key ∨ Stands key e.2
  | [] => by simp [declaresInEntries]
  | (k, v) :: rest => by
    simp [declaresInEntries, declares_iff_stands v, declaresInEntries_iff_stands rest]

theorem declaresInItems_iff_stands : ∀ items : List Value, declaresInItems key items ↔
    ∃ v ∈ items, Stands key v
  | [] => by simp [declaresInItems]
  | v :: rest => by
    simp [declaresInItems, declares_iff_stands v, declaresInItems_iff_stands rest]

end

theorem IsUntagged.eq_mapping (hv : v.IsUntagged) (h : v.asMapping? = some m) : v = .mapping m := by
  rw [asMapping?, hv] at h
  split at h
  · cases h
    assumption
  · cases h

theorem IsUntagged.eq_sequence (hv : v.IsUntagged) (h : v.asSequence? = some items) :
    v = .sequence items := by
  rw [asSequence?, hv] at h
  split at h
  · cases h
    assumption
  · cases h

theorem Stands.of_get? (hw : Stands key w) (hv : v.IsUntagged) (h : v.get? name = some w) :
    Stands key v := by
  obtain ⟨m, hm, hlookup⟩ := Option.bind_eq_some_iff.mp h
  rw [Workflow.lookup?_eq_find?] at hlookup
  obtain ⟨e, he, rfl⟩ := Option.map_eq_some_iff.mp hlookup
  exact hv.eq_mapping hm ▸ .under (List.mem_of_find?_eq_some he) hw

theorem eq_string_of_scalar? (h : v.scalar? = some name) (hr : 'r' ∈ name.toList)
    (htrue : name ≠ "true") : v = .string name := by
  cases v with
  | string s => rw [Option.some.inj h]
  | number n => exact absurd hr (Option.some.inj h ▸ r_notMem_write n)
  | bool b =>
    cases b with
    | true => exact absurd (Option.some.inj h).symm htrue
    | false => exact absurd hr (Option.some.inj h ▸ by decide)
  | null | sequence | mapping | tagged => cases h

end Keys

end Value

end Yaml

namespace Workflow

open Yaml (Value Mapping)

/-- Where the parameters of a step are written. Only a job, its key and the section of the jobs are
never read under a tag. -/
structure Step.Origin (root : Value) (s : Step) where
  job : Value × Value
  steps : Value
  item : Value
  params : Value
  job_mem : job ∈ jobEntries root
  entry : JobEntry job
  steps_eq : job.2.get? "steps" = some steps
  item_mem : ∃ items, steps.asSequence? = some items ∧ item ∈ items
  params_eq : item.get? "with" = some params
  step_eq : Step.ofYaml item = s

def Step.Origin.IsUntagged {root : Value} {s : Step} (o : s.Origin root) : Prop :=
  root.IsUntagged ∧ o.steps.IsUntagged ∧ o.item.IsUntagged ∧ o.params.IsUntagged

section Origins

variable {root item : Value} {j : Job} {s : Step} {key : String}

theorem exists_of_mem_getD {α : Type} {a : α} {l? : Option (List α)} (h : a ∈ l?.getD []) :
    ∃ l, l? = some l ∧ a ∈ l := by
  cases l? with
  | none => cases h
  | some l => exact ⟨l, rfl, h⟩

theorem Step.exists_of_mem_params (h : key ∈ (ofYaml item).params.keys) :
    ∃ params m, item.get? "with" = some params ∧ params.asMapping? = some m ∧
      ∃ e ∈ m, e.1.scalar? = some key := by
  obtain ⟨named, hnamed, rfl⟩ := List.mem_map.mp (KeyMap.mem_keys_ofList.mp h)
  obtain ⟨e, he, hread⟩ := List.mem_filterMap.mp hnamed
  obtain ⟨name, hname, rfl⟩ := Option.map_eq_some_iff.mp hread
  obtain ⟨m, hm, hmem⟩ := exists_of_mem_getD he
  obtain ⟨params, hparams, hm⟩ := Option.bind_eq_some_iff.mp hm
  exact ⟨params, m, hparams, hm, e, hmem, hname⟩

theorem Step.nonempty_origin (hj : j ∈ (jobEntries root).filterMap Job.ofEntry?) (hs : s ∈ j.steps)
    (hkey : key ∈ s.params.keys) : Nonempty (s.Origin root) := by
  obtain ⟨job, hjob, hread⟩ := List.mem_filterMap.mp hj
  obtain ⟨hentry, id, hid, rfl⟩ := Job.ofEntry?_eq_some_iff.mp hread
  obtain ⟨item, hitem, rfl⟩ := List.mem_map.mp hs
  obtain ⟨params, -, hparams, -⟩ := exists_of_mem_params hkey
  obtain ⟨items, hitems, hmem⟩ := exists_of_mem_getD (List.mem_of_mem_filter hitem)
  obtain ⟨steps, hsteps, hitems⟩ := Option.bind_eq_some_iff.mp hitems
  exact ⟨⟨job, steps, item, params, hjob, hentry, hsteps, ⟨items, hitems, hmem⟩, hparams, rfl⟩⟩

theorem Step.Origin.stands (o : s.Origin root) (h : o.IsUntagged) (hkey : key ∈ s.params.keys)
    (hr : 'r' ∈ key.toList) (htrue : key ≠ "true") : root.Stands key := by
  obtain ⟨hroot, hsteps, hitem, hparams⟩ := h
  obtain ⟨params, m, hwith, hm, e, he, hname⟩ := exists_of_mem_params (o.step_eq ▸ hkey)
  obtain rfl := Option.some.inj (o.params_eq.symm.trans hwith)
  have hstands : o.params.Stands key := by
    rw [hparams.eq_mapping hm]
    exact .here he (by rw [Value.eq_string_of_scalar? hname hr htrue]; rfl)
  obtain ⟨items, hitems, hmem⟩ := o.item_mem
  have hstands : o.steps.Stands key :=
    hsteps.eq_sequence hitems ▸ .item hmem (hstands.of_get? hitem hwith)
  obtain ⟨fields, hfields⟩ := o.entry.value
  have hjob : o.job.2.IsUntagged := by rw [hfields]; rfl
  obtain ⟨entries, hjobs, hentry⟩ := mem_jobEntries_iff.mp o.job_mem
  exact (Value.Stands.under hentry (hstands.of_get? hjob o.steps_eq)).of_get? hroot hjobs

end Origins

section Documents

variable {earlier : List Issue} {root : Value}

theorem retentionDeclared_ofYaml_iff : (Document.ofYaml earlier root).retentionDeclared ↔
    root.isMapping ∧ root.Stands "retention-days" := by
  rw [← Value.declares_iff_stands, Document.ofYaml, Value.isMapping]
  cases root.asMapping? with
  | none => cases root.untagged <;> simp [Document.withIssues, Document.empty]
  | some entries => simp [Document.withIssues]

theorem retentionDeclared_of_origin {s : Step} (o : s.Origin root) (h : o.IsUntagged)
    (hkey : "retention-days" ∈ s.params.keys) :
    (Document.ofYaml earlier root).retentionDeclared := by
  obtain ⟨entries, hjobs, -⟩ := mem_jobEntries_iff.mp o.job_mem
  obtain ⟨m, hm, -⟩ := Option.bind_eq_some_iff.mp hjobs
  have hroot : root.isMapping := Option.isSome_iff_exists.mpr ⟨m, hm⟩
  exact retentionDeclared_ofYaml_iff.mpr ⟨hroot, o.stands h hkey (by decide) (by decide)⟩

theorem exists_parse_eq_ofYaml (text : String) :
    ∃ earlier, Document.parse text = .ofYaml earlier (sourceOf text) := by
  rw [Document.parse, Document.parseWith, sourceOf]
  cases Yaml.read text with
  | ok root => exact ⟨_, rfl⟩
  | error => exact ⟨_, rfl⟩

end Documents

end Workflow

namespace Lint

open Workflow (Document Step sourceOf)
open Yaml (Value)

theorem reports_artifactNoRetention_iff (d : Document) (file : String) :
    Engine.builtin.Reports d file "ARTIFACT_NO_RETENTION" ↔
      ¬d.retentionDeclared ∧
        ∃ j ∈ d.jobs, ∃ s ∈ j.steps, s.actionName = some "actions/upload-artifact" := by
  rw [Engine.reports_builtin_iff d file (rfl : Engine.builtinRules.filter
    (·.id = "ARTIFACT_NO_RETENTION") = [.ofDetections "ARTIFACT_NO_RETENTION"
      "artifact upload without retention-days" Rules.artifactNoRetention])]
  refine (Row.detectsSteps_iff (·.actionName = some "actions/upload-artifact") _ _).trans ?_
  simp only [Bool.not_eq_true, decide_eq_true_eq]

/-- A retention is declared where its key stands in the source of a text, and then uploads are not
reported. A parameter of a step is such a declaration unless the whole, the steps, the step or the
parameters have a tag. -/
theorem retentionDeclared_parse (text file : String) :
    ((Document.parse text).retentionDeclared ↔
      (sourceOf text).isMapping ∧ (sourceOf text).Stands "retention-days") ∧
    (Engine.builtin.Reports (Document.parse text) file "ARTIFACT_NO_RETENTION" ↔
      ¬(Document.parse text).retentionDeclared ∧ ∃ j ∈ (Document.parse text).jobs,
        ∃ s ∈ j.steps, s.actionName = some "actions/upload-artifact") ∧
    ∀ j ∈ (Document.parse text).jobs, ∀ s ∈ j.steps, "retention-days" ∈ s.params.keys →
      Nonempty (s.Origin (sourceOf text)) ∧
        ∀ o : s.Origin (sourceOf text), o.IsUntagged →
          (Document.parse text).retentionDeclared := by
  obtain ⟨earlier, hparse⟩ := Workflow.exists_parse_eq_ofYaml text
  refine ⟨?_, reports_artifactNoRetention_iff _ file, fun j hj s hs hkey => ⟨?_, fun o ho => ?_⟩⟩
  · rw [hparse, Workflow.retentionDeclared_ofYaml_iff]
  · rw [hparse, Workflow.jobs_ofYaml] at hj
    exact Step.nonempty_origin hj hs hkey
  · rw [hparse]
    exact Workflow.retentionDeclared_of_origin o ho hkey

def uploadText (before : String) : String :=
  "on: push\njobs:\n  t:\n    runs-on: ubuntu-latest\n    steps:\n      " ++
    "- uses: actions/upload-artifact@v4\n        with:" ++ before ++
    "\n          retention-days: 3\n"

def uploadParams : Value := .mapping [(.string "retention-days", .number (.int 3))]

def uploadItem (params : Value) : Value :=
  .mapping [(.string "uses", .string "actions/upload-artifact@v4"), (.string "with", params)]

def uploadEntry (params : Value) : Value × Value :=
  (.string "t", .mapping [(.string "runs-on", .string "ubuntu-latest"),
    (.string "steps", .sequence [uploadItem params])])

def uploadRoot (params : Value) : Value :=
  .mapping [(.string "on", .string "push"), (.string "jobs", .mapping [uploadEntry params])]

theorem read_uploadText_tag :
    Yaml.read (uploadText " !x") = .ok (uploadRoot (.tagged "x" uploadParams)) :=
  Yaml.read_eq_of_readsExactly (by decide +kernel)

theorem read_uploadText : Yaml.read (uploadText "") = .ok (uploadRoot uploadParams) :=
  Yaml.read_eq_of_readsExactly (by decide +kernel)

theorem mem_jobs_uploadText {before : String} {params : Value}
    (h : Yaml.read (uploadText before) = .ok (uploadRoot params)) :
    Workflow.Job.ofYaml "t" (uploadEntry params).2 ∈ (Document.parse (uploadText before)).jobs := by
  rw [Workflow.jobs_parse h]
  exact List.mem_cons_self

/-- A parameter under a tag is a parameter of its step and no declaration. -/
theorem not_retentionDeclared_tag :
    ¬∀ text, (∃ j ∈ (Document.parse text).jobs, ∃ s ∈ j.steps,
      "retention-days" ∈ s.params.keys) → (Document.parse text).retentionDeclared := by
  intro h
  have hdeclared := h (uploadText " !x")
    ⟨_, mem_jobs_uploadText read_uploadText_tag, _, List.mem_cons_self, by decide⟩
  rw [Document.parse, Document.parseWith, read_uploadText_tag] at hdeclared
  cases hdeclared

theorem retentionDeclared_parse_uploadText :
    ∃ j ∈ (Document.parse (uploadText "")).jobs, ∃ s ∈ j.steps,
      "retention-days" ∈ s.params.keys ∧ (Document.parse (uploadText "")).retentionDeclared := by
  have hsource : sourceOf (uploadText "") = uploadRoot uploadParams := by
    rw [sourceOf, read_uploadText]
  have hjob := mem_jobs_uploadText read_uploadText
  let o : (Step.ofYaml (uploadItem uploadParams)).Origin (uploadRoot uploadParams) :=
    { job := uploadEntry uploadParams
      steps := .sequence [uploadItem uploadParams]
      item := uploadItem uploadParams
      params := uploadParams
      job_mem := List.mem_cons_self
      entry := ⟨⟨"t", rfl⟩, _, rfl⟩
      steps_eq := rfl
      item_mem := ⟨_, rfl, List.mem_cons_self⟩
      params_eq := rfl
      step_eq := rfl }
  refine ⟨_, hjob, _, List.mem_cons_self, by decide, ?_⟩
  have hwhole := ((retentionDeclared_parse (uploadText "") "ci.yml").2.2 _ hjob _
    List.mem_cons_self (by decide)).2
  rw [hsource] at hwhole
  exact hwhole o ⟨rfl, rfl, rfl, rfl⟩

end Lint

end WorkflowAudit
