import WorkflowAudit.Proofs.Text.DigitLaws
import WorkflowAudit.Proofs.Workflow.OrderLaws
import WorkflowAudit.Proofs.Yaml.ExactLaws

namespace WorkflowAudit.Workflow

open Yaml (Value Mapping Entrywise rel_bind bind_eq_of_rel eq_of_rel)

inductive SpellsEvents : List String → Value → Prop
  | list (names : List String) : SpellsEvents names (.sequence (names.map .string))
  | mapping (names : List String) :
    SpellsEvents names (.mapping (names.map fun name => (.string name, .null)))
  | single (name : String) : SpellsEvents [name] (.string name)

inductive SpellsFilter : List Value → Value → Prop
  | list (items : List Value) : SpellsFilter items (.sequence items)
  | single {v : Value} : (∀ items, v ≠ .sequence items) → SpellsFilter [v] v

inductive SpellsSchedule (cron : Value) : Value → Prop
  | entry : SpellsSchedule cron (.mapping [(.string "cron", cron)])
  | list : SpellsSchedule cron (.sequence [.mapping [(.string "cron", cron)]])

inductive SpellsRunners : List Value → Value → Prop
  | list (labels : List Value) : SpellsRunners labels (.sequence labels)
  | mapping (labels : List Value) :
    SpellsRunners labels (.mapping [(.string "labels", .sequence labels)])
  | single {v : Value} {label : String} : v.scalar? = some label → SpellsRunners [v] v

inductive SpellsConcurrency (group : String) : Value → Prop
  | text : SpellsConcurrency group (.string group)
  | mapping : SpellsConcurrency group (.mapping [(.string "group", .string group)])

inductive SpellsMinutes (n : Nat) : Value → Prop
  | number : n < 2 ^ 64 → SpellsMinutes n (.number (.int n))
  | text : n < 2 ^ 64 → SpellsMinutes n (.string (toString n))

def SameSetting {α : Type} (Spells : α → Value → Prop) (v w : Value) : Prop :=
  v = w ∨ ∃ setting, Spells setting v ∧ Spells setting w

/-- The same as a whole, or mappings of the same keys with the same under each of them. -/
inductive Respelled (Same : Value → Value → Prop) (At : Value → Value → Value → Prop) :
    Value → Value → Prop
  | whole {v w : Value} : Same v w → Respelled Same At v w
  | entries {m n : Mapping} : Entrywise At m n → Respelled Same At (.mapping m) (.mapping n)

def filterKeys : List String :=
  ["branches", "branches-ignore", "tags", "paths", "paths-ignore", "types"]

def RespelledUnderEvent : Value → Value → Value → Prop
  | .string key => if key ∈ filterKeys then SameSetting SpellsFilter else Eq
  | _ => Eq

def RespelledEvent : Value → Value → Prop :=
  Respelled (SameSetting SpellsSchedule) RespelledUnderEvent

def RespelledEvents : Value → Value → Prop :=
  Respelled (SameSetting SpellsEvents) fun _ => RespelledEvent

def RespelledUnderJob : Value → Value → Value → Prop
  | .string "runs-on" => SameSetting SpellsRunners
  | .string "concurrency" => SameSetting SpellsConcurrency
  | .string "timeout-minutes" => SameSetting SpellsMinutes
  | _ => Eq

def RespelledJob : Value → Value → Prop := Respelled Eq RespelledUnderJob

def RespelledJobs : Value → Value → Prop := Respelled Eq fun _ => RespelledJob

def RespelledUnderRoot : Value → Value → Value → Prop
  | .string "on" => RespelledEvents
  | .bool true => RespelledEvents
  | .string "concurrency" => SameSetting SpellsConcurrency
  | .string "jobs" => RespelledJobs
  | _ => Eq

def RespelledWorkflow : Value → Value → Prop := Respelled Eq RespelledUnderRoot

variable {v w : Value} {m n : Mapping}

section Meanings

theorem Trigger.ofYaml_null (name : String) : ofYaml name .null = .bare (.ofName name) := by
  simp only [ofYaml, cronsOfYaml, ite_self]
  rfl

theorem SpellsEvents.listOfYaml_eq {names : List String} (h : SpellsEvents names v) :
    Trigger.listOfYaml v = names.map fun name => .bare (.ofName name) := by
  cases h with
  | list =>
    have hnames : (names.map Value.string).filterMap Value.asString? = names := by
      rw [List.filterMap_map]
      exact List.filterMap_some
    rw [Trigger.listOfYaml, hnames]
  | mapping =>
    rw [Trigger.listOfYaml, List.filterMap_map, ← List.filterMap_eq_map]
    congr 1
    funext name
    exact congrArg some (Trigger.ofYaml_null name)
  | single => rfl

theorem filterMap_scalar?_singleton (v : Value) :
    [v].filterMap Value.scalar? = v.scalar?.toList := by
  cases h : v.scalar? <;> simp [h]

theorem SpellsFilter.scalars_eq {items : List Value} (h : SpellsFilter items v) :
    v.scalars = items.filterMap Value.scalar? := by
  cases h with
  | list => rfl
  | single hv =>
    rw [filterMap_scalar?_singleton]
    cases v with
    | sequence items => exact absurd rfl (hv items)
    | null | bool | number | string | mapping | tagged => rfl

theorem SpellsSchedule.cronsOfYaml_eq {cron : Value} (h : SpellsSchedule cron v) :
    cronsOfYaml v = cron.scalar?.toList := by
  cases h with
  | entry => rfl
  | list => exact filterMap_scalar?_singleton cron

theorem SpellsSchedule.filters_eq {cron : Value} (h : SpellsSchedule cron v) :
    Filters.ofYaml v = .none := by
  cases h with
  | entry => rfl
  | list => rfl

theorem SpellsRunners.writtenLabels_eq {labels : List Value} (h : SpellsRunners labels v) :
    writtenLabels v = labels.filterMap Value.scalar? := by
  cases h with
  | list => rfl
  | mapping => exact List.append_nil _
  | single hv =>
    rw [filterMap_scalar?_singleton]
    cases v with
    | string | number | bool => rfl
    | null | sequence | mapping | tagged => cases hv

theorem SpellsConcurrency.ofYaml?_eq {group : String} (h : SpellsConcurrency group v) :
    Concurrency.ofYaml? v = some ⟨group, none⟩ := by
  cases h with
  | text => rfl
  | mapping => rfl

theorem SpellsMinutes.ofYaml?_eq {minutes : Nat} (h : SpellsMinutes minutes v) :
    Timeout.ofYaml? v = some (.minutes minutes) := by
  cases h with
  | number => rfl
  | text hn =>
    have hread : Text.natural? 64 (Text.trim (toString minutes).toList) = some minutes :=
      Text.natural?_trim_eq_some_iff.mpr (Text.isSpacedNumeral_toString hn)
    rw [Timeout.ofYaml?, hread]

theorem SameSetting.eq {α β : Type} {Spells : α → Value → Prop} {read : Value → β} {meaning : α → β}
    (h : SameSetting Spells v w) (hread : ∀ {s v}, Spells s v → read v = meaning s) :
    read v = read w := by
  obtain rfl | ⟨s, hv, hw⟩ := h
  · rfl
  · rw [hread hv, hread hw]

end Meanings

section Entries

variable {At : Value → Value → Value → Prop}

theorem entrywise_get? (h : Entrywise At m n) (key : String) :
    Option.Rel (At (.string key)) ((Value.mapping m).get? key) ((Value.mapping n).get? key) := by
  change Option.Rel _ (Value.lookup? key m) (Value.lookup? key n)
  rw [lookup?_eq_find?, lookup?_eq_find?, Option.map_eq_bind, Option.map_eq_bind]
  exact rel_bind (h.find? (isNamed key)) fun he => .some (isNamed_iff.mp he.2.1 ▸ he.2.2)

theorem entrywise_get?_eq (h : Entrywise At m n) (key : String) (hAt : At (.string key) = Eq) :
    (Value.mapping m).get? key = (Value.mapping n).get? key :=
  eq_of_rel (entrywise_get? h key) fun hab => by rwa [hAt] at hab

theorem entrywise_scalarAt?_eq (h : Entrywise At m n) (key : String) (hAt : At (.string key) = Eq) :
    (Value.mapping m).scalarAt? key = (Value.mapping n).scalarAt? key := by
  rw [Value.scalarAt?, Value.scalarAt?, entrywise_get?_eq h key hAt]

theorem Filters.ofYaml_eq_of_entrywise (h : Entrywise (fun _ a b => a.scalars = b.scalars) m n) :
    ofYaml (.mapping m) = ofYaml (.mapping n) := by
  have hlist : ∀ key, ((Value.mapping m).get? key).map Value.scalars =
      ((Value.mapping n).get? key).map Value.scalars := by
    intro key
    have hget := entrywise_get? h key
    generalize (Value.mapping m).get? key = a? at hget
    generalize (Value.mapping n).get? key = b? at hget
    cases hget with
    | none => rfl
    | some hab => exact congrArg some hab
  simp only [ofYaml, hlist]

end Entries

section Events

theorem SameSetting.scalars_eq (h : SameSetting SpellsFilter v w) : v.scalars = w.scalars :=
  h.eq SpellsFilter.scalars_eq

theorem RespelledUnderEvent.scalars_eq {key : Value} (h : RespelledUnderEvent key v w) :
    v.scalars = w.scalars := by
  cases key with
  | string name =>
    rw [RespelledUnderEvent] at h
    split at h
    · exact SameSetting.scalars_eq h
    · rw [h]
  | null | bool | number | sequence | mapping | tagged =>
    obtain rfl : v = w := h
    rfl

namespace RespelledEvent

theorem filters_eq (h : RespelledEvent v w) : Filters.ofYaml v = Filters.ofYaml w := by
  cases h with
  | whole h => exact h.eq SpellsSchedule.filters_eq
  | entries h =>
    exact Filters.ofYaml_eq_of_entrywise (h.imp fun _ _ he => ⟨he.1, he.2.scalars_eq⟩)

theorem cronsOfYaml_eq (h : RespelledEvent v w) : cronsOfYaml v = cronsOfYaml w := by
  cases h with
  | whole h => exact h.eq SpellsSchedule.cronsOfYaml_eq
  | entries h =>
    have hcron : RespelledUnderEvent (.string "cron") = Eq := by
      rw [RespelledUnderEvent, if_neg (by decide)]
    rw [cronsOfYaml, cronsOfYaml, entrywise_scalarAt?_eq h "cron" hcron]

theorem trigger_eq (h : RespelledEvent v w) (name : String) :
    Trigger.ofYaml name v = Trigger.ofYaml name w := by
  rw [Trigger.ofYaml, Trigger.ofYaml, h.filters_eq, h.cronsOfYaml_eq]

end RespelledEvent

theorem RespelledEvents.listOfYaml_eq (h : RespelledEvents v w) :
    Trigger.listOfYaml v = Trigger.listOfYaml w := by
  cases h with
  | whole h => exact h.eq SpellsEvents.listOfYaml_eq
  | entries h =>
    refine h.filterMap_eq fun e _ b hevent => ?_
    simp only [hevent.trigger_eq]

end Events

section Jobs

theorem SameSetting.runnerLabels_eq (h : SameSetting SpellsRunners v w) (strategy : Option Value) :
    runnerLabels v strategy = runnerLabels w strategy := by
  rw [runnerLabels, runnerLabels, h.eq SpellsRunners.writtenLabels_eq]

theorem SameSetting.concurrency_eq (h : SameSetting SpellsConcurrency v w) :
    Concurrency.ofYaml? v = Concurrency.ofYaml? w :=
  h.eq SpellsConcurrency.ofYaml?_eq

theorem SameSetting.timeout_eq (h : SameSetting SpellsMinutes v w) :
    Timeout.ofYaml? v = Timeout.ofYaml? w :=
  h.eq SpellsMinutes.ofYaml?_eq

namespace RespelledJob

theorem ofYaml_eq (h : RespelledJob v w) (id : String) : Job.ofYaml id v = Job.ofYaml id w := by
  cases h with
  | whole h => rw [h]
  | entries h =>
    have hscalar := entrywise_scalarAt?_eq h
    have hstrategy := entrywise_get?_eq h "strategy" rfl
    have hsteps := entrywise_get?_eq h "steps" rfl
    have hrunsOn := Job.runsOn_eq_of_rel id (entrywise_get? h "runs-on") fun hab =>
      hstrategy ▸ SameSetting.runnerLabels_eq hab _
    have htimeout := bind_eq_of_rel (entrywise_get? h "timeout-minutes") SameSetting.timeout_eq
    have hconcurrency := bind_eq_of_rel (entrywise_get? h "concurrency") SameSetting.concurrency_eq
    rw [Job.ofYaml, Job.ofYaml, Job.mk.injEq]
    refine ⟨rfl, hscalar "name" rfl, hrunsOn, hscalar "if" rfl, htimeout, hconcurrency, ?_, ?_,
      hscalar "uses" rfl, ?_⟩
    · rw [hstrategy]
    · rw [hstrategy]
    · rw [hsteps]

theorem entryOfYaml_eq (h : RespelledJob v w) (key : Value) :
    Job.entryOfYaml key v = Job.entryOfYaml key w := by
  have hjob := h.ofYaml_eq
  cases h with
  | whole h => rw [h]
  | entries => simp only [Job.entryOfYaml, hjob]

end RespelledJob

theorem filterMap_entryOfYaml_eq (h : Entrywise (fun _ => RespelledJob) m n) :
    (m.filterMap fun (k, v) => Job.entryOfYaml k v) =
      n.filterMap fun (k, v) => Job.entryOfYaml k v :=
  h.filterMap_eq fun e _ _ hjob => hjob.entryOfYaml_eq e.1

theorem jobsOfYaml_eq_of_respelled {v? w? : Option Value} (h : Option.Rel RespelledJobs v? w?) :
    jobsOfYaml v? = jobsOfYaml w? := by
  cases h with
  | none => rfl
  | some h =>
    cases h with
    | whole h => rw [h]
    | entries h => rw [jobsOfYaml, jobsOfYaml, filterMap_entryOfYaml_eq h]

end Jobs

section Workflows

theorem respelledUnderRoot_of_isTriggerKey {key : Value} (h : isTriggerKey key) :
    RespelledUnderRoot key = RespelledEvents := by
  obtain rfl | rfl := isTriggerKey_iff.mp h
  · rfl
  · rfl

theorem triggerSection?_respelled (h : Entrywise RespelledUnderRoot m n) :
    Option.Rel RespelledEvents (triggerSection? m) (triggerSection? n) := by
  rw [triggerSection?_eq_find?, triggerSection?_eq_find?, Option.map_eq_bind, Option.map_eq_bind]
  exact rel_bind (h.find? isTriggerKey) fun he =>
    .some (respelledUnderRoot_of_isTriggerKey he.2.1 ▸ he.2.2)

theorem RespelledWorkflow.ofYaml_eq (h : RespelledWorkflow v w) (earlier : List Issue) :
    Document.ofYaml earlier w = { Document.ofYaml earlier v with
      retentionDeclared := (Document.ofYaml earlier w).retentionDeclared } := by
  cases h with
  | whole h => rw [h]
  | @entries m n h =>
    have hentries : ∀ m, (Value.mapping m).asMapping? = some m := fun _ => rfl
    have htriggers : ((triggerSection? m).map Trigger.listOfYaml).getD [] =
        ((triggerSection? n).map Trigger.listOfYaml).getD [] :=
      Yaml.rel_getD_map (triggerSection?_respelled h) rfl RespelledEvents.listOfYaml_eq
    have hjobs := jobsOfYaml_eq_of_respelled (entrywise_get? h "jobs")
    have hconcurrency := bind_eq_of_rel (entrywise_get? h "concurrency") SameSetting.concurrency_eq
    simp only [Document.ofYaml, hentries, entrywise_scalarAt?_eq h "name" rfl, htriggers,
      hconcurrency, hjobs, Document.withIssues]

/-- A setting is read as what it means, whichever way it is written, and a workflow with its
settings written in other ways is read as the same document. -/
theorem respelled_readAlike :
    (∀ names v, SpellsEvents names v →
      Trigger.listOfYaml v = names.map fun name => .bare (.ofName name)) ∧
    (∀ (before after : Mapping) key items v, SpellsFilter items v →
      Filters.ofYaml (.mapping (before ++ (.string key, v) :: after)) =
        Filters.ofYaml (.mapping (before ++ (.string key, .sequence items) :: after))) ∧
    (∀ cron v, SpellsSchedule cron v → cronsOfYaml v = cron.scalar?.toList) ∧
    (∀ labels v strategy, SpellsRunners labels v →
      runnerLabels v strategy = runnerLabels (.sequence labels) strategy) ∧
    (∀ group v, SpellsConcurrency group v → Concurrency.ofYaml? v = some ⟨group, none⟩) ∧
    (∀ n v, SpellsMinutes n v → Timeout.ofYaml? v = some (.minutes n)) ∧
    ∀ earlier v w, RespelledWorkflow v w →
      Document.ofYaml earlier w = { Document.ofYaml earlier v with
        retentionDeclared := (Document.ofYaml earlier w).retentionDeclared } := by
  refine ⟨fun _ _ => SpellsEvents.listOfYaml_eq, ?_, fun _ _ => SpellsSchedule.cronsOfYaml_eq, ?_,
    fun _ _ => SpellsConcurrency.ofYaml?_eq, fun _ _ => SpellsMinutes.ofYaml?_eq,
    fun earlier _ _ h => h.ofYaml_eq earlier⟩
  · intro before after key items v h
    have hsame : ∀ l : Mapping, Entrywise (fun _ a b => a.scalars = b.scalars) l l := fun l =>
      List.forall₂_same.mpr fun _ _ => ⟨rfl, rfl⟩
    exact Filters.ofYaml_eq_of_entrywise <|
      List.rel_append (hsame before) (.cons ⟨rfl, h.scalars_eq⟩ (hsame after))
  · intro labels v strategy h
    exact SameSetting.runnerLabels_eq (.inr ⟨labels, h, .list labels⟩) strategy

def plainText : String := "on:\n  push:\n    branches: main\n  schedule:\n    cron: c\n" ++
  "concurrency: g\njobs:\n  a:\n    runs-on: x\n    timeout-minutes: 5\n"

def listText : String := "on:\n  push:\n    branches: [main]\n  schedule:\n    - cron: c\n" ++
  "concurrency:\n  group: g\njobs:\n  a:\n    runs-on: [x]\n    timeout-minutes: '5'\n"

def spelledRoot (branches schedule concurrency runsOn timeout : Value) : Value :=
  .mapping [(.string "on", .mapping [(.string "push", .mapping [(.string "branches", branches)]),
      (.string "schedule", schedule)]),
    (.string "concurrency", concurrency),
    (.string "jobs", .mapping [(.string "a",
      .mapping [(.string "runs-on", runsOn), (.string "timeout-minutes", timeout)])])]

def cronEntry : Value := .mapping [(.string "cron", .string "c")]

def plainRoot : Value :=
  spelledRoot (.string "main") cronEntry (.string "g") (.string "x") (.number (.int 5))

def listRoot : Value := spelledRoot (.sequence [.string "main"]) (.sequence [cronEntry])
  (.mapping [(.string "group", .string "g")]) (.sequence [.string "x"]) (.string "5")

theorem respelledWorkflow_spelledRoot
    {branches schedule concurrency runsOn timeout branches' schedule' concurrency' runsOn'
      timeout' : Value}
    (hbranches : SameSetting SpellsFilter branches branches')
    (hschedule : SameSetting SpellsSchedule schedule schedule')
    (hconcurrency : SameSetting SpellsConcurrency concurrency concurrency')
    (hrunsOn : SameSetting SpellsRunners runsOn runsOn')
    (htimeout : SameSetting SpellsMinutes timeout timeout') :
    RespelledWorkflow (spelledRoot branches schedule concurrency runsOn timeout)
      (spelledRoot branches' schedule' concurrency' runsOn' timeout') := by
  refine .entries (.cons ⟨rfl, ?events⟩ (.cons ⟨rfl, hconcurrency⟩ (.cons ⟨rfl, ?jobs⟩ .nil)))
  case events =>
    have hfilter : RespelledUnderEvent (.string "branches") branches branches' := by
      rwa [RespelledUnderEvent, if_pos (by decide)]
    exact .entries (.cons ⟨rfl, .entries (.cons ⟨rfl, hfilter⟩ .nil)⟩
      (.cons ⟨rfl, .whole hschedule⟩ .nil))
  case jobs =>
    have hjob : RespelledJob
        (.mapping [(.string "runs-on", runsOn), (.string "timeout-minutes", timeout)])
        (.mapping [(.string "runs-on", runsOn'), (.string "timeout-minutes", timeout')]) :=
      .entries (.cons ⟨rfl, hrunsOn⟩ (.cons ⟨rfl, htimeout⟩ .nil))
    exact .entries (.cons ⟨rfl, hjob⟩ .nil)

theorem respelled_readAlike_sampleTexts : Document.parse listText = Document.parse plainText := by
  have hplain : Yaml.read plainText = .ok plainRoot :=
    Yaml.read_eq_of_readsExactly (by decide +kernel)
  have hlist : Yaml.read listText = .ok listRoot :=
    Yaml.read_eq_of_readsExactly (by decide +kernel)
  have hrespelled : RespelledWorkflow plainRoot listRoot :=
    respelledWorkflow_spelledRoot (.inr ⟨_, .single (by simp), .list _⟩) (.inr ⟨_, .entry, .list⟩)
      (.inr ⟨_, .text, .mapping⟩) (.inr ⟨_, .single rfl, .list _⟩)
      (.inr ⟨5, .number (by decide), .text (by decide)⟩)
  have hretention : (Document.ofYaml [] listRoot).retentionDeclared =
      (Document.ofYaml [] plainRoot).retentionDeclared := rfl
  obtain ⟨-, -, -, -, -, -, hdocument⟩ := respelled_readAlike
  have hsame := hdocument [] plainRoot listRoot hrespelled
  rw [hretention] at hsame
  simp only [Document.parse, Document.parseWith, hplain, hlist]
  exact hsame

end Workflows

end WorkflowAudit.Workflow
