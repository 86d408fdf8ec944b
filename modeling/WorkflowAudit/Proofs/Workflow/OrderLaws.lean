import WorkflowAudit.Proofs.KeyMapLaws
import WorkflowAudit.Proofs.Workflow.RecoveryLaws
import WorkflowAudit.Proofs.Yaml.OrderLaws

namespace WorkflowAudit

namespace Yaml.Layout

open Workflow (isNamed isNamed_iff lookup?_eq_find?)

variable {l : Layout} {v w : Value} {m n : Mapping}

theorem declaresInEntries_eq_any (key : String) (m : Mapping) :
    Value.declaresInEntries key m =
      m.any fun e => decide (e.1.asString? = some key) || e.2.declares key := by
  induction m with
  | nil => rfl
  | cons e m ih => rw [Value.declaresInEntries, List.any_cons, ih]

theorem pairwise_isNamed (h : m.DistinctKeys) (name : String) :
    (m.map (·.1)).Pairwise fun a b => ¬(isNamed name a ∧ isNamed name b) := by
  refine List.pairwise_map.mpr (h.imp fun {e f} hdistinct hnamed => ?_)
  rw [isNamed_iff.mp hnamed.1, isNamed_iff.mp hnamed.2, Value.same_refl] at hdistinct
  cases hdistinct

theorem Moves.lookup? (h : l.Moves m n) (hm : m.DistinctKeys) (key : String) :
    Option.Rel (l.under (.string key)).Rearranged (Value.lookup? key m) (Value.lookup? key n) := by
  have hfind := h.find? fun _ => pairwise_isNamed hm key
  rw [lookup?_eq_find?, lookup?_eq_find?, Option.map_eq_bind, Option.map_eq_bind]
  exact rel_bind hfind fun he => .some (isNamed_iff.mp he.2.1 ▸ he.2.2)

namespace Rearranged

theorem scalar?_eq (h : l.Rearranged v w) : v.scalar? = w.scalar? := by
  cases l with
  | fixed => exact congrArg _ h
  | inside items mayMove under => cases h <;> rfl

theorem declares_eq (h : l.Rearranged v w) (key : String) : v.declares key = w.declares key := by
  induction l generalizing v w with
  | fixed => exact congrArg _ h
  | inside items mayMove under ihItems ihUnder =>
    induction h with
    | same v => rfl
    | sequence h =>
      rw [Value.declares, Value.declares]
      induction h with
      | nil => rfl
      | cons h _ ih => rw [Value.declaresInItems, Value.declaresInItems, ihItems h, ih]
    | mapping h =>
      -- it is enough that some entry declares the key, wherever the entry stands
      obtain ⟨edited, hedit, hperm, -⟩ := h
      rw [Value.declares, Value.declares, declaresInEntries_eq_any, declaresInEntries_eq_any,
        ← hperm.any_eq]
      clear hperm
      induction hedit with
      | nil => rfl
      | cons h _ ih => rw [List.any_cons, List.any_cons, ← h.1, ihUnder _ h.2, ih]
    | tagged => rfl

end Rearranged

namespace Versions

theorem get? (h : l.Versions v w) (key : String) :
    Option.Rel (l.under (.string key)).Versions (v.get? key) (w.get? key) := by
  have hlookup : Option.Rel (l.under (.string key)).Rearranged (v.get? key) (w.get? key) := by
    have hkeys : ∀ m ∈ v.asMapping?, m.DistinctKeys := fun m hm =>
      (Value.inherited_regular.of_asMapping? h.regular hm).distinctKeys
    exact rel_bind (rel_imp (T := fun m n => m.DistinctKeys ∧ l.Moves m n) h.rearranged.asMapping?
      fun m hm _ hmoves => ⟨hkeys m hm, hmoves⟩) fun hm => hm.2.lookup? hm.1 key
  exact rel_imp hlookup fun a ha _ hab => ⟨Value.inherited_regular.of_get? h.regular ha, hab⟩

theorem get?_eq (h : l.Versions v w) (key : String)
    (hfixed : l.under (.string key) = fixed) : v.get? key = w.get? key := by
  have hget := h.get? key
  rw [hfixed] at hget
  exact eq_of_rel hget fun hab => hab.rearranged

theorem scalarAt?_eq (h : l.Versions v w) (key : String) : v.scalarAt? key = w.scalarAt? key :=
  bind_eq_of_rel (h.get? key) fun hab => hab.rearranged.scalar?_eq

end Versions

end Yaml.Layout

namespace Workflow

open Yaml (Value Mapping Layout rel_bind rel_getD_map bind_eq_of_rel getD_eq_of_rel)

def DistinctTexts (m : Mapping) : Prop := (m.filterMap (·.1.scalar?)).Nodup

def DistinctDimensions (m : Mapping) : Prop :=
  (m.filterMap fun e => (Matrix.dimensionOfYaml? e.1 e.2).map (·.1)).Nodup

def DistinctEvents (m : Mapping) : Prop := (m.filterMap (·.1.asString?)).Nodup

def OneTriggerKey (m : Mapping) : Prop :=
  (m.map (·.1)).Pairwise fun a b => ¬(isTriggerKey a ∧ isTriggerKey b)

instance : DecidablePred DistinctDimensions := fun _ => inferInstanceAs (Decidable (List.Nodup _))

instance : DecidablePred DistinctEvents := fun _ => inferInstanceAs (Decidable (List.Nodup _))

def settingsLayout : Layout := .mapping (fun _ => True) fun _ => .fixed

def stepLayout : Layout := .mapping (fun _ => True) fun
  | .string "with" => .mapping DistinctTexts fun _ => .fixed
  | _ => .fixed

def matrixLayout (matrixMoves : Mapping → Prop) : Layout := .mapping matrixMoves fun _ => .fixed

def strategyLayout (matrixMoves : Mapping → Prop) : Layout := .mapping (fun _ => True) fun
  | .string "matrix" => matrixLayout matrixMoves
  | _ => .fixed

def jobLayout (matrixMoves : Mapping → Prop) : Layout := .mapping (fun _ => True) fun
  | .string "strategy" => strategyLayout matrixMoves
  | .string "concurrency" => settingsLayout
  | .string "runs-on" => settingsLayout
  | .string "steps" => .sequence stepLayout
  | _ => .fixed

def eventLayout : Layout := .inside settingsLayout (fun _ => True) fun _ => .fixed

def eventsLayout (eventsMove : Mapping → Prop) : Layout := .mapping eventsMove fun _ => eventLayout

def jobsLayout (matrixMoves : Mapping → Prop) : Layout :=
  .mapping (fun _ => False) fun _ => jobLayout matrixMoves

def workflowLayout (matrixMoves eventsMove : Mapping → Prop) : Layout := .mapping OneTriggerKey fun
  | .string "on" => eventsLayout eventsMove
  | .bool true => eventsLayout eventsMove
  | .string "jobs" => jobsLayout matrixMoves
  | .string "concurrency" => settingsLayout
  | _ => .fixed

variable {v w : Value} {m n : Mapping} {matrixMoves eventsMove : Mapping → Prop}

theorem Concurrency.ofYaml?_eq (h : settingsLayout.Versions v w) :
    Concurrency.ofYaml? v = Concurrency.ofYaml? w := by
  obtain rfl | ⟨m, n, rfl, rfl, -⟩ | ⟨tag, v, w, rfl, rfl⟩ := h.rearranged.mapping_cases
  · rfl
  · rw [ofYaml?, ofYaml?, h.scalarAt?_eq, h.get?_eq _ rfl]
  · rfl

section Runners

variable {s t : Option Value}

theorem writtenLabels_eq (h : settingsLayout.Versions v w) :
    writtenLabels v = writtenLabels w := by
  obtain rfl | ⟨m, n, rfl, rfl, -⟩ | ⟨tag, v, w, rfl, rfl⟩ := h.rearranged.mapping_cases
  · rfl
  · rw [writtenLabels, writtenLabels, h.scalarAt?_eq, h.get?_eq _ rfl]
  · rfl

theorem dimensionValues_eq (h : (matrixLayout matrixMoves).Versions v w)
    (name : String) : dimensionValues v name = dimensionValues w name := by
  rw [dimensionValues, dimensionValues, h.get?_eq _ rfl, h.get?_eq _ rfl]

theorem expandLabel_eq (h : Option.Rel (matrixLayout matrixMoves).Versions s t)
    (label : String) : expandLabel s label = expandLabel t label := by
  cases h with
  | none => rfl
  | some h =>
    cases hname : matrixReference? label with
    | none => simp only [expandLabel, hname]
    | some name => simp only [expandLabel, hname, dimensionValues_eq h name]

theorem runnerLabels_eq (h : settingsLayout.Versions v w)
    (hst : Option.Rel (strategyLayout matrixMoves).Versions s t) :
    runnerLabels v s = runnerLabels w t := by
  have hmatrix := rel_bind hst fun hab => hab.get? "matrix"
  rw [runnerLabels, runnerLabels, writtenLabels_eq h, funext (expandLabel_eq hmatrix)]

end Runners

theorem Matrix.ofYaml?_eq (h : (matrixLayout DistinctDimensions).Rearranged v w) :
    Matrix.ofYaml? v = Matrix.ofYaml? w := by
  obtain rfl | ⟨m, n, rfl, rfl, hmoves⟩ | ⟨tag, v, w, rfl, rfl⟩ := h.mapping_cases
  · rfl
  · obtain ⟨hperm, hdistinct | rfl⟩ := hmoves.perm_of_fixed
    · rw [ofYaml?, ofYaml?, KeyMap.ofList_eq_of_perm (hperm.filterMap _)]
      rw [List.map_filterMap]
      exact hdistinct
    · rfl
  · rfl

namespace Step

def paramsOfEntries (m : Mapping) : KeyMap String :=
  .ofList (m.filterMap fun (k, v) => k.scalar?.map fun name => (name, v.text))

theorem paramsOfEntries_eq (h : (Layout.mapping DistinctTexts fun _ => .fixed).Moves m n) :
    paramsOfEntries m = paramsOfEntries n := by
  obtain ⟨hperm, hdistinct | rfl⟩ := h.perm_of_fixed
  · refine KeyMap.ofList_eq_of_perm (hperm.filterMap _) ?_
    rw [List.map_filterMap]
    simpa [DistinctTexts, Function.comp_def] using hdistinct
  · rfl

theorem ofYaml_eq (h : stepLayout.Versions v w) : ofYaml v = ofYaml w := by
  have hentries := rel_bind (h.get? "with") fun hab => hab.rearranged.asMapping?
  rw [ofYaml, ofYaml, mk.injEq]
  exact ⟨h.scalarAt?_eq "name", h.scalarAt?_eq "uses", h.scalarAt?_eq "run",
    getD_eq_of_rel hentries paramsOfEntries_eq []⟩

def listOfItems (items : List Value) : List Step := (items.filter Value.isMapping).map ofYaml

theorem listOfItems_eq {vs ws : List Value} (h : List.Forall₂ stepLayout.Versions vs ws) :
    listOfItems vs = listOfItems ws := by
  simp only [listOfItems]
  induction h with
  | nil => rfl
  | cons h _ ih =>
    rw [List.filter_cons, List.filter_cons, h.rearranged.isMapping_eq]
    split
    · rw [List.map_cons, List.map_cons, ofYaml_eq h, ih]
    · exact ih

end Step

namespace Job

theorem runsOn_eq_of_rel (id : String) {R : Value → Value → Prop}
    (h : Option.Rel R (v.get? "runs-on") (w.get? "runs-on"))
    (hR : ∀ {a b}, R a b →
      runnerLabels a (v.get? "strategy") = runnerLabels b (w.get? "strategy")) :
    (ofYaml id v).runsOn = (ofYaml id w).runsOn := by
  rw [ofYaml, ofYaml]
  generalize v.get? "runs-on" = labels? at h
  generalize w.get? "runs-on" = labels?' at h
  cases h with
  | none => rfl
  | some hab => exact hR hab

theorem ofYaml_eq (id : String) (h : (jobLayout DistinctDimensions).Versions v w) :
    ofYaml id v = ofYaml id w := by
  have hstrategy := h.get? "strategy"
  have hconcurrency := bind_eq_of_rel (h.get? "concurrency") Concurrency.ofYaml?_eq
  have hmatrix := bind_eq_of_rel (rel_bind hstrategy fun hab => hab.get? "matrix") fun hab =>
    Matrix.ofYaml?_eq hab.rearranged
  have hfailFast := bind_eq_of_rel hstrategy fun hab => hab.get?_eq "fail-fast" rfl
  have hitems := rel_bind (h.get? "steps") fun hab => hab.asSequence?
  rw [ofYaml, ofYaml, mk.injEq, h.get?_eq "timeout-minutes" rfl, hfailFast]
  exact ⟨rfl, h.scalarAt?_eq "name",
    runsOn_eq_of_rel id (h.get? "runs-on") fun hab => runnerLabels_eq hab hstrategy,
    h.scalarAt?_eq "if", rfl, hconcurrency, hmatrix, rfl, h.scalarAt?_eq "uses",
    getD_eq_of_rel hitems Step.listOfItems_eq []⟩

theorem entryOfYaml_eq (key : Value) (h : (jobLayout DistinctDimensions).Versions v w) :
    entryOfYaml key v = entryOfYaml key w := by
  rw [entryOfYaml, entryOfYaml]
  cases key.scalar? with
  | none => rfl
  | some id =>
    obtain rfl | ⟨m, n, rfl, rfl, -⟩ | ⟨tag, v, w, rfl, rfl⟩ := h.rearranged.mapping_cases
    · rfl
    · simp only [Option.map_some, ofYaml_eq id h]
    · rfl

end Job

theorem jobsOfYaml_eq {v? w? : Option Value}
    (h : Option.Rel (jobsLayout DistinctDimensions).Versions v? w?) :
    jobsOfYaml v? = jobsOfYaml w? := by
  cases h with
  | none => rfl
  | some h =>
    obtain rfl | ⟨m, n, rfl, rfl, hmoves⟩ | ⟨tag, v, w, rfl, rfl⟩ := h.rearranged.mapping_cases
    · rfl
    · have hm := fun e he => (Value.inherited_regular.entries h.regular e he).2
      obtain ⟨-, hmove | hentries⟩ :=
        hmoves.filterMap (fun (k, v) => Job.entryOfYaml k v) hm (Job.entryOfYaml_eq _)
      · exact hmove.elim
      · rw [jobsOfYaml, jobsOfYaml, hentries]
    · rfl

namespace Trigger

theorem filters_eq (h : eventLayout.Versions v w) : Filters.ofYaml v = Filters.ofYaml w := by
  simp only [Filters.ofYaml, h.get?_eq _ rfl]

theorem cronsOfYaml_eq (h : eventLayout.Versions v w) : cronsOfYaml v = cronsOfYaml w := by
  cases h.rearranged with
  | same v => rfl
  | @sequence vs ws hmoved =>
    have hitems : List.Forall₂ settingsLayout.Versions vs ws :=
      Option.rel_some_some.mp h.asSequence?
    rw [cronsOfYaml, cronsOfYaml]
    clear h hmoved
    induction hitems with
    | nil => rfl
    | cons hitem _ ih =>
      rw [List.filterMap_cons, List.filterMap_cons, hitem.scalarAt?_eq, ih]
  | mapping => rw [cronsOfYaml, cronsOfYaml, h.scalarAt?_eq]
  | tagged => rfl

theorem ofYaml_eq (name : String) (h : eventLayout.Versions v w) :
    ofYaml name v = ofYaml name w := by
  rw [ofYaml, ofYaml, filters_eq h, cronsOfYaml_eq h]

theorem listOfYaml_moves (h : (eventsLayout eventsMove).Versions v w) :
    (listOfYaml v).Perm (listOfYaml w) ∧
      ((∃ m, v = .mapping m ∧ eventsMove m) ∨ listOfYaml v = listOfYaml w) := by
  obtain rfl | ⟨m, n, rfl, rfl, hmoves⟩ | ⟨tag, v, w, rfl, rfl⟩ := h.rearranged.mapping_cases
  · exact ⟨.refl _, .inr rfl⟩
  · have hm := fun e he => (Value.inherited_regular.entries h.regular e he).2
    obtain ⟨hperm, hmove⟩ := hmoves.filterMap
      (fun (k, v) => k.asString?.map fun name => ofYaml name v) hm fun hab => by
        simp only [ofYaml_eq _ hab]
    exact ⟨hperm, hmove.imp (fun hmove => ⟨m, rfl, hmove⟩) id⟩
  · exact ⟨.refl _, .inr rfl⟩

theorem names_listOfYaml (m : Mapping) :
    (listOfYaml (.mapping m)).map (·.event.name) = m.filterMap (·.1.asString?) := by
  simp only [listOfYaml, List.map_filterMap, Option.map_map, Function.comp_def, ofYaml,
    Event.name_ofName, Option.map_id']

/-- The first trigger of an event is the same, if no event is named twice where events move. -/
theorem find?_listOfYaml (h : (eventsLayout eventsMove).Versions v w)
    (hdistinct : ∀ m, eventsMove m → DistinctEvents m) (e : Event) :
    (listOfYaml v).find? (·.event = e) = (listOfYaml w).find? (·.event = e) := by
  obtain ⟨hperm, ⟨m, rfl, hmove⟩ | heq⟩ := listOfYaml_moves h
  · have hnodup : ((listOfYaml (.mapping m)).map (·.event.name)).Nodup := by
      rw [names_listOfYaml]
      exact hdistinct m hmove
    refine List.find?_eq_find?_of_perm hperm fun t ht u hu => ?_
    have ht' := of_decide_eq_true ht.2
    have hu' := of_decide_eq_true hu.2
    exact List.inj_on_of_nodup_map hnodup ht.1 hu.1 (by rw [ht', hu'])
  · rw [heq]

end Trigger

namespace Document

def triggersOfEntries (m : Mapping) : List Trigger :=
  ((triggerSection? m).map Trigger.listOfYaml).getD []

theorem triggers_ofYaml (earlier : List Issue) (m : Mapping) :
    (ofYaml earlier (.mapping m)).triggers = triggersOfEntries m := rfl

theorem under_of_isTriggerKey {key : Value} (h : isTriggerKey key) :
    (workflowLayout matrixMoves eventsMove).under key = eventsLayout eventsMove := by
  obtain rfl | rfl := isTriggerKey_iff.mp h
  · rfl
  · rfl

section Versions

variable (h : (workflowLayout DistinctDimensions eventsMove).Versions (.mapping m) (.mapping n))
include h

theorem ofYaml_eq (earlier : List Issue) : ofYaml earlier (.mapping n) =
    { ofYaml earlier (.mapping m) with triggers := triggersOfEntries n } := by
  have hjobs := jobsOfYaml_eq (h.get? "jobs")
  have hconcurrency := bind_eq_of_rel (h.get? "concurrency") Concurrency.ofYaml?_eq
  have hentries : ∀ m, (Value.mapping m).asMapping? = some m := fun _ => rfl
  simp only [ofYaml, hentries, h.scalarAt?_eq, hconcurrency, hjobs, h.rearranged.declares_eq,
    withIssues, triggersOfEntries]

theorem triggerSection?_rel : Option.Rel (eventsLayout eventsMove).Versions
    (triggerSection? m) (triggerSection? n) := by
  have hmoves := Option.rel_some_some.mp h.rearranged.asMapping?
  have hregular := Value.inherited_regular.entries h.regular
  rw [triggerSection?_eq_find?, triggerSection?_eq_find?, Option.map_eq_bind, Option.map_eq_bind]
  exact rel_bind (hmoves.find? id) fun he =>
    .some ⟨(hregular _ he.1).2, under_of_isTriggerKey he.2.1 ▸ he.2.2⟩

theorem triggersOfEntries_perm : (triggersOfEntries m).Perm (triggersOfEntries n) :=
  rel_getD_map (triggerSection?_rel h) (.refl _) fun hab => (Trigger.listOfYaml_moves hab).1

theorem triggersOfEntries_eq (hfixed : ∀ m, ¬eventsMove m) :
    triggersOfEntries m = triggersOfEntries n :=
  rel_getD_map (triggerSection?_rel h) rfl fun hab =>
    (Trigger.listOfYaml_moves hab).2.resolve_left fun ⟨m, _, hm⟩ => hfixed m hm

theorem find?_triggersOfEntries (hdistinct : ∀ m, eventsMove m → DistinctEvents m) (e : Event) :
    (triggersOfEntries m).find? (·.event = e) = (triggersOfEntries n).find? (·.event = e) := by
  let SameFirst (l l' : List Trigger) : Prop := l.find? (·.event = e) = l'.find? (·.event = e)
  exact rel_getD_map (S := SameFirst) (triggerSection?_rel h) rfl fun hab =>
    Trigger.find?_listOfYaml hab hdistinct e

end Versions

end Document

end Workflow

end WorkflowAudit
