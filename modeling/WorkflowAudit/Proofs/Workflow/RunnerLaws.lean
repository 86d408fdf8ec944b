import WorkflowAudit.Proofs.OccurrenceLaws
import WorkflowAudit.Proofs.Workflow.JobLaws

namespace WorkflowAudit.Workflow

open Yaml (Value Mapping)

inductive Lists : Value → List String → Prop
  | scalar {v : Value} {s : String} : v.scalar? = some s → Lists v [s]
  | list {items : List Value} : Lists (.sequence items) (items.filterMap Value.scalar?)
  | neither {v : Value} : v.scalar? = none → (∀ items, v ≠ .sequence items) → Lists v []

inductive ListsAt (v : Value) (key : String) : List String → Prop
  | present {setting : Value} {texts : List String} :
    v.get? key = some setting → Lists setting texts → ListsAt v key texts
  | absent : v.get? key = none → ListsAt v key []

inductive Writes : Value → List String → Prop
  | plain {runsOn : Value} {labels : List String} :
    (∀ entries, runsOn ≠ .mapping entries) → Lists runsOn labels → Writes runsOn labels
  | grouped {entries : Mapping} {labels : List String} {group : String} :
    ListsAt (.mapping entries) "labels" labels →
    (Value.mapping entries).scalarAt? "group" = some group →
    Writes (.mapping entries) (labels ++ [group])
  | ungrouped {entries : Mapping} {labels : List String} :
    ListsAt (.mapping entries) "labels" labels →
    (Value.mapping entries).scalarAt? "group" = none → Writes (.mapping entries) labels

inductive Includes (matrix : Value) (name : String) : List String → Prop
  | present {setting : Value} {combinations : List Value} :
    matrix.get? "include" = some setting → setting.asSequence? = some combinations →
    Includes matrix name (combinations.filterMap (·.scalarAt? name))
  | absent : (matrix.get? "include").bind Value.asSequence? = none → Includes matrix name []

def HasValues (matrix : Value) (name : String) (values : List String) : Prop :=
  ∃ own included, ListsAt matrix name own ∧ Includes matrix name included ∧
    values = own ++ included

inductive StandsFor : Option Value → String → List String → Prop
  | values {matrix : Value} {label name : String} {values : List String} :
    IsReference label name → HasValues matrix name values → values ≠ [] →
    StandsFor (some matrix) label values
  | valueless {matrix : Value} {label name : String} :
    IsReference label name → HasValues matrix name [] → StandsFor (some matrix) label [label]
  | plain {matrix? : Option Value} {label : String} :
    (∀ name, ¬IsReference label name) → StandsFor matrix? label [label]
  | unmatched {label : String} : StandsFor none label [label]

variable {v runsOn matrix : Value} {label name : String} {texts : List String}

theorem lists_scalars (v : Value) : Lists v v.scalars := by
  cases v with
  | sequence items => exact .list
  | bool | number | string => exact .scalar rfl
  | null | mapping | tagged => exact .neither rfl fun _ h => nomatch h

theorem listsAt_scalars (v : Value) (key : String) :
    ListsAt v key (((v.get? key).map Value.scalars).getD []) := by
  cases h : v.get? key with
  | none => exact .absent h
  | some setting => exact .present h (lists_scalars setting)

theorem writes_writtenLabels (runsOn : Value) : Writes runsOn (writtenLabels runsOn) := by
  cases runsOn with
  | mapping entries =>
    rw [writtenLabels]
    cases h : (Value.mapping entries).scalarAt? "group" with
    | none =>
      rw [Option.toList_none, List.append_nil]
      exact .ungrouped (listsAt_scalars _ _) h
    | some group => exact .grouped (listsAt_scalars _ _) h
  | null | bool | number | string | sequence | tagged =>
    exact .plain (fun _ h => nomatch h) (lists_scalars _)

theorem includes_scalars (matrix : Value) (name : String) : Includes matrix name
    ((((matrix.get? "include").bind Value.asSequence?).getD []).filterMap (·.scalarAt? name)) := by
  cases h : (matrix.get? "include").bind Value.asSequence? with
  | none => exact .absent h
  | some combinations =>
    obtain ⟨setting, hsetting, hcombinations⟩ := Option.bind_eq_some_iff.mp h
    exact .present hsetting hcombinations

theorem hasValues_dimensionValues (matrix : Value) (name : String) :
    HasValues matrix name (dimensionValues matrix name) :=
  ⟨_, _, listsAt_scalars matrix name, includes_scalars matrix name, rfl⟩

theorem standsFor_expandLabel (matrix? : Option Value) (label : String) :
    StandsFor matrix? label (expandLabel matrix? label) := by
  cases matrix? with
  | none =>
    rw [expandLabel]
    · exact .unmatched
    · intro _ _ _ hmatrix
      cases hmatrix
  | some matrix =>
    cases hname : matrixReference? label with
    | none =>
      simp only [expandLabel, hname]
      apply StandsFor.plain
      intro name hreference
      rw [matrixReference?_eq_some_iff.mpr hreference] at hname
      cases hname
    | some name =>
      have hreference := matrixReference?_eq_some_iff.mp hname
      have hvalues := hasValues_dimensionValues matrix name
      cases hdimension : dimensionValues matrix name with
      | nil =>
        simp only [expandLabel, hname, hdimension]
        exact .valueless hreference (hdimension ▸ hvalues)
      | cons value values =>
        simp only [expandLabel, hname, hdimension]
        exact .values hreference (hdimension ▸ hvalues) (List.cons_ne_nil value values)

theorem StandsFor.ne_nil {matrix? : Option Value} (h : StandsFor matrix? label texts) :
    texts ≠ [] := by
  cases h with
  | values _ _ hne => exact hne
  | valueless | plain | unmatched => exact List.cons_ne_nil _ _

theorem StandsFor.eq_of_plain {matrix? : Option Value} (h : StandsFor matrix? label texts)
    (hplain : ∀ name, ¬IsReference label name) : texts = [label] := by
  cases h with
  | values hreference | valueless hreference => exact absurd hreference (hplain _)
  | plain | unmatched => rfl

/-- The runners of a job are what its labels stand for, each where it first occurs. There are none
only if no label is written, and a label that refers to nothing is one of them. -/
theorem runnerLabels_firstOccurrences (runsOn : Value) (strategy : Option Value) :
    ∃ written meanings, Writes runsOn written ∧
      List.Forall₂ (StandsFor (strategy.bind (·.get? "matrix"))) written meanings ∧
      FirstOccurrences meanings.flatten (runnerLabels runsOn strategy) ∧
      (runnerLabels runsOn strategy).Nodup ∧
      (runnerLabels runsOn strategy = [] ↔ written = []) ∧
      ∀ label ∈ written, (∀ name, ¬IsReference label name) →
        label ∈ runnerLabels runsOn strategy := by
  let matrix? := strategy.bind (·.get? "matrix")
  have hmeans : ∀ label, StandsFor matrix? label (expandLabel matrix? label) :=
    standsFor_expandLabel matrix?
  have hfirst : FirstOccurrences ((writtenLabels runsOn).map (expandLabel matrix?)).flatten
      (runnerLabels runsOn strategy) := firstOccurrences_eraseDups _
  refine ⟨writtenLabels runsOn, (writtenLabels runsOn).map (expandLabel matrix?),
    writes_writtenLabels runsOn, ?_, hfirst, hfirst.nodup, ?_, ?_⟩
  · apply List.forall₂_map_right_iff.mpr
    apply List.forall₂_same.mpr
    intro label _
    exact hmeans label
  · rw [List.eq_nil_iff_forall_not_mem, List.eq_nil_iff_forall_not_mem]
    constructor
    · intro hnone label hlabel
      obtain ⟨text, htext⟩ := List.exists_mem_of_ne_nil _ (hmeans label).ne_nil
      apply hnone text
      rw [hfirst.mem_iff, List.mem_flatten]
      exact ⟨_, List.mem_map_of_mem hlabel, htext⟩
    · intro hnone text htext
      rw [hfirst.mem_iff, List.mem_flatten] at htext
      obtain ⟨meaning, hmeaning, -⟩ := htext
      obtain ⟨label, hlabel, -⟩ := List.mem_map.mp hmeaning
      exact hnone label hlabel
  · intro label hlabel hplain
    rw [hfirst.mem_iff, List.mem_flatten]
    refine ⟨_, List.mem_map_of_mem hlabel, ?_⟩
    rw [(hmeans label).eq_of_plain hplain]
    exact List.mem_singleton_self label

section Sample

def groupedRunners : Value :=
  .mapping [(.string "group", .string "gpu"),
    (.string "labels", .sequence [.string "$\x7b\x7bmatrix.os \x7d\x7d", .null, .string "linux"])]

def includingStrategy : Value :=
  .mapping [(.string "matrix", .mapping [
    (.string "os", .sequence [.string "macos-14", .sequence [], .string "linux"]),
    (.string "include", .sequence [.mapping [(.string "os", .number (.int 7))],
      .mapping [(.string "os", .string "macos-14")]])])]

theorem not_isReference_gpu (name : String) : ¬IsReference "gpu" name := by
  intro h
  have hname := matrixReference?_eq_some_iff.mpr h
  have hnone : matrixReference? "gpu" = none := by decide +kernel
  rw [hnone] at hname
  cases hname

theorem runnerLabels_firstOccurrences_groupedRunners :
    runnerLabels groupedRunners (some includingStrategy) = ["macos-14", "linux", "7", "gpu"] ∧
      "gpu" ∈ runnerLabels groupedRunners (some includingStrategy) := by
  obtain ⟨written, -, hwritten, -, -, -, -, hkept⟩ :=
    runnerLabels_firstOccurrences groupedRunners (some includingStrategy)
  refine ⟨by decide +kernel, hkept "gpu" ?_ not_isReference_gpu⟩
  cases hwritten with
  | plain hmapping => exact absurd rfl (hmapping _)
  | grouped _ hgroup =>
    obtain rfl : "gpu" = _ := Option.some.inj hgroup
    exact List.mem_append_right _ (List.mem_singleton_self _)
  | ungrouped _ hgroup => cases hgroup

end Sample

end WorkflowAudit.Workflow
