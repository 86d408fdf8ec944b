import WorkflowAudit.Proofs.Lint.MatrixLaws
import WorkflowAudit.Proofs.Yaml.MappingLaws
import WorkflowAudit.Proofs.Yaml.ReadLaws

namespace WorkflowAudit.Lint

open Json (IsWord)
open Workflow (Document Job JobEntry Matrix jobEntries mem_jobEntries_iff)
open Yaml (Value Mapping)

def isDimensionKey : Value → Bool
  | .string name => name ≠ "include" && name ≠ "exclude"
  | _ => true

structure WrittenOut (entries : Mapping) (lists : List (List Value)) : Prop where
  names : ∀ e ∈ entries, isDimensionKey e.1 → ∃ name, e.1 = .string name
  lists_eq : (entries.filter (isDimensionKey ·.1)).map (·.2) = lists.map .sequence

structure MappingMatrix (e : Value × Value) (entries : Mapping) : Prop extends JobEntry e where
  matrix_eq : (e.2.get? "strategy").bind (·.get? "matrix") = some (.mapping entries)

def sayCombinations (job : String) (dimensions combinations : Nat) : String :=
  job ++ " (" ++ toString dimensions ++ " dimensions, " ++ toString combinations ++
    " combinations)"

def largeMatrixFindings (file : String) : List String → List Finding
  | [] => []
  | prints => [(Detection.warning ("Large matrix in jobs [" ++ Text.joined ", " prints ++
      "]")).inFile "LARGE_MATRIX" file]

/-- The dimensions of each matrix are counted, and its combinations as the product of the sizes of
the dimensions if these fit. Unless the rule fails, both numbers are printed of a matrix with more
than two dimensions. -/
def CountsCombinations (size : List Value → Nat) (Fits : List (List Value) → Prop)
    (text file : String) (root : Value) : Prop :=
  ∃ print : Value × Value → Option String,
    ((Engine.builtin.evaluate (Document.parse text) file).failures = [] →
      (builtinFindings text file).filter (·.rule = "LARGE_MATRIX") =
        largeMatrixFindings file ((jobEntries root).filterMap print)) ∧
    ∀ e ∈ jobEntries root, ∀ (entries : Mapping) (lists : List (List Value)),
      MappingMatrix e entries → WrittenOut entries lists → Fits lists →
        ∃ j ∈ (Document.parse text).jobs, Job.ofEntry? e = some j ∧
          (∃ m, j.matrix = some m ∧ m.dimensionCount = lists.length ∧
            m.combinations? = some (lists.map size).prod) ∧
          print e = if 2 < lists.length then
              some (sayCombinations j.id lists.length (lists.map size).prod) else none

def isScalar : Value → Bool
  | .bool _ | .number _ | .string _ => true
  | _ => false

section Products

variable {α : Type} {p : α → Bool} {lists : List (List α)}

theorem prod_countP_le : (lists.map (List.countP p)).prod ≤ (lists.map List.length).prod :=
  List.prod_le_prod' fun _ _ => List.countP_le_length

theorem prod_nonzero_countP_le (hnil : [] ∉ lists) :
    ((lists.map (List.countP p)).filter (· ≠ 0)).prod ≤ (lists.map List.length).prod := by
  induction lists with
  | nil => exact Nat.le_refl _
  | cons items lists ih =>
    rw [List.mem_cons, not_or] at hnil
    have hitems : 0 < items.length := List.length_pos_of_ne_nil (Ne.symm hnil.1)
    have hrest := ih hnil.2
    -- A list none of whose items count is a factor on the right only.
    rw [List.map_cons, List.map_cons, List.prod_cons, List.filter_cons]
    split
    · rw [List.prod_cons]
      exact Nat.mul_le_mul List.countP_le_length hrest
    · exact Nat.le_trans hrest (Nat.le_mul_of_pos_left _ hitems)

theorem prod_countP_eq_iff :
    (lists.map (List.countP p)).prod = (lists.map List.length).prod ↔
      [] ∈ lists ∨ ∀ items ∈ lists, ∀ v ∈ items, p v := by
  by_cases hempty : [] ∈ lists
  · have hzero : ∀ size : List α → Nat, size [] = 0 → (lists.map size).prod = 0 :=
      fun size hsize => List.prod_eq_zero (hsize ▸ List.mem_map_of_mem hempty)
    rw [hzero _ List.countP_nil, hzero _ List.length_nil]
    exact iff_of_true rfl (.inl hempty)
  · rw [or_iff_right hempty]
    induction lists with
    | nil => simp
    | cons items lists ih =>
      rw [List.mem_cons, not_or] at hempty
      have hitems : 0 < items.length := List.length_pos_of_ne_nil (Ne.symm hempty.1)
      have hlists : 0 < (lists.map List.length).prod := by
        refine Nat.pos_of_ne_zero fun hzero => hempty.2 ?_
        obtain ⟨items, hmem, hnil⟩ := List.mem_map.mp (List.prod_eq_zero_iff.mp hzero)
        exact List.length_eq_zero_iff.mp hnil ▸ hmem
      have hcount : items.countP p ≤ items.length := List.countP_le_length
      have hprod : (lists.map (List.countP p)).prod ≤ (lists.map List.length).prod :=
        prod_countP_le
      rw [List.map_cons, List.map_cons, List.prod_cons, List.prod_cons, List.forall_mem_cons,
        ← ih hempty.2, ← List.countP_eq_length]
      constructor
      · intro heq
        have hfirst : items.countP p = items.length := by
          refine Nat.le_antisymm hcount (Nat.le_of_not_lt fun hlt => Nat.ne_of_lt ?_ heq)
          calc items.countP p * (lists.map (List.countP p)).prod
            _ ≤ items.countP p * (lists.map List.length).prod := Nat.mul_le_mul_left _ hprod
            _ < items.length * (lists.map List.length).prod :=
                Nat.mul_lt_mul_of_pos_right hlt hlists
        rw [hfirst] at heq
        exact ⟨hfirst, Nat.eq_of_mul_eq_mul_left hitems heq⟩
      · rintro ⟨hfirst, hrest⟩
        rw [hfirst, hrest]

end Products

section Dimensions

variable {entries : Mapping} {lists : List (List Value)} {e : Value × Value} {name : String}

theorem length_scalars_sequence (items : List Value) :
    (Value.sequence items).scalars.length = items.countP isScalar := by
  rw [Value.scalars, List.length_filterMap_eq_countP]
  congr 1
  funext v
  cases v <;> rfl

theorem isDimensionKey_of_dimensionOfYaml? {values : List String}
    (h : Matrix.dimensionOfYaml? e.1 e.2 = some (name, values)) : isDimensionKey e.1 := by
  obtain ⟨key, value⟩ := e
  cases key with
  | string s =>
    simp only [Matrix.dimensionOfYaml?, Value.asString?, Value.untagged, Option.bind_eq_bind,
      Option.bind_some, Option.bind_eq_some_iff, guard] at h
    simp only [isDimensionKey]
    split at h
    · rename_i hname
      simpa using hname
    · simp at h
  | null | bool | number | sequence | mapping | tagged => rfl

namespace WrittenOut

variable (h : WrittenOut entries lists)

include h

theorem dimensionOfYaml?_eq (he : e ∈ entries) (hkey : isDimensionKey e.1) :
    ∃ name, e.1 = .string name ∧ Matrix.dimensionOfYaml? e.1 e.2 = some (name, e.2.scalars) := by
  obtain ⟨name, hname⟩ := h.names e he hkey
  have hmem : e.2 ∈ lists.map Value.sequence := by
    rw [← h.lists_eq]
    exact List.mem_map_of_mem (List.mem_filter.mpr ⟨he, hkey⟩)
  obtain ⟨items, -, hitems⟩ := List.mem_map.mp hmem
  refine ⟨name, hname, ?_⟩
  rw [hname] at hkey
  rw [hname, ← hitems]
  simp only [isDimensionKey, Bool.and_eq_true, decide_eq_true_eq] at hkey
  simp [Matrix.dimensionOfYaml?, Value.asString?, Value.untagged, guard, hkey, Value.scalars]

theorem values_eq : (entries.filterMap fun (k, v) => Matrix.dimensionOfYaml? k v).map (·.2) =
    lists.map fun items => (Value.sequence items).scalars := by
  have hkept : entries.filterMap (fun (k, v) => Matrix.dimensionOfYaml? k v) =
      (entries.filter (isDimensionKey ·.1)).filterMap fun (k, v) =>
        Matrix.dimensionOfYaml? k v := by
    rw [List.filterMap_filter]
    refine List.filterMap_congr fun e _ => ?_
    cases hdimension : Matrix.dimensionOfYaml? e.1 e.2 with
    | none => simp [hdimension]
    | some d => simp [hdimension, isDimensionKey_of_dimensionOfYaml? hdimension]
  have hscalars : ∀ e ∈ entries.filter (isDimensionKey ·.1),
      (Matrix.dimensionOfYaml? e.1 e.2).map (·.2) = some e.2.scalars := by
    intro e he
    obtain ⟨hmem, hkey⟩ := List.mem_filter.mp he
    obtain ⟨name, -, hdimension⟩ := h.dimensionOfYaml?_eq hmem hkey
    rw [hdimension, Option.map_some]
  calc (entries.filterMap fun (k, v) => Matrix.dimensionOfYaml? k v).map (·.2)
    _ = (entries.filter (isDimensionKey ·.1)).filterMap
          fun e => (Matrix.dimensionOfYaml? e.1 e.2).map (·.2) := by rw [hkept, List.map_filterMap]
    _ = (entries.filter (isDimensionKey ·.1)).filterMap (some ·.2.scalars) :=
        List.filterMap_congr hscalars
    _ = ((entries.filter (isDimensionKey ·.1)).map (·.2)).map Value.scalars := by simp
    _ = _ := by simp [h.lists_eq]

theorem nodup_names (hdistinct : entries.DistinctKeys) :
    ((entries.filterMap fun (k, v) => Matrix.dimensionOfYaml? k v).map (·.1)).Nodup := by
  rw [List.Nodup, List.pairwise_map, List.pairwise_filterMap]
  refine List.Pairwise.imp_of_mem (fun {a b} ha hb hne => ?_) hdistinct
  rintro ⟨m, values⟩ hm ⟨n, values'⟩ hn rfl
  obtain ⟨m', hkey, hm'⟩ := h.dimensionOfYaml?_eq ha (isDimensionKey_of_dimensionOfYaml? hm)
  obtain ⟨n', hkey', hn'⟩ := h.dimensionOfYaml?_eq hb (isDimensionKey_of_dimensionOfYaml? hn)
  have hm : m = m' := congrArg Prod.fst (Option.some.inj (hm.symm.trans hm'))
  have hn : m = n' := congrArg Prod.fst (Option.some.inj (hn.symm.trans hn'))
  rw [hkey, hkey', ← hm, ← hn, Value.same_refl] at hne
  cases hne

theorem matrix_eq (hdistinct : entries.DistinctKeys) :
    ∃ m, Matrix.ofYaml? (.mapping entries) = some m ∧ m.dimensionCount = lists.length ∧
      (m.dimensions.values.map List.length).Perm (lists.map (List.countP isScalar)) := by
  have hperm := KeyMap.perm_entries_ofList (h.nodup_names hdistinct)
  refine ⟨_, rfl, ?_, ?_⟩
  · calc KeyMap.size (.ofList (entries.filterMap fun (k, v) => Matrix.dimensionOfYaml? k v))
      _ = ((entries.filterMap fun (k, v) => Matrix.dimensionOfYaml? k v).map (·.2)).length := by
        rw [KeyMap.size, hperm.length_eq, List.length_map]
      _ = lists.length := by rw [h.values_eq, List.length_map]
  · have hsizes := (hperm.map Prod.snd).map List.length
    rw [h.values_eq] at hsizes
    have hcounts : lists.map (List.length ∘ fun items => (Value.sequence items).scalars) =
        lists.map (List.countP isScalar) :=
      List.map_congr_left fun items _ => length_scalars_sequence items
    exact hsizes.trans (.of_eq (List.map_map.trans hcounts))

end WrittenOut

theorem MappingMatrix.distinctKeys {root : Value} (h : MappingMatrix e entries)
    (hroot : root.Regular) (he : e ∈ jobEntries root) : entries.DistinctKeys := by
  have hvalue : e.2.Regular := by
    obtain ⟨jobs, hjobs, he⟩ := mem_jobEntries_iff.mp he
    have hsection := Value.inherited_regular.of_get? hroot hjobs
    exact (Value.inherited_regular.entries hsection e he).2
  obtain ⟨strategy, hstrategy, hmatrix⟩ := Option.bind_eq_some_iff.mp h.matrix_eq
  have hregular := Value.inherited_regular.of_get? hvalue hstrategy
  exact (Value.inherited_regular.of_get? hregular hmatrix).distinctKeys

end Dimensions

/-- The scalars of the lists can be multiplied, in whatever order: lists without scalars aside, the
product is a word. -/
def ScalarsFit (lists : List (List Value)) : Prop :=
  IsWord ((lists.map (List.countP isScalar)).filter (· ≠ 0)).prod

/-- The product is the same in the order of the names, in which it is computed. -/
theorem combinations?_of_scalarsFit {m : Matrix} {lists : List (List Value)}
    (hsizes : (m.dimensions.values.map List.length).Perm (lists.map (List.countP isScalar)))
    (hfit : ScalarsFit lists) :
    m.combinations? = some (lists.map (List.countP isScalar)).prod := by
  have hfits : Matrix.StaysInWord (m.dimensions.values.map List.length) := by
    refine Matrix.staysInWord_of_nonzero ?_
    rw [(hsizes.filter _).prod_eq]
    exact hfit
  exact Matrix.combinations?_eq_some_iff.mpr ⟨hsizes.prod_eq.symm, hfits⟩

def printMatrix? (j : Job) : Option String :=
  if HasLargeMatrix j then some (describeMatrix j) else none

theorem printMatrix?_eq {j : Job} {m : Matrix} (h : j.matrix = some m) : printMatrix? j =
    if 2 < m.dimensionCount then
      some (sayCombinations j.id m.dimensionCount (m.dimensions.values.map List.length).prod)
    else none := by
  have hlarge : HasLargeMatrix j ↔ 2 < m.dimensionCount := by
    rw [HasLargeMatrix, h]
    simp [Matrix.dimensionCount, KeyMap.size]
  rw [printMatrix?, if_congr hlarge rfl rfl, describeMatrix, h]
  rfl

theorem filter_findings_largeMatrix {text : String} (file : String) {root : Value}
    (h : Yaml.read text = .ok root) (hcounts : CountsLargeMatrices (Document.parse text)) :
    (builtinFindings text file).filter (·.rule = "LARGE_MATRIX") =
      largeMatrixFindings file
        ((jobEntries root).filterMap fun e => (Job.ofEntry? e).bind printMatrix?) := by
  have hrule : Engine.builtinRules.filter (·.id = "LARGE_MATRIX") =
      [⟨"LARGE_MATRIX", "matrix with more than two dimensions", Rules.largeMatrix⟩] := rfl
  have hprints : ((Document.parse text).jobs.filter Rules.hasLargeMatrix).map describeMatrix =
      (Document.parse text).jobs.filterMap printMatrix? := by
    rw [← List.filterMap_eq_map, List.filterMap_filter]
    refine List.filterMap_congr fun j _ => ?_
    rw [printMatrix?, if_congr Row.hasLargeMatrix_iff rfl rfl]
    rfl
  rw [builtinFindings, Engine.filter_findings_builtin_rule _ _ hrule,
    Rule.findingsIn_of_detected _ _ _ (Row.largeMatrix_of_counts hcounts), hprints, namingAll_eq,
    ← List.filterMap_filterMap, ← Workflow.jobs_parse h]
  cases (Document.parse text).jobs.filterMap printMatrix? with
  | nil => rw [if_pos rfl, List.map_nil, largeMatrixFindings]
  | cons print prints =>
    rw [if_neg (List.cons_ne_nil print prints), List.map_singleton, largeMatrixFindings]
    exact List.cons_ne_nil print prints

/-- The scalars of the dimensions are what is multiplied. This yields the number of combinations
exactly if all values are scalars or there is no combination at all. The product fits where that of
the lengths does, unless a list is empty. -/
theorem countsCombinations_scalars (text file : String) (root : Value)
    (h : Yaml.read text = .ok root) :
    CountsCombinations (List.countP isScalar) ScalarsFit text file root ∧
      ((Engine.builtin.evaluate (Document.parse text) file).failures = [] ↔
        CountsLargeMatrices (Document.parse text)) ∧
      ∀ lists : List (List Value),
        ([] ∉ lists → (lists.map List.length).prod < 2 ^ 64 → ScalarsFit lists) ∧
        ((lists.map (List.countP isScalar)).prod = (lists.map List.length).prod ↔
          [] ∈ lists ∨ ∀ items ∈ lists, ∀ v ∈ items, isScalar v) := by
  refine ⟨⟨fun e => (Job.ofEntry? e).bind printMatrix?, fun hfailures => ?_, ?_⟩,
    failures_builtin_eq_nil_iff, fun lists => ⟨fun hnil hlengths => ?_, prod_countP_eq_iff⟩⟩
  · exact filter_findings_largeMatrix file h (failures_builtin_eq_nil_iff.mp hfailures)
  · intro e he entries lists hmatrix hlists hfit
    obtain ⟨id, hid⟩ := hmatrix.key
    obtain ⟨m, hm, hcount, hsizes⟩ :=
      hlists.matrix_eq (hmatrix.distinctKeys (Yaml.read_regular h) he)
    have hjob : Job.ofEntry? e = some (Job.ofYaml id e.2) :=
      Workflow.Job.ofEntry?_eq_some_iff.mpr ⟨hmatrix.toJobEntry, id, hid, rfl⟩
    have hjobs : Job.ofYaml id e.2 ∈ (Document.parse text).jobs := by
      rw [Workflow.jobs_parse h]
      exact List.mem_filterMap.mpr ⟨e, he, hjob⟩
    have hread : (Job.ofYaml id e.2).matrix = some m := by
      rw [← hm]
      exact congrArg (·.bind Matrix.ofYaml?) hmatrix.matrix_eq
    refine ⟨_, hjobs, hjob, ⟨m, hread, hcount, combinations?_of_scalarsFit hsizes hfit⟩, ?_⟩
    change (Job.ofEntry? e).bind printMatrix? = _
    rw [hjob, Option.bind_some, printMatrix?_eq hread, hcount, hsizes.prod_eq]
  · exact Nat.lt_of_le_of_lt (prod_nonzero_countP_le hnil) hlengths

def mappingValues : String :=
  "on: push\njobs:\n  t:\n    runs-on: ubuntu-latest\n    strategy:\n      fail-fast: false\n" ++
    "      matrix:\n        os: [a, b]\n        node: [x, y]\n" ++
    "        compiler: [\x7bcc: gcc\x7d, \x7bcc: clang\x7d]\n"

def mappingLists : List (List Value) :=
  [[.string "a", .string "b"], [.string "x", .string "y"],
    [.mapping [(.string "cc", .string "gcc")], .mapping [(.string "cc", .string "clang")]]]

def mappingEntries : Mapping :=
  (["os", "node", "compiler"].map .string).zip (mappingLists.map .sequence)

def mappingEntry : Value × Value :=
  (.string "t", .mapping [(.string "runs-on", .string "ubuntu-latest"),
    (.string "strategy", .mapping [(.string "fail-fast", .bool false),
      (.string "matrix", .mapping mappingEntries)])])

def mappingRoot : Value :=
  .mapping [(.string "on", .string "push"), (.string "jobs", .mapping [mappingEntry])]

theorem read_mappingValues : Yaml.read mappingValues = .ok mappingRoot :=
  Yaml.read_eq_of_readsExactly (by decide +kernel)

theorem mappingMatrix_mappingEntry : MappingMatrix mappingEntry mappingEntries where
  key := ⟨"t", rfl⟩
  value := ⟨_, rfl⟩
  matrix_eq := rfl

theorem writtenOut_mappingEntries : WrittenOut mappingEntries mappingLists where
  names := by simp [mappingEntries, mappingLists]
  lists_eq := rfl

theorem countsCombinations_scalars_mappingValues :
    ScalarsFit mappingLists ∧
      ∃ j ∈ (Document.parse mappingValues).jobs, ∃ m, j.matrix = some m ∧ m.dimensionCount = 3 ∧
        m.combinations? = some 0 := by
  obtain ⟨⟨print, -, hprint⟩, -, hlists⟩ :=
    countsCombinations_scalars mappingValues "ci.yml" mappingRoot read_mappingValues
  have hfit : ScalarsFit mappingLists :=
    (hlists mappingLists).1 (by simp [mappingLists]) (by decide)
  obtain ⟨j, hj, -, ⟨m, hm, hcount, hproduct⟩, -⟩ :=
    hprint mappingEntry (List.mem_singleton_self _) mappingEntries mappingLists
      mappingMatrix_mappingEntry writtenOut_mappingEntries hfit
  exact ⟨hfit, j, hj, m, hm, hcount, hproduct⟩

/-- Mappings among the values of a dimension make combinations that are not counted. -/
theorem not_countsCombinations_length : ¬∀ (text file : String) (root : Value),
    Yaml.read text = .ok root → CountsCombinations List.length
      (fun lists => (lists.map List.length).prod < 2 ^ 64) text file root := by
  intro h
  obtain ⟨print, -, hprint⟩ := h mappingValues "ci.yml" mappingRoot read_mappingValues
  obtain ⟨j, hj, hjob, ⟨m, hm, -, hclaimed⟩, -⟩ :=
    hprint mappingEntry (List.mem_singleton_self _) mappingEntries mappingLists
      mappingMatrix_mappingEntry writtenOut_mappingEntries (by decide)
  have hcounted : (Job.ofEntry? mappingEntry).bind (·.matrix.bind (·.combinations?)) = some 0 := by
    decide +kernel
  rw [hjob, Option.bind_some, hm, Option.bind_some, hclaimed] at hcounted
  revert hcounted
  decide

end WorkflowAudit.Lint
