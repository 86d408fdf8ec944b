import WorkflowAudit.Proofs.Lint.EngineLaws
import WorkflowAudit.Proofs.Lint.RuleTableLaws
import WorkflowAudit.Proofs.Workflow.JobLaws
import WorkflowAudit.Proofs.Yaml.ExactLaws

namespace WorkflowAudit.Lint

open Rules (RunnerFamily namingAll)
open Workflow (Document Job JobEntry Matrix jobEntries IsReference dimensionValues)
open Yaml (Value Mapping)

def builtinFindings (text file : String) : List Finding :=
  (Engine.builtin.evaluate (Document.parse text) file).findings

/-- The findings on some entries of a jobs section: one that lists the names of all of them, or none
if there are none. -/
structure NamesEntries (findings : List Finding) (say : String → Finding)
    (entries named : Mapping) : Prop where
  sublist : named.Sublist entries
  findings_eq : findings = match named.filterMap (·.1.scalar?) with
    | [] => []
    | names => [say (Text.joined ", " names)]

section Entries

variable {text file : String} {root : Value} {e : Value × Value} {entries named : Mapping}
  {say : String → Finding}

theorem NamesEntries.eq_nil {findings : List Finding} (h : NamesEntries findings say entries []) :
    findings = [] := h.findings_eq

theorem NamesEntries.not_mem_of_nil (h : NamesEntries [] say entries named) {id : String}
    (hid : e.1.scalar? = some id) : e ∉ named := by
  intro he
  have hmem : id ∈ named.filterMap (·.1.scalar?) := List.mem_filterMap.mpr ⟨e, he, hid⟩
  have heq := h.findings_eq
  cases hnames : named.filterMap (·.1.scalar?) with
  | nil => simp [hnames] at hmem
  | cons name names => simp [hnames] at heq

theorem namesEntries_namingAll (h : Yaml.read text = .ok root) (P : Job → Bool)
    (detection : String → Detection) (rule file : String) :
    NamesEntries
      ((namingAll (((Document.parse text).jobs.filter P).map (·.id)) detection).map
        (·.inFile rule file))
      (fun names => (detection names).inFile rule file) (jobEntries root)
      ((jobEntries root).filter fun e => (Job.ofEntry? e).any P) where
  sublist := List.filter_sublist
  findings_eq := by
    rw [Workflow.jobs_parse h, Workflow.ids_filter_jobs]
    split
    case h_1 hnames => rw [hnames]; rfl
    case h_2 hnames =>
      rw [namingAll_eq, if_neg hnames]
      rfl

end Entries

/-! ### Explicit `fail-fast` -/

def HasMatrix (strategy : Value) : Prop :=
  ∃ matrix, strategy.get? "matrix" = some matrix ∧
    ((∃ expression, matrix = .string expression) ∨ ∃ dimensions, matrix = .mapping dimensions)

structure MatrixEntry (e : Value × Value) (strategy : Value) : Prop extends JobEntry e where
  strategy_eq : e.2.get? "strategy" = some strategy
  matrix : HasMatrix strategy

def sayUnset (names : String) : Detection :=
  .info ("Matrix without explicit \u0060fail-fast\u0060 in jobs [" ++ names ++ "]")

def LeavesUnset (Explicit : Value → Prop) (e : Value × Value) : Prop :=
  ∃ strategy, MatrixEntry e strategy ∧
    ∀ value, strategy.get? "fail-fast" = some value → ¬Explicit value

def NamesUnset (Explicit : Value → Prop) (text file : String) (root : Value) : Prop :=
  ∃ named : Mapping,
    NamesEntries ((builtinFindings text file).filter (·.rule = "MATRIX_NO_FAILFAST"))
      (fun names => (sayUnset names).inFile "MATRIX_NO_FAILFAST" file) (jobEntries root) named ∧
    ∀ e ∈ jobEntries root, e ∈ named ↔ LeavesUnset Explicit e

def IsTruthLiteral (v : Value) : Prop :=
  (∃ b, v = .bool b) ∨ v = .string "true" ∨ v = .string "false"

section FailFast

variable {v : Value} {e : Value × Value}

theorem failFastOfYaml?_eq_none_iff : Job.failFastOfYaml? v = none ↔ ¬IsTruthLiteral v := by
  unfold Job.failFastOfYaml? IsTruthLiteral
  split <;> simp_all

theorem isSome_matrixOfYaml?_iff : (Matrix.ofYaml? v).isSome ↔
    (∃ expression, v = .string expression) ∨ ∃ dimensions, v = .mapping dimensions := by
  cases v <;> simp [Matrix.ofYaml?]

theorem lacksFailFast_ofYaml_iff {id : String} :
    ((Job.ofYaml id v).matrix.isSome && (Job.ofYaml id v).failFast.isNone) ↔
      ∃ strategy, v.get? "strategy" = some strategy ∧ HasMatrix strategy ∧
        ∀ value, strategy.get? "fail-fast" = some value → ¬IsTruthLiteral value := by
  simp only [Job.ofYaml, Bool.and_eq_true, Option.isNone_iff_eq_none, Option.isSome_bind,
    Option.bind_eq_none_iff, failFastOfYaml?_eq_none_iff]
  cases v.get? "strategy" with
  | none => simp
  | some strategy => simp [HasMatrix, Option.any_eq_true, isSome_matrixOfYaml?_iff]

theorem any_lacksFailFast_iff :
    (Job.ofEntry? e).any (fun j => j.matrix.isSome && j.failFast.isNone) ↔
      LeavesUnset IsTruthLiteral e := by
  simp only [Workflow.any_ofEntry?_iff, lacksFailFast_ofYaml_iff]
  constructor
  · rintro ⟨he, id, -, strategy, hstrategy, hmatrix, hvalue⟩
    exact ⟨strategy, ⟨he, hstrategy, hmatrix⟩, hvalue⟩
  · rintro ⟨strategy, he, hvalue⟩
    obtain ⟨id, hid⟩ := he.key
    exact ⟨he.toJobEntry, id, hid, strategy, he.strategy_eq, he.matrix, hvalue⟩

theorem leavesUnset_congr_iff {Explicit Literal : Value → Prop} (h : ∀ v, Literal v → Explicit v) :
    (LeavesUnset Literal e ↔ LeavesUnset Explicit e) ↔
      ∀ strategy value, MatrixEntry e strategy → strategy.get? "fail-fast" = some value →
        Explicit value → Literal value := by
  constructor
  · intro hiff strategy value he hvalue hexplicit
    by_contra hliteral
    have hunset : LeavesUnset Literal e := by
      refine ⟨strategy, he, fun value' hvalue' => ?_⟩
      obtain rfl := Option.some.inj (hvalue.symm.trans hvalue')
      exact hliteral
    obtain ⟨strategy', he', hnone⟩ := hiff.mp hunset
    obtain rfl := Option.some.inj (he.strategy_eq.symm.trans he'.strategy_eq)
    exact hnone value hvalue hexplicit
  · intro hbetween
    refine exists_congr fun strategy => and_congr_right fun he =>
      forall₂_congr fun value hvalue => ?_
    exact not_congr ⟨h value, hbetween strategy value he hvalue⟩

end FailFast

/-- Named are the jobs without a truth literal for `fail-fast`. These are the jobs without a value
exactly where every value is a truth literal. -/
theorem namesUnset_truthLiteral (text file : String) (root : Value)
    (h : Yaml.read text = .ok root) :
    NamesUnset IsTruthLiteral text file root ∧
      ∀ e ∈ jobEntries root, (LeavesUnset IsTruthLiteral e ↔ LeavesUnset (· ≠ .null) e) ↔
        ∀ strategy value, MatrixEntry e strategy → strategy.get? "fail-fast" = some value →
          value ≠ .null → IsTruthLiteral value := by
  have hrule : Engine.builtinRules.filter (·.id = "MATRIX_NO_FAILFAST") =
      [.ofDetections "MATRIX_NO_FAILFAST" "matrix job without an explicit fail-fast setting"
        Rules.matrixNoFailFast] := rfl
  have hnull : ∀ v, IsTruthLiteral v → v ≠ .null := by
    rintro v (⟨b, rfl⟩ | rfl | rfl) <;> exact Value.noConfusion
  refine ⟨?_, fun e _ => leavesUnset_congr_iff hnull⟩
  rw [NamesUnset, builtinFindings, Engine.filter_findings_builtin _ _ hrule]
  refine ⟨_, namesEntries_namingAll h (fun j => j.matrix.isSome && j.failFast.isNone) sayUnset
    "MATRIX_NO_FAILFAST" file, fun e he => ?_⟩
  rw [List.mem_filter, any_lacksFailFast_iff]
  exact and_iff_right he

def dynamicFailFast : String :=
  "on: push\njobs:\n  t:\n    runs-on: ubuntu-latest\n    strategy:\n      " ++
    "fail-fast: $\x7b\x7b inputs.fast \x7d\x7d\n      matrix:\n        os: [a, b]\n"

def dynamicStrategy : Value :=
  .mapping [(.string "fail-fast", .string "$\x7b\x7b inputs.fast \x7d\x7d"),
    (.string "matrix", .mapping [(.string "os", .sequence [.string "a", .string "b"])])]

def dynamicEntry : Value × Value :=
  (.string "t", .mapping [(.string "runs-on", .string "ubuntu-latest"),
    (.string "strategy", dynamicStrategy)])

def dynamicRoot : Value :=
  .mapping [(.string "on", .string "push"), (.string "jobs", .mapping [dynamicEntry])]

theorem read_dynamicFailFast : Yaml.read dynamicFailFast = .ok dynamicRoot :=
  Yaml.read_eq_of_readsExactly (by decide +kernel)

theorem matrixEntry_dynamicEntry : MatrixEntry dynamicEntry dynamicStrategy where
  key := ⟨"t", rfl⟩
  value := ⟨_, rfl⟩
  strategy_eq := rfl
  matrix := ⟨_, rfl, .inr ⟨_, rfl⟩⟩

theorem namesUnset_truthLiteral_dynamicFailFast : ∃ named : Mapping,
    NamesEntries ((builtinFindings dynamicFailFast "ci.yml").filter (·.rule = "MATRIX_NO_FAILFAST"))
      (fun names => (sayUnset names).inFile "MATRIX_NO_FAILFAST" "ci.yml") [dynamicEntry] named ∧
    dynamicEntry ∈ named := by
  obtain ⟨⟨named, hnames, hnamed⟩, -⟩ :=
    namesUnset_truthLiteral dynamicFailFast "ci.yml" dynamicRoot read_dynamicFailFast
  refine ⟨named, hnames, (hnamed dynamicEntry (List.mem_singleton_self _)).mpr ?_⟩
  refine ⟨dynamicStrategy, matrixEntry_dynamicEntry, fun value hvalue => ?_⟩
  obtain rfl : Value.string "$\x7b\x7b inputs.fast \x7d\x7d" = value := Option.some.inj hvalue
  simp [IsTruthLiteral]

/-- An expression is a value, but the job is named nonetheless. -/
theorem not_namesUnset_null : ¬∀ (text file : String) (root : Value),
    Yaml.read text = .ok root → NamesUnset (· ≠ .null) text file root := by
  intro h
  obtain ⟨named, hnames, hnamed⟩ := h dynamicFailFast "ci.yml" dynamicRoot read_dynamicFailFast
  -- The only job has a value for `fail-fast`, so that no job is named.
  have hentry : dynamicEntry ∉ named := by
    rw [hnamed dynamicEntry (List.mem_singleton_self _)]
    rintro ⟨strategy, hstrategy, hnull⟩
    obtain rfl : dynamicStrategy = strategy := Option.some.inj hstrategy.strategy_eq
    exact hnull (.string "$\x7b\x7b inputs.fast \x7d\x7d") rfl Value.noConfusion
  have hnone : named = [] := by
    rcases List.sublist_singleton.mp hnames.sublist with hnil | hself
    · exact hnil
    · exact absurd (hself ▸ List.mem_singleton_self _) hentry
  have hfound : (builtinFindings dynamicFailFast "ci.yml").filter
      (·.rule = "MATRIX_NO_FAILFAST") ≠ [] := by decide +kernel
  rw [hnone] at hnames
  exact hfound hnames.eq_nil

/-! ### Runners of a dimension -/

structure RunsOnDimension (e : Value × Value) (matrix : Value) (name : String)
    (values : List String) : Prop extends JobEntry e where
  runsOn : ∃ label, e.2.get? "runs-on" = some (.string label) ∧ IsReference label name
  strategy : ∃ strategy, e.2.get? "strategy" = some strategy ∧ strategy.get? "matrix" = some matrix
  dimension : ∃ items, matrix.get? name = some (.sequence items) ∧
    items.map Value.scalar? = values.map some

def sayRunners (f : RunnerFamily) (onAll : Bool) (names : String) : Detection where
  severity := if onAll then .warning else .info
  message := f.label ++ " runners (" ++ toString f.costMultiplier ++ "x Linux cost) in jobs [" ++
    names ++ "] " ++ if onAll then "run on all branches" else "limited to protected branch"
  tag := some f.tag

/-- Of the jobs that run on the values of a dimension, one of them of a family, those are named for
the family that the values do not exempt. -/
def NamesRunners (Exempt : List String → Prop) (text file : String) (root : Value)
    (f : RunnerFamily) : Prop :=
  ∃ (named : Mapping) (onAll : Bool),
    NamesEntries ((builtinFindings text file).filter fun x =>
        x.rule = "EXPENSIVE_RUNNER" ∧ x.tag = some f.tag)
      (fun names => (sayRunners f onAll names).inFile "EXPENSIVE_RUNNER" file)
      (jobEntries root) named ∧
    ∀ e ∈ jobEntries root, ∀ (matrix : Value) (name : String) (values : List String),
      RunsOnDimension e matrix name values → (∃ value ∈ values, Mentions value (familyWord f)) →
        (e ∈ named ↔ ¬Exempt (dimensionValues matrix name))

def IsOwnRunner (label : String) : Prop := label.toList.map Char.toLower = "self-hosted".toList

section Runners

variable {d : Document} {f : RunnerFamily} {e : Value × Value} {matrix : Value} {name : String}
  {values : List String}

theorem filter_expensiveRunner (d : Document) (f : RunnerFamily) :
    (Rules.expensiveRunner d).filter (·.tag = some f.tag) =
      (Rules.expensiveRunnerOf d f).toList := by
  have hother : ∀ g, g ≠ f →
      (Rules.expensiveRunnerOf d g).toList.filter (·.tag = some f.tag) = [] := by
    intro g hg
    rw [List.filter_eq_nil_iff]
    intro x hx
    rw [tag_of_expensiveRunnerOf (Option.mem_toList.mp hx)]
    revert hg
    cases g <;> cases f <;> decide
  have hself : (Rules.expensiveRunnerOf d f).toList.filter (·.tag = some f.tag) =
      (Rules.expensiveRunnerOf d f).toList := by
    refine List.filter_eq_self.mpr fun x hx => ?_
    rw [tag_of_expensiveRunnerOf (Option.mem_toList.mp hx)]
    exact decide_eq_true rfl
  rw [expensiveRunner_eq_append, List.filter_append]
  cases f with
  | macOS => rw [hself, hother .windows (by decide), List.append_nil]
  | windows => rw [hself, hother .macOS (by decide), List.nil_append]

theorem toList_expensiveRunnerOf (d : Document) (f : RunnerFamily) : ∃ onAll,
    (Rules.expensiveRunnerOf d f).toList =
      namingAll ((d.jobs.filter (Rules.runsOnFamily · f)).map (·.id)) (sayRunners f onAll) := by
  rw [Rules.expensiveRunnerOf]
  cases d.jobs.filter (Rules.runsOnFamily · f) with
  | nil => exact ⟨true, rfl⟩
  | cons j jobs =>
    refine ⟨Rules.runsOnAllBranches d (j :: jobs), ?_⟩
    dsimp only
    cases Rules.runsOnAllBranches d (j :: jobs) <;> rfl

namespace RunsOnDimension

theorem dimensionValues_eq (h : RunsOnDimension e matrix name values) :
    ∃ included, dimensionValues matrix name = values ++ included := by
  obtain ⟨items, hitems, hvalues⟩ := h.dimension
  have hscalars : items.filterMap Value.scalar? = values :=
    calc items.filterMap Value.scalar?
      _ = (items.map Value.scalar?).filterMap id := by simp
      _ = (values.map some).filterMap id := by rw [hvalues]
      _ = values := by simp
  refine ⟨_, congrArg (· ++ _) ?_⟩
  rw [hitems]
  exact hscalars

theorem mem_runsOn_iff (h : RunsOnDimension e matrix name values) (hvalues : values ≠ [])
    (id value : String) :
    value ∈ (Job.ofYaml id e.2).runsOn ↔ value ∈ dimensionValues matrix name := by
  obtain ⟨label, hrunsOn, hlabel⟩ := h.runsOn
  obtain ⟨strategy, hstrategy, hmatrix⟩ := h.strategy
  obtain ⟨included, hincluded⟩ := h.dimensionValues_eq
  simp only [Job.ofYaml, hrunsOn, hstrategy]
  exact Workflow.mem_runnerLabels_of_isReference hlabel hmatrix (by simp [hincluded, hvalues]) value

theorem any_runsOnFamily_iff (h : RunsOnDimension e matrix name values)
    (hfamily : ∃ value ∈ values, Mentions value (familyWord f)) :
    (Job.ofEntry? e).any (Rules.runsOnFamily · f) ↔
      ¬∃ value ∈ dimensionValues matrix name, IsOwnRunner value := by
  obtain ⟨value, hvalue, hmentions⟩ := hfamily
  obtain ⟨id, hid⟩ := h.key
  obtain ⟨included, hincluded⟩ := h.dimensionValues_eq
  have hmem := h.mem_runsOn_iff (List.ne_nil_of_mem hvalue)
  simp only [Workflow.any_ofEntry?_iff, runsOnFamily_iff, RunsOnFamily, hmem]
  constructor
  · rintro ⟨-, -, -, hown, -⟩ ⟨label, hlabel, hself⟩
    exact hown label hlabel hself
  · intro hown
    refine ⟨h.toJobEntry, id, hid, fun label hlabel hself => hown ⟨label, hlabel, hself⟩, value, ?_,
      hmentions⟩
    rw [hincluded]
    exact List.mem_append_left _ hvalue

end RunsOnDimension

end Runners

/-- One runner of one's own among the values of a dimension exempts the job with all of them. -/
theorem namesRunners_ownRunner (text file : String) (root : Value) (f : RunnerFamily)
    (h : Yaml.read text = .ok root) :
    NamesRunners (fun values => ∃ value ∈ values, IsOwnRunner value) text file root f := by
  have hrule : Engine.builtinRules.filter (·.id = "EXPENSIVE_RUNNER") =
      [.ofDetections "EXPENSIVE_RUNNER" "macOS or Windows runners outside protected branches"
        Rules.expensiveRunner] := rfl
  have hfindings : (builtinFindings text file).filter (fun x =>
        x.rule = "EXPENSIVE_RUNNER" ∧ x.tag = some f.tag) =
      ((Rules.expensiveRunnerOf (Document.parse text) f).toList).map
        (·.inFile "EXPENSIVE_RUNNER" file) :=
    calc (builtinFindings text file).filter
          (fun x => x.rule = "EXPENSIVE_RUNNER" ∧ x.tag = some f.tag)
      _ = ((builtinFindings text file).filter (·.rule = "EXPENSIVE_RUNNER")).filter
          (·.tag = some f.tag) := by simp [List.filter_filter, Bool.and_comm]
      _ = ((Rules.expensiveRunner (Document.parse text)).filter (·.tag = some f.tag)).map
          (·.inFile "EXPENSIVE_RUNNER" file) := by
        rw [builtinFindings, Engine.filter_findings_builtin _ _ hrule, List.filter_map]
        rfl
      _ = _ := by rw [filter_expensiveRunner]
  obtain ⟨onAll, hdetections⟩ := toList_expensiveRunnerOf (Document.parse text) f
  rw [NamesRunners, hfindings, hdetections]
  refine ⟨_, onAll, namesEntries_namingAll h (Rules.runsOnFamily · f) (sayRunners f onAll)
    "EXPENSIVE_RUNNER" file, fun e he matrix name values hentry hfamily => ?_⟩
  rw [List.mem_filter, hentry.any_runsOnFamily_iff hfamily]
  exact and_iff_right he

def mixedRunners : String :=
  "on: push\njobs:\n  t:\n    runs-on: $\x7b\x7b matrix.os \x7d\x7d\n    strategy:\n      " ++
    "fail-fast: false\n      matrix:\n        os: [self-hosted, macos-latest]\n"

def mixedMatrix : Value :=
  .mapping [(.string "os", .sequence [.string "self-hosted", .string "macos-latest"])]

def mixedEntry : Value × Value :=
  (.string "t", .mapping [(.string "runs-on", .string "$\x7b\x7b matrix.os \x7d\x7d"),
    (.string "strategy", .mapping [(.string "fail-fast", .bool false),
      (.string "matrix", mixedMatrix)])])

def mixedRoot : Value :=
  .mapping [(.string "on", .string "push"), (.string "jobs", .mapping [mixedEntry])]

theorem read_mixedRunners : Yaml.read mixedRunners = .ok mixedRoot :=
  Yaml.read_eq_of_readsExactly (by decide +kernel)

theorem runsOnDimension_mixedEntry :
    RunsOnDimension mixedEntry mixedMatrix "os" ["self-hosted", "macos-latest"] where
  key := ⟨"t", rfl⟩
  value := ⟨_, rfl⟩
  runsOn := ⟨_, rfl, Workflow.matrixReference?_eq_some_iff.mp (by decide +kernel)⟩
  strategy := ⟨_, rfl, rfl⟩
  dimension := ⟨_, rfl, rfl⟩

theorem mentions_mixedRunners :
    ∃ value ∈ ["self-hosted", "macos-latest"], Mentions value (familyWord .macOS) := by
  exact ⟨"macos-latest", by simp, containsLowered_iff.mp (by decide)⟩

theorem namesRunners_ownRunner_mixedRunners : ∃ (named : Mapping) (onAll : Bool),
    NamesEntries ((builtinFindings mixedRunners "ci.yml").filter fun x =>
        x.rule = "EXPENSIVE_RUNNER" ∧ x.tag = some "MACOS_10X")
      (fun names => (sayRunners .macOS onAll names).inFile "EXPENSIVE_RUNNER" "ci.yml")
      [mixedEntry] named ∧ mixedEntry ∉ named := by
  obtain ⟨named, onAll, hnames, hnamed⟩ :=
    namesRunners_ownRunner mixedRunners "ci.yml" mixedRoot .macOS read_mixedRunners
  refine ⟨named, onAll, hnames, ?_⟩
  rw [hnamed mixedEntry (List.mem_singleton_self _) _ _ _ runsOnDimension_mixedEntry
    mentions_mixedRunners, not_not]
  exact ⟨"self-hosted", by decide, rfl⟩

/-- A runner of one's own among the values hides the macOS runner of another combination. -/
theorem not_namesRunners_all : ¬∀ (text file : String) (root : Value) (f : RunnerFamily),
    Yaml.read text = .ok root → NamesRunners (fun _ => False) text file root f := by
  intro h
  obtain ⟨named, onAll, hnames, hnamed⟩ :=
    h mixedRunners "ci.yml" mixedRoot .macOS read_mixedRunners
  have hentry : mixedEntry ∈ named :=
    (hnamed mixedEntry (List.mem_singleton_self _) _ _ _ runsOnDimension_mixedEntry
      mentions_mixedRunners).mpr not_false
  have hnothing : ((builtinFindings mixedRunners "ci.yml").filter fun x =>
      x.rule = "EXPENSIVE_RUNNER" ∧ x.tag = some RunnerFamily.macOS.tag) = [] := by decide +kernel
  rw [hnothing] at hnames
  exact hnames.not_mem_of_nil (rfl : mixedEntry.1.scalar? = some "t") hentry

end WorkflowAudit.Lint
