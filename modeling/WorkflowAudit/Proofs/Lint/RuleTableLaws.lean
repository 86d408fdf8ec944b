import WorkflowAudit.Proofs.Lint.EngineLaws
import WorkflowAudit.Proofs.Lint.RuleTable
import WorkflowAudit.Proofs.TraversalLaws

namespace WorkflowAudit.Lint

open Rules (RunnerFamily namingAll)
open Workflow (Document Event Job Matrix Step)
open Workflow.Matrix (StaysInWord)

variable {d : Document} {file : String} {event : Event}

theorem trigger?_eq_some_iff (h : TriggersAgree d) {t : Workflow.Trigger} :
    d.trigger? event = some t ↔ t ∈ d.triggers ∧ t.event = event := by
  rw [Document.trigger?]
  constructor
  · intro hfind
    exact ⟨List.mem_of_find?_eq_some hfind, by simpa using List.find?_some hfind⟩
  · rintro ⟨hmem, rfl⟩
    cases hfind : d.triggers.find? (·.event = t.event) with
    | none => simpa using List.find?_eq_none.mp hfind t hmem
    | some u =>
      have hu : u.event = t.event := by simpa using List.find?_some hfind
      rw [h u (List.mem_of_find?_eq_some hfind) t hmem hu]

theorem hasTrigger_iff : d.hasTrigger event ↔ ∃ t ∈ d.triggers, t.event = event := by
  simp [Document.hasTrigger, Document.trigger?]

theorem namingAll_eq (offenders : List String) (detection : String → Detection) :
    namingAll offenders detection =
      if offenders = [] then [] else [detection (Text.joined ", " offenders)] := by
  cases offenders <;> rfl

theorem mem_sortedNames {l : List String} {n : String} : n ∈ sortedNames l ↔ n ∈ l := by
  rw [sortedNames, KeyMap.mem_keys_ofList]
  simp

namespace Row

theorem detects_ite (row : Row) {P : Prop} [Decidable P] {m : String}
    (hsay : ∀ n, row.Says d n ↔ P ∧ n = m) :
    row.Detects d (if P then [⟨row.severity, m, row.tag⟩] else []) := by
  split
  · rename_i h
    exact .fires ((hsay m).mpr ⟨h, rfl⟩)
  · rename_i h
    exact .silent fun n hn => h ((hsay n).mp hn).1

theorem detects_ofTrigger (h : TriggersAgree d) {rule text : String} {severity : Severity}
    {Lacks : Workflow.Filters → Prop} (has : Workflow.Filters → Bool)
    (hlacks : ∀ f, has f = false ↔ Lacks f) :
    (ofTrigger rule severity event Lacks text).Detects d
      (match d.trigger? event with
      | none => []
      | some t => if has t.filters then [] else [⟨severity, text, none⟩]) := by
  cases ht : d.trigger? event with
  | none =>
    refine .silent fun m hm => ?_
    obtain ⟨⟨t, hmem, hevent, -⟩, -⟩ := hm
    rw [(trigger?_eq_some_iff h).mpr ⟨hmem, hevent⟩] at ht
    cases ht
  | some t =>
    have hsaid : ∀ m, (ofTrigger rule severity event Lacks text).Says d m ↔
        has t.filters = false ∧ m = text := by
      intro m
      simp only [ofTrigger, ← trigger?_eq_some_iff h, ← and_assoc, hlacks]
      simp [ht]
    cases hhas : has t.filters with
    | true =>
      simp only [hhas, if_true]
      exact .silent fun m hm => Bool.noConfusion (hhas.symm.trans ((hsaid m).mp hm).1)
    | false =>
      simp only [hhas, Bool.false_eq_true, if_false]
      exact .fires ((hsaid text).mpr ⟨hhas, rfl⟩)

theorem detects_ofJobs {rule : String} {severity : Severity} {Offends : Job → Prop}
    [DecidablePred Offends] {offends : Job → Bool} {describe : Job → String}
    {text : String → String} (hoffends : ∀ j, offends j ↔ Offends j) :
    (ofJobs rule severity Offends describe text).Detects d
      (namingAll ((d.jobs.filter offends).map describe) fun names =>
        ⟨severity, text names, none⟩) := by
  have hfilter : d.jobs.filter (Offends ·) = d.jobs.filter offends := by
    congr 1
    funext j
    rw [Bool.eq_iff_iff, decide_eq_true_iff, hoffends]
  rw [namingAll_eq, ← ite_not]
  refine detects_ite (ofJobs rule severity Offends describe text) fun n => ?_
  simp only [ofJobs, hfilter]
  simp [hoffends]

theorem detects_ofSteps {rule : String} {Fires : Document → Prop} {Offends : Step → Prop}
    {Names : Job → Step → String → Prop} {text : String → String} {names : List String}
    (hfires : Fires d)
    (hmem : ∀ n, n ∈ names ↔ ∃ j ∈ d.jobs, ∃ s ∈ j.steps, Offends s ∧ Names j s n)
    (hnamed : ∀ j ∈ d.jobs, ∀ s ∈ j.steps, Offends s → ∃ n, Names j s n) :
    (ofSteps rule Fires Offends Names text).Detects d
      (namingAll (sortedNames names) fun names => .info (text names)) := by
  have hsorted : (sortedNames names).Pairwise (· < ·) := KeyMap.pairwise_keys _
  rw [namingAll_eq]
  split
  · rename_i hnil
    refine .silent fun m hm => ?_
    obtain ⟨-, ⟨j, hj, s, hs, hoffends⟩, -⟩ := hm
    obtain ⟨n, hn⟩ := hnamed j hj s hs hoffends
    have := mem_sortedNames.mpr ((hmem n).mpr ⟨j, hj, s, hs, hoffends, hn⟩)
    rw [hnil] at this
    cases this
  · rename_i hne
    have hsome : ∃ j ∈ d.jobs, ∃ s ∈ j.steps, Offends s := by
      obtain ⟨n, _, hn⟩ := List.exists_cons_of_ne_nil hne
      obtain ⟨j, hj, s, hs, hoffends, -⟩ :=
        (hmem n).mp (mem_sortedNames.mp (hn ▸ List.mem_cons_self))
      exact ⟨j, hj, s, hs, hoffends⟩
    have hsaid : (ofSteps rule Fires Offends Names text).Says d
        (text (Text.joined ", " (sortedNames names))) :=
      ⟨hfires, hsome, sortedNames names, hsorted, fun n => mem_sortedNames.trans (hmem n), rfl⟩
    exact .fires hsaid

theorem detects_ofSteps_unless {rule : String} {Fires : Document → Prop} {Offends : Step → Prop}
    {Names : Job → Step → String → Prop} {text : String → String} {names : List String}
    {blocked : Bool} (hfires : ¬blocked ↔ Fires d)
    (hmem : ∀ n, n ∈ names ↔ ∃ j ∈ d.jobs, ∃ s ∈ j.steps, Offends s ∧ Names j s n)
    (hnamed : ∀ j ∈ d.jobs, ∀ s ∈ j.steps, Offends s → ∃ n, Names j s n) :
    (ofSteps rule Fires Offends Names text).Detects d
      (if blocked then [] else namingAll (sortedNames names) fun names => .info (text names)) := by
  split
  · rename_i hblocked
    exact .silent fun m hm => hfires.mpr hm.1 hblocked
  · rename_i hfree
    exact detects_ofSteps (hfires.mp hfree) hmem hnamed

theorem mem_steps {j : Job} {s : Step} : (j, s) ∈ d.steps ↔ j ∈ d.jobs ∧ s ∈ j.steps := by
  simp [Document.steps]

theorem any_steps_iff {p : Step → Bool} :
    (d.steps.any fun js => p js.2) = true ↔ ∃ j ∈ d.jobs, ∃ s ∈ j.steps, p s := by
  simp [Document.steps]

theorem mem_map_id_filter_steps {Offends : Step → Prop} (offends : Step → Bool)
    (hoffends : ∀ s, offends s ↔ Offends s) (n : String) :
    n ∈ (d.steps.filter fun js => offends js.2).map (·.1.id) ↔
      ∃ j ∈ d.jobs, ∃ s ∈ j.steps, Offends s ∧ j.id = n := by
  simp only [List.mem_map, List.mem_filter, Prod.exists, mem_steps, hoffends]
  grind

theorem sortedNames_filter_steps_ne_nil_iff (offends : Step → Bool) :
    sortedNames ((d.steps.filter fun js => offends js.2).map (·.1.id)) ≠ [] ↔
      ∃ j ∈ d.jobs, ∃ s ∈ j.steps, offends s := by
  simp only [ne_eq, List.eq_nil_iff_forall_not_mem, mem_sortedNames,
    mem_map_id_filter_steps offends fun _ => Iff.rfl]
  grind

theorem detectsSteps_iff (offends : Step → Bool) (blocked : Bool)
    (detection : String → Detection) :
    (if blocked then [] else
      namingAll (sortedNames ((d.steps.filter fun js => offends js.2).map (·.1.id))) detection) ≠
        [] ↔
      blocked = false ∧ ∃ j ∈ d.jobs, ∃ s ∈ j.steps, offends s := by
  rw [← sortedNames_filter_steps_ne_nil_iff, namingAll_eq]
  cases blocked <;> simp

theorem hasLargeMatrix_iff {j : Job} : Rules.hasLargeMatrix j ↔ HasLargeMatrix j := by
  rw [Rules.hasLargeMatrix, HasLargeMatrix, Option.any_eq_true]
  exact exists_congr fun _ => and_congr_right fun _ => decide_eq_true_iff

theorem mem_filter_hasLargeMatrix {j : Job} : j ∈ d.jobs.filter Rules.hasLargeMatrix ↔
    j ∈ d.jobs ∧ ∃ m, j.matrix = some m ∧ 2 < m.dimensions.entries.length :=
  List.mem_filter.trans (and_congr_right fun _ => hasLargeMatrix_iff)

theorem matrixSize?_eq_some {j : Job} {m : Matrix} (hj : j.matrix = some m)
    (hm : StaysInWord (m.dimensions.values.map List.length)) :
    Rules.matrixSize? j = some (describeMatrix j) := by
  rw [Rules.matrixSize?, describeMatrix, hj, Option.bind_eq_bind, Option.bind_some,
    Workflow.Matrix.combinations?_eq_some_iff.mpr ⟨rfl, hm⟩]
  rfl

theorem matrixSize?_eq_none {j : Job} {m : Matrix} (hj : j.matrix = some m)
    (hm : ¬StaysInWord (m.dimensions.values.map List.length)) : Rules.matrixSize? j = none := by
  rw [Rules.matrixSize?, hj, Option.bind_eq_bind, Option.bind_some,
    Workflow.Matrix.combinations?_eq_none_iff.mpr hm]
  rfl

theorem largeMatrix_of_counts (h : CountsLargeMatrices d) : Rules.largeMatrix d =
    .detected (namingAll ((d.jobs.filter Rules.hasLargeMatrix).map describeMatrix) fun names =>
      .warning ("Large matrix in jobs [" ++ names ++ "]")) := by
  have hsizes : (d.jobs.filter Rules.hasLargeMatrix).mapM Rules.matrixSize? =
      some ((d.jobs.filter Rules.hasLargeMatrix).map describeMatrix) := by
    refine mapM_eq_some fun j hj => ?_
    obtain ⟨hmem, m, hm, hlarge⟩ := mem_filter_hasLargeMatrix.mp hj
    exact matrixSize?_eq_some hm (h j hmem m hm hlarge)
  rw [Rules.largeMatrix, hsizes]

theorem largeMatrix_of_not_counts (h : ¬CountsLargeMatrices d) :
    Rules.largeMatrix d = .crashed (some "attempt to multiply with overflow") := by
  simp only [CountsLargeMatrices, not_forall] at h
  obtain ⟨j, hj, m, hm, hlarge, hover⟩ := h
  have hsizes : (d.jobs.filter Rules.hasLargeMatrix).mapM Rules.matrixSize? = none :=
    mapM_eq_none_iff.mpr
      ⟨j, mem_filter_hasLargeMatrix.mpr ⟨hj, m, hm, hlarge⟩, matrixSize?_eq_none hm hover⟩
  rw [Rules.largeMatrix, hsizes]

theorem detects_oldCheckout :
    (ofSteps "OLD_CHECKOUT" (fun _ => True)
      (fun s => ∃ uses, s.uses = some uses ∧ OldCheckout uses)
      (fun _ s n => s.uses = some n) fun names => "Outdated checkout action: " ++ names).Detects d
      (Rules.oldCheckout d) := by
  refine detects_ofSteps trivial (fun n => ?_) fun j _ s _ h => ?_
  · simp only [List.mem_filter, List.mem_filterMap, Prod.exists, mem_steps, isOldCheckout_iff]
    grind
  · obtain ⟨uses, huses, -⟩ := h
    exact ⟨uses, huses⟩

theorem detects_noConcurrency : noConcurrency.Detects d (Rules.noConcurrency d) := by
  rw [Rules.noConcurrency, ← ite_not]
  refine detects_ite noConcurrency fun n => ?_
  have htriggered : (∃ t ∈ d.triggers, t.event = .push ∨ t.event = .pullRequest) ↔
      d.hasTrigger .push ∨ d.hasTrigger .pullRequest := by
    rw [hasTrigger_iff, hasTrigger_iff]
    simp only [and_or_left, exists_or]
  have hgroups : d.hasConcurrencyGroup ↔
      ¬(d.concurrency = none ∧ ∀ j ∈ d.jobs, j.concurrency = none) := by
    simp only [Document.hasConcurrencyGroup, Bool.or_eq_true, Option.isSome_iff_ne_none,
      List.any_eq_true]
    grind
  simp only [noConcurrency, htriggered, Bool.or_eq_true, Bool.not_eq_true', Bool.or_eq_false_iff,
    not_or, hgroups]
  grind

theorem detects_frequentSchedule (h : TriggersAgree d) :
    frequentSchedule.Detects d (Rules.frequentSchedule d) := by
  rw [Rules.frequentSchedule]
  cases ht : d.trigger? .schedule with
  | none =>
    refine .silent fun m hm => ?_
    obtain ⟨t, hmem, hevent, -⟩ := hm
    rw [(trigger?_eq_some_iff h).mpr ⟨hmem, hevent⟩] at ht
    cases ht
  | some t =>
    have hfilter : t.crons.filter (FrequentCron ·) = t.crons.filter Rules.isFrequentCron := by
      refine List.filter_congr fun c _ => ?_
      rw [Bool.eq_iff_iff, decide_eq_true_iff, isFrequentCron_iff]
    have hsaid : ∀ m, frequentSchedule.Says d m ↔ (∃ c ∈ t.crons, FrequentCron c) ∧
        m = "Schedule fires at most every 9 minutes: " ++
          Text.joined ", "
            ((t.crons.filter Rules.isFrequentCron).map fun c => "'" ++ c ++ "'") := by
      intro m
      simp only [frequentSchedule, ← and_assoc, ← trigger?_eq_some_iff h, ht]
      simp [hfilter, and_assoc]
    cases hcrons : t.crons.filter Rules.isFrequentCron with
    | nil =>
      simp only [hcrons]
      refine .silent fun m hm => ?_
      obtain ⟨c, hc, hfrequent⟩ := ((hsaid m).mp hm).1
      have := List.mem_filter.mpr ⟨hc, isFrequentCron_iff.mpr hfrequent⟩
      rw [hcrons] at this
      cases this
    | cons c rest =>
      have hc : c ∈ t.crons.filter Rules.isFrequentCron := hcrons ▸ List.mem_cons_self
      obtain ⟨hmem, hfrequent⟩ := List.mem_filter.mp hc
      simp only [hcrons]
      exact .fires ((hsaid _).mpr ⟨⟨c, hmem, isFrequentCron_iff.mp hfrequent⟩, by rw [hcrons]⟩)

theorem runsOnAllBranches_iff (h : TriggersAgree d) (f : RunnerFamily) :
    Rules.runsOnAllBranches d (d.jobs.filter (Rules.runsOnFamily · f)) ↔ OnAllBranches d f := by
  have hjobs : (d.jobs.filter (Rules.runsOnFamily · f)).any (!Rules.isRestricted ·) ↔
      ∃ j ∈ d.jobs, RunsOnFamily f j ∧ ¬Restricted j := by
    simp only [List.any_eq_true, List.mem_filter, runsOnFamily_iff, ← isRestricted_iff,
      Bool.not_eq_true', Bool.not_eq_true, and_assoc]
  rw [Rules.runsOnAllBranches, OnAllBranches, Bool.or_eq_true, Bool.and_eq_true]
  refine or_congr ?_ (and_congr hasTrigger_iff hjobs)
  simp only [← and_assoc, ← trigger?_eq_some_iff h]
  cases d.trigger? .push with
  | none => simp
  | some push => simp [← namesProtectedBranch_iff]

/-- Of the two rows on a family one is silent. -/
theorem detects_expensiveRunner (h : TriggersAgree d) {f : RunnerFamily} {subject : String}
    (hsubject : subject ++ " in jobs [" =
      f.label ++ " runners (" ++ toString f.costMultiplier ++ "x Linux cost) in jobs [") :
    ∃ onAll limited, (expensiveRunner f f.tag subject true).Detects d onAll ∧
      (expensiveRunner f f.tag subject false).Detects d limited ∧
      (Rules.expensiveRunnerOf d f).toList = onAll ++ limited := by
  have hfilter : d.jobs.filter (RunsOnFamily f ·) = d.jobs.filter (Rules.runsOnFamily · f) := by
    refine List.filter_congr fun j _ => ?_
    rw [Bool.eq_iff_iff, decide_eq_true_iff, runsOnFamily_iff]
  have hall := runsOnAllBranches_iff h f
  rw [Rules.expensiveRunnerOf]
  cases hjobs : d.jobs.filter (Rules.runsOnFamily · f) with
  | nil =>
    have hnone : ¬∃ j ∈ d.jobs, RunsOnFamily f j := by
      rintro ⟨j, hj, hruns⟩
      have hmem : j ∈ d.jobs.filter (Rules.runsOnFamily · f) :=
        List.mem_filter.mpr ⟨hj, runsOnFamily_iff.mpr hruns⟩
      rw [hjobs] at hmem
      cases hmem
    exact ⟨[], [], .silent fun m hm => hnone hm.1, .silent fun m hm => hnone hm.1, rfl⟩
  | cons j rest =>
    have hsome : ∃ j ∈ d.jobs, RunsOnFamily f j := by
      obtain ⟨hmem, hruns⟩ := List.mem_filter.mp (hjobs ▸ List.mem_cons_self)
      exact ⟨j, hmem, runsOnFamily_iff.mp hruns⟩
    rw [hjobs] at hfilter hall
    simp only
    split
    · rename_i honAll
      have honAll := hall.mp honAll
      refine ⟨_, [], .fires ⟨hsome, iff_of_true honAll rfl, rfl⟩, .silent fun m hm => ?_, ?_⟩
      · exact absurd (hm.2.1.mp honAll) (by decide)
      · rw [hfilter, hsubject]
        rfl
    · rename_i hlimited
      have hlimited : ¬OnAllBranches d f := fun honAll => hlimited (hall.mpr honAll)
      refine ⟨[], _, .silent fun m hm => ?_,
        .fires ⟨hsome, iff_of_false hlimited (by decide), rfl⟩, ?_⟩
      · exact absurd (hm.2.1.mpr rfl) hlimited
      · rw [hfilter, hsubject]
        rfl

end Row

def Agrees (d : Document) (file : String) (rows : List Row) (rules : List Rule)
    (failures : List RuleFailure) : Prop :=
  ((Engine.mk rules).evaluate d file).failures = failures ∧
    Reported d file rows ((Engine.mk rules).evaluate d file).findings

theorem macOS_subject : "macOS runners (10x Linux cost)" ++ " in jobs [" =
    RunnerFamily.macOS.label ++ " runners (" ++ toString RunnerFamily.macOS.costMultiplier ++
      "x Linux cost) in jobs [" := by decide

theorem windows_subject : "Windows runners (2x Linux cost)" ++ " in jobs [" =
    RunnerFamily.windows.label ++ " runners (" ++ toString RunnerFamily.windows.costMultiplier ++
      "x Linux cost) in jobs [" := by decide

namespace Agrees

variable {row : Row} {rows : List Row} {rules : List Rule} {summary : String}
variable {detect : Document → List Detection} {failures : List RuleFailure}

theorem nil : Agrees d file [] [] [] := ⟨rfl, .nil⟩

theorem cons_detected {apply : Document → Verdict} {detections : List Detection}
    (hrow : row.Detects d detections) (happly : apply d = .detected detections)
    (h : Agrees d file rows rules failures) :
    Agrees d file (row :: rows) (⟨row.rule, summary, apply⟩ :: rules) failures := by
  have hrule : Rule.evaluate ⟨row.rule, summary, apply⟩ d file =
      ⟨detections.map (·.inFile row.rule file), []⟩ := by
    simp only [Rule.evaluate, happly, Verdict.toExcept]
  rw [Agrees, Engine.evaluate_cons, hrule]
  exact ⟨h.1, .cons hrow h.2⟩

theorem cons (hrow : row.Detects d (detect d)) (h : Agrees d file rows rules failures) :
    Agrees d file (row :: rows) (.ofDetections row.rule summary detect :: rules) failures :=
  .cons_detected hrow rfl h

theorem cons_crashed {id text : String} {apply : Document → Verdict}
    (happly : apply d = .crashed (some text)) (h : Agrees d file rows rules failures) :
    Agrees d file rows (⟨id, summary, apply⟩ :: rules) (⟨id, file, .crashed text⟩ :: failures) := by
  have hrule : Rule.evaluate ⟨id, summary, apply⟩ d file = ⟨[], [⟨id, file, .crashed text⟩]⟩ := by
    simp only [Rule.evaluate, happly, Verdict.toExcept]
    rfl
  rw [Agrees, Engine.evaluate_cons, hrule]
  exact ⟨congrArg _ h.1, h.2⟩

theorem cons_runners (hd : TriggersAgree d) (h : Agrees d file rows rules failures) :
    Agrees d file
      (.expensiveRunner .macOS "MACOS_10X" "macOS runners (10x Linux cost)" true ::
        .expensiveRunner .macOS "MACOS_10X" "macOS runners (10x Linux cost)" false ::
        .expensiveRunner .windows "WINDOWS_2X" "Windows runners (2x Linux cost)" true ::
        .expensiveRunner .windows "WINDOWS_2X" "Windows runners (2x Linux cost)" false :: rows)
      (.ofDetections "EXPENSIVE_RUNNER" summary Rules.expensiveRunner :: rules) failures := by
  obtain ⟨macOnAll, macLimited, hmacOnAll, hmacLimited, hmac⟩ :=
    Row.detects_expensiveRunner (f := .macOS) hd macOS_subject
  obtain ⟨winOnAll, winLimited, hwinOnAll, hwinLimited, hwin⟩ :=
    Row.detects_expensiveRunner (f := .windows) hd windows_subject
  have hboth : Rules.expensiveRunner d = macOnAll ++ macLimited ++ (winOnAll ++ winLimited) := by
    rw [← hmac, ← hwin, expensiveRunner_eq_append]
  refine ⟨h.1, ?_⟩
  have hreported : Reported d file _ _ :=
    .cons hmacOnAll (.cons hmacLimited (.cons hwinOnAll (.cons hwinLimited h.2)))
  change Reported d file _
    ((Rules.expensiveRunner d).map (·.inFile "EXPENSIVE_RUNNER" file) ++ _)
  rw [hboth]
  simp only [List.map_append, List.append_assoc]
  exact hreported

end Agrees

theorem agrees_fromStart (h : TriggersAgree d) {rows : List Row} {rules : List Rule}
    {failures : List RuleFailure} (hrest : Agrees d file rows rules failures) :
    Agrees d file (ruleTable.take 3 ++ rows) (Engine.builtinRules.take 3 ++ rules) failures := by
  refine .cons ?_ (.cons ?_ (.cons ?_ hrest))
  · refine Row.detects_ofTrigger h Workflow.Filters.restrictsBranchesOrPaths fun f => ?_
    simp [Workflow.Filters.restrictsBranchesOrPaths, and_assoc]
  · exact Row.detects_noConcurrency
  · exact Row.detects_ofJobs fun j => by simp [Option.isSome_iff_ne_none]

theorem agrees_toEnd (h : TriggersAgree d) :
    Agrees d file (ruleTable.drop 4) (Engine.builtinRules.drop 4) [] := by
  refine .cons ?_ (.cons ?_ (.cons ?_ (.cons ?_ (.cons ?_ (.cons ?_ (.cons_runners h .nil))))))
  · exact Row.detects_frequentSchedule h
  · exact Row.detects_ofJobs fun j => by simp [Job.callsWorkflow, Job.hasTimeout]
  · refine Row.detects_ofSteps_unless (by simp) ?_ fun j _ _ _ _ => ⟨j.id, rfl⟩
    exact Row.mem_map_id_filter_steps (·.actionName = some "actions/upload-artifact")
      fun s => decide_eq_true_iff
  · exact Row.detects_oldCheckout
  · refine Row.detects_ofSteps_unless ?_ ?_ fun j _ _ _ _ => ⟨j.id, rfl⟩
    · simp [← providesCache_iff, Document.steps]
    · exact Row.mem_map_id_filter_steps Rules.installsPackages fun s => installsPackages_iff
  · exact Row.detects_ofTrigger h (·.types.isSome) fun f => by simp

theorem agrees_of_counts (h : TriggersAgree d) (hcounts : CountsLargeMatrices d) :
    Agrees d file ruleTable Engine.builtinRules [] :=
  agrees_fromStart h (.cons_detected (Row.detects_ofJobs fun _ => Row.hasLargeMatrix_iff)
    (Row.largeMatrix_of_counts hcounts) (agrees_toEnd h))

theorem agrees_of_not_counts (h : TriggersAgree d) (hcounts : ¬CountsLargeMatrices d) :
    Agrees d file (ruleTable.filter (·.rule ≠ "LARGE_MATRIX")) Engine.builtinRules
      [⟨"LARGE_MATRIX", file, .crashed "attempt to multiply with overflow"⟩] :=
  agrees_fromStart h (.cons_crashed (Row.largeMatrix_of_not_counts hcounts) (agrees_toEnd h))

theorem failures_builtin_eq_nil_iff :
    (Engine.builtin.evaluate d file).failures = [] ↔ CountsLargeMatrices d := by
  have hothers : (Engine.builtin.evaluate d file).failures =
      ((Rule.mk "LARGE_MATRIX" "matrix with more than two dimensions" Rules.largeMatrix).failure?
        d file).toList := by
    rw [Engine.builtin, Engine.failures_evaluate]
    rfl
  rw [hothers, Option.toList_eq_nil_iff, Rule.failure?]
  by_cases hcounts : CountsLargeMatrices d
  · simp only [Row.largeMatrix_of_counts hcounts, hcounts]
  · simp only [Row.largeMatrix_of_not_counts hcounts, hcounts, reduceCtorEq]

def Row.Decisive (row : Row) (d : Document) : Prop := ∀ m n, row.Says d m → row.Says d n → m = n

theorem eq_of_mem_iff {l r : List String} (hl : l.Pairwise (· < ·)) (hr : r.Pairwise (· < ·))
    (h : ∀ n, n ∈ l ↔ n ∈ r) : l = r := by
  have hnodup : ∀ {l : List String}, l.Pairwise (· < ·) → l.Nodup := by
    intro l hl
    refine hl.imp ?_
    intro a b hlt heq
    rw [heq] at hlt
    exact String.lt_irrefl b hlt
  have hperm := (List.perm_ext_iff_of_nodup (hnodup hl) (hnodup hr)).mpr h
  exact hperm.eq_of_pairwise (fun a b _ _ hab hba => absurd hab (String.lt_asymm hba)) hl hr

theorem decisive_ofSteps {rule : String} {Fires : Document → Prop} {Offends : Step → Prop}
    {Names : Job → Step → String → Prop} {text : String → String} :
    (Row.ofSteps rule Fires Offends Names text).Decisive d := by
  rintro m n ⟨-, -, l, hl, hmem, rfl⟩ ⟨-, -, r, hr, hmem', rfl⟩
  rw [eq_of_mem_iff hl hr fun n => (hmem n).trans (hmem' n).symm]

theorem decisive_frequentSchedule (h : TriggersAgree d) : Row.frequentSchedule.Decisive d := by
  rintro m n ⟨t, ht, htevent, -, rfl⟩ ⟨u, hu, huevent, -, rfl⟩
  rw [h t ht u hu (htevent.trans huevent.symm)]

theorem decisive_ruleTable (h : TriggersAgree d) : ∀ row ∈ ruleTable, row.Decisive d := by
  simp only [ruleTable, List.forall_mem_cons]
  refine ⟨?_, ?_, ?_, ?_, decisive_frequentSchedule h, ?_, decisive_ofSteps, decisive_ofSteps,
    decisive_ofSteps, ?_, ?_, ?_, ?_, ?_, by simp⟩
  · exact fun m n hm hn => hm.2.trans hn.2.symm
  · exact fun m n hm hn => hm.2.2.2.trans hn.2.2.2.symm
  · exact fun m n hm hn => hm.2.trans hn.2.symm
  · exact fun m n hm hn => hm.2.trans hn.2.symm
  · exact fun m n hm hn => hm.2.trans hn.2.symm
  · exact fun m n hm hn => hm.2.trans hn.2.symm
  · exact fun m n hm hn => hm.2.2.trans hn.2.2.symm
  · exact fun m n hm hn => hm.2.2.trans hn.2.2.symm
  · exact fun m n hm hn => hm.2.2.trans hn.2.2.symm
  · exact fun m n hm hn => hm.2.2.trans hn.2.2.symm

theorem Row.Decisive.detections_eq {row : Row} (h : row.Decisive d) {l r : List Detection}
    (hl : row.Detects d l) (hr : row.Detects d r) : l = r := by
  cases hl with
  | fires hm =>
    cases hr with
    | fires hn => rw [h _ _ hm hn]
    | silent hn => exact absurd hm (hn _)
  | silent hm =>
    cases hr with
    | fires hn => exact absurd hn (hm _)
    | silent => rfl

theorem Reported.eq_of_decisive {rows : List Row} (h : ∀ row ∈ rows, row.Decisive d)
    {l r : List Finding} (hl : Reported d file rows l) (hr : Reported d file rows r) : l = r := by
  induction hl generalizing r with
  | nil =>
    cases hr with
    | nil => rfl
  | cons hrow _ ih =>
    obtain ⟨hfirst, hrest⟩ := List.forall_mem_cons.mp h
    cases hr with
    | cons hrow' hr => rw [hfirst.detections_eq hrow hrow', ih hrest hr]

/-- The rules that come with the library report what the table tells and nothing else. One of them
fails if there are too many combinations to be counted, and then the others report the same. -/
theorem builtin_evaluate (d : Document) (file : String) (h : TriggersAgree d) :
    (CountsLargeMatrices d →
      (Engine.builtin.evaluate d file).failures = [] ∧
        ∀ findings, Reported d file ruleTable findings ↔
          findings = (Engine.builtin.evaluate d file).findings) ∧
    (¬CountsLargeMatrices d →
      (Engine.builtin.evaluate d file).failures =
          [⟨"LARGE_MATRIX", file, .crashed "attempt to multiply with overflow"⟩] ∧
        ∀ findings, Reported d file (ruleTable.filter (·.rule ≠ "LARGE_MATRIX")) findings ↔
          findings = (Engine.builtin.evaluate d file).findings) := by
  have hdecisive := decisive_ruleTable h
  refine ⟨fun hcounts => ?_, fun hcounts => ?_⟩
  · obtain ⟨hfailures, hreported⟩ := @agrees_of_counts d file h hcounts
    refine ⟨hfailures, fun findings => ⟨fun hother => ?_, fun heq => heq ▸ hreported⟩⟩
    exact hother.eq_of_decisive hdecisive hreported
  · obtain ⟨hfailures, hreported⟩ := @agrees_of_not_counts d file h hcounts
    refine ⟨hfailures, fun findings => ⟨fun hother => ?_, fun heq => heq ▸ hreported⟩⟩
    exact hother.eq_of_decisive (fun row hrow => hdecisive row (List.mem_of_mem_filter hrow))
      hreported

def matrixDocument (dimensions : Nat) : Document :=
  { Document.empty with
    triggers := [.bare .push]
    jobs := [⟨"build", none, ["ubuntu-latest"], none, none, none,
      some ⟨.ofList ((List.range dimensions).map fun i => (toString i, ["a", "b"])), false⟩,
      none, none, []⟩] }

theorem triggersAgree_matrixDocument (dimensions : Nat) :
    TriggersAgree (matrixDocument dimensions) := by
  intro t ht u hu _
  rw [List.mem_singleton.mp ht, List.mem_singleton.mp hu]

theorem builtin_evaluate_sampleDocument :
    (CountsLargeMatrices (matrixDocument 3) ∧
      Reported (matrixDocument 3) "ci.yml" ruleTable
        (Engine.builtin.evaluate (matrixDocument 3) "ci.yml").findings ∧
      (Engine.builtin.evaluate (matrixDocument 3) "ci.yml").findings.map (·.rule) =
        ["PUSH_ALL_BRANCHES", "NO_CONCURRENCY", "MATRIX_NO_FAILFAST", "LARGE_MATRIX",
          "NO_TIMEOUT"]) ∧
    ¬CountsLargeMatrices (matrixDocument 64) ∧
      (Engine.builtin.evaluate (matrixDocument 64) "ci.yml").failures =
        [⟨"LARGE_MATRIX", "ci.yml", .crashed "attempt to multiply with overflow"⟩] := by
  have hcounts : CountsLargeMatrices (matrixDocument 3) := by
    intro j hj m hm _
    rw [List.mem_singleton.mp hj] at hm
    rw [← Option.some.inj hm]
    exact Matrix.staysInWord_of_nonzero (by decide +kernel)
  have hover : ¬CountsLargeMatrices (matrixDocument 64) := by
    intro hcounts
    have hword := hcounts _ (List.mem_singleton_self _) _ rfl (by decide +kernel) _
      (List.prefix_refl _)
    revert hword
    decide +kernel
  obtain ⟨-, hreported⟩ :=
    (builtin_evaluate (matrixDocument 3) "ci.yml" (triggersAgree_matrixDocument 3)).1 hcounts
  exact ⟨⟨hcounts, (hreported _).mpr rfl, by decide +kernel⟩, hover,
    ((builtin_evaluate (matrixDocument 64) "ci.yml" (triggersAgree_matrixDocument 64)).2 hover).1⟩

end WorkflowAudit.Lint
