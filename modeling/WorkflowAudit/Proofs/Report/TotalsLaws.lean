import WorkflowAudit.Proofs.KeyMapLaws
import WorkflowAudit.Proofs.OccurrenceLaws
import WorkflowAudit.Report.Render

namespace WorkflowAudit.Lint

@[simp] theorem countOf_nil (severity : Severity) : countOf severity [] = 0 := rfl

@[simp] theorem countOf_cons (severity : Severity) (f : Finding) (l : List Finding) :
    countOf severity (f :: l) = countOf severity l + if f.severity = severity then 1 else 0 := by
  simp [countOf, List.countP_cons]

@[simp] theorem countOf_append (severity : Severity) (l r : List Finding) :
    countOf severity (l ++ r) = countOf severity l + countOf severity r :=
  List.countP_append

theorem length_eq_countOf (l : List Finding) :
    l.length = countOf .warning l + countOf .info l := by
  induction l with
  | nil => rfl
  | cons f l ih =>
    rw [List.length_cons, ih, countOf_cons, countOf_cons]
    cases f.severity <;> simp <;> omega

end WorkflowAudit.Lint

namespace WorkflowAudit.Report

open Lint (Finding FindingRow Severity countOf)

variable {f : Finding} {rule : String}

/-! ### Rows of rules -/

namespace RuleCount

def ofFindings (rule : String) (l : List Finding) : RuleCount :=
  ⟨rule, l.length, countOf .warning l, countOf .info l⟩

@[simp] theorem rule_add (c : RuleCount) (f : Finding) : (c.add f).rule = c.rule := by
  rw [add]
  cases f.severity <;> rfl

@[simp] theorem total_add (c : RuleCount) (f : Finding) : (c.add f).total = c.total + 1 := by
  rw [add]
  cases f.severity <;> rfl

def IsBalanced (c : RuleCount) : Prop := c.total = c.warnings + c.infos

theorem isBalanced_zero (rule : String) : (zero rule).IsBalanced := rfl

theorem IsBalanced.add {c : RuleCount} (h : c.IsBalanced) (f : Finding) :
    (c.add f).IsBalanced := by
  rw [IsBalanced] at h ⊢
  rw [RuleCount.add]
  cases f.severity with
  | warning =>
    change c.total + 1 = c.warnings + 1 + c.infos
    omega
  | info =>
    change c.total + 1 = c.warnings + (c.infos + 1)
    omega

theorem ofFindings_append (rule : String) (l : List Finding) (f : Finding) :
    ofFindings rule (l ++ [f]) = (ofFindings rule l).add f := by
  simp only [ofFindings, add, List.length_append, List.length_singleton, Lint.countOf_append,
    Lint.countOf_cons]
  cases f.severity <;> rfl

end RuleCount

def rowOf (rule : String) (counts : List RuleCount) : RuleCount :=
  (counts.find? (·.rule = rule)).getD (.zero rule)

theorem rowOf_nil : rowOf rule [] = .zero rule := rfl

theorem rowOf_cons (c : RuleCount) (counts : List RuleCount) :
    rowOf rule (c :: counts) = if c.rule = rule then c else rowOf rule counts := by
  rw [rowOf, List.find?_cons]
  split <;> simp_all [rowOf]

theorem rowOf_map_zero (rule : String) (order : List String) :
    rowOf rule (order.map .zero) = .zero rule := by
  induction order with
  | nil => rfl
  | cons first order ih =>
    rw [List.map_cons, rowOf_cons, ih]
    change (if first = rule then _ else _) = _
    split
    case isTrue h => rw [h]
    case isFalse => rfl

section CountFinding

variable {counts : List RuleCount}

theorem rules_countFinding : (countFinding f counts).map (·.rule) =
    if f.rule ∈ counts.map (·.rule) then counts.map (·.rule)
    else counts.map (·.rule) ++ [f.rule] := by
  induction counts with
  | nil => simp [countFinding, RuleCount.zero]
  | cons c counts ih =>
    simp only [countFinding]
    by_cases h : c.rule = f.rule
    · simp [h]
    · simp only [h, if_false, List.map_cons, ih, List.mem_cons, Ne.symm h, false_or]
      split <;> rfl

theorem sum_countFinding : ((countFinding f counts).map (·.total)).sum =
    (counts.map (·.total)).sum + 1 := by
  induction counts with
  | nil => simp [countFinding, RuleCount.zero]
  | cons c counts ih =>
    simp only [countFinding]
    split
    · simp [Nat.add_right_comm]
    · simp [ih, Nat.add_assoc]

theorem rowOf_countFinding : rowOf rule (countFinding f counts) =
    if f.rule = rule then (rowOf rule counts).add f else rowOf rule counts := by
  induction counts with
  | nil =>
    rw [countFinding, rowOf_cons, RuleCount.rule_add]
    change (if f.rule = rule then _ else _) = _
    split
    case isTrue h => rw [h, rowOf_nil]
    case isFalse => rfl
  | cons c counts ih =>
    simp only [countFinding]
    split
    case isTrue h =>
      rw [rowOf_cons, rowOf_cons, RuleCount.rule_add, h]
      split <;> rfl
    case isFalse h =>
      rw [rowOf_cons, rowOf_cons, ih]
      by_cases hc : c.rule = rule
      · simp only [hc, if_true, if_neg fun hf => h (hc.trans (Eq.symm hf))]
      · simp only [hc, if_false]

theorem forall_countFinding {P : RuleCount → Prop} (hzero : ∀ rule, P (.zero rule))
    (hadd : ∀ c, P c → P (c.add f)) (h : ∀ c ∈ counts, P c) : ∀ c ∈ countFinding f counts, P c := by
  induction counts with
  | nil => exact List.forall_mem_singleton.mpr (hadd _ (hzero _))
  | cons c counts ih =>
    obtain ⟨hc, hcounts⟩ := List.forall_mem_cons.mp h
    simp only [countFinding]
    split
    · exact List.forall_mem_cons.mpr ⟨hadd c hc, hcounts⟩
    · exact List.forall_mem_cons.mpr ⟨hc, ih hcounts⟩

def RepeatsZero (counts : List RuleCount) : Prop :=
  counts.Pairwise fun a b => a.rule = b.rule → b = .zero b.rule

theorem mem_countFinding {c : RuleCount} (h : c ∈ countFinding f counts) :
    c.rule = f.rule ∨ c ∈ counts := by
  induction counts with
  | nil =>
    obtain rfl := List.mem_singleton.mp h
    exact .inl (RuleCount.rule_add _ _)
  | cons first counts ih =>
    simp only [countFinding] at h
    split at h
    case isTrue hfirst =>
      rcases List.mem_cons.mp h with rfl | h
      · exact .inl ((RuleCount.rule_add _ _).trans hfirst)
      · exact .inr (List.mem_cons_of_mem _ h)
    case isFalse =>
      rcases List.mem_cons.mp h with rfl | h
      · exact .inr List.mem_cons_self
      · exact (ih h).imp_right (List.mem_cons_of_mem _)

theorem RepeatsZero.countFinding (h : RepeatsZero counts) : RepeatsZero (countFinding f counts) := by
  induction counts with
  | nil => exact List.pairwise_singleton ..
  | cons c counts ih =>
    obtain ⟨hc, hcounts⟩ := List.pairwise_cons.mp h
    simp only [Report.countFinding]
    split
    case isTrue =>
      refine List.pairwise_cons.mpr ⟨?_, hcounts⟩
      rw [RuleCount.rule_add]
      exact hc
    case isFalse hne =>
      refine List.pairwise_cons.mpr ⟨fun b hb heq => ?_, ih hcounts⟩
      -- The row that took the finding in is of another rule than the first one.
      rcases mem_countFinding hb with hrule | hb
      · exact absurd (heq.trans hrule) hne
      · exact hc b hb heq

end CountFinding

/-! ### All rows -/

def findingsOf (rule : String) (rows : List FindingRow) : List Finding :=
  (rows.map (·.finding)).filter (·.rule = rule)

def unlisted (order : List String) (rows : List FindingRow) : List String :=
  ((rows.map (·.finding.rule)).filter (· ∉ order)).eraseDups

section Rows

variable {order : List String} {rows : List FindingRow} {row : FindingRow}

theorem ruleCounts_append : ruleCounts order (rows ++ [row]) =
    countFinding row.finding (ruleCounts order rows) := by
  simp [ruleCounts]

/-- What holds of rows that have counted nothing, and still holds when they count one more finding,
holds of all rows. -/
theorem ruleCounts_induction {motive : List FindingRow → List RuleCount → Prop}
    (nil : motive [] (order.map .zero))
    (append : ∀ rows row counts, motive rows counts →
      motive (rows ++ [row]) (countFinding row.finding counts)) (rows : List FindingRow) :
    motive rows (ruleCounts order rows) := by
  induction rows using List.reverseRecOn with
  | nil => exact nil
  | append_singleton rows row ih =>
    rw [ruleCounts_append]
    exact append rows row _ ih

theorem findingsOf_append : findingsOf rule (rows ++ [row]) =
    if row.finding.rule = rule then findingsOf rule rows ++ [row.finding]
    else findingsOf rule rows := by
  by_cases h : row.finding.rule = rule <;> simp [findingsOf, h]

theorem unlisted_append : order ++ unlisted order (rows ++ [row]) =
    if row.finding.rule ∈ order ++ unlisted order rows then order ++ unlisted order rows
    else order ++ unlisted order rows ++ [row.finding.rule] := by
  by_cases horder : row.finding.rule ∈ order
  · simp [unlisted, horder]
  · have hfilter : ((rows ++ [row]).map (·.finding.rule)).filter (· ∉ order) =
        (rows.map (·.finding.rule)).filter (· ∉ order) ++ [row.finding.rule] := by
      simp [horder]
    have hmem : row.finding.rule ∈ unlisted order rows ↔
        row.finding.rule ∈ (rows.map (·.finding.rule)).filter (· ∉ order) := List.mem_eraseDups
    rw [unlisted, hfilter, eraseDups_append_singleton, ← unlisted]
    simp only [List.mem_append, horder, false_or, hmem]
    split
    case isTrue => rfl
    case isFalse => rw [List.append_assoc]

theorem unlisted_eq_nil (h : ∀ row ∈ rows, row.finding.rule ∈ order) : unlisted order rows = [] := by
  have hfilter : (rows.map (·.finding.rule)).filter (· ∉ order) = [] := by
    simpa [List.filter_eq_nil_iff] using h
  rw [unlisted, hfilter, List.eraseDups_nil]

theorem rules_ruleCounts (order : List String) (rows : List FindingRow) :
    (ruleCounts order rows).map (·.rule) = order ++ unlisted order rows := by
  refine ruleCounts_induction (motive := fun rows counts =>
    counts.map (·.rule) = order ++ unlisted order rows) ?_ ?_ rows
  · simp [unlisted, RuleCount.zero, Function.comp_def]
  · intro rows row counts h
    rw [rules_countFinding, h, unlisted_append]

theorem sum_ruleCounts (order : List String) (rows : List FindingRow) :
    ((ruleCounts order rows).map (·.total)).sum = rows.length := by
  refine ruleCounts_induction (motive := fun rows counts =>
    (counts.map (·.total)).sum = rows.length) ?_ ?_ rows
  · simp [RuleCount.zero, Function.comp_def]
  · intro rows row counts h
    rw [sum_countFinding, h, List.length_append, List.length_singleton]

theorem isBalanced_of_mem_ruleCounts (order : List String) (rows : List FindingRow) :
    ∀ c ∈ ruleCounts order rows, c.IsBalanced := by
  refine ruleCounts_induction (motive := fun _ counts => ∀ c ∈ counts, c.IsBalanced) ?_ ?_ rows
  · simp [RuleCount.isBalanced_zero]
  · exact fun _ row _ h =>
      forall_countFinding RuleCount.isBalanced_zero (fun _ hc => hc.add row.finding) h

theorem repeatsZero_ruleCounts (order : List String) (rows : List FindingRow) :
    RepeatsZero (ruleCounts order rows) := by
  refine ruleCounts_induction (motive := fun _ counts => RepeatsZero counts) ?_ ?_ rows
  · exact List.pairwise_map.mpr (List.pairwise_of_forall fun _ _ _ => rfl)
  · exact fun _ _ _ h => h.countFinding

theorem rowOf_ruleCounts (order : List String) (rows : List FindingRow) (rule : String) :
    rowOf rule (ruleCounts order rows) = .ofFindings rule (findingsOf rule rows) := by
  refine ruleCounts_induction (motive := fun rows counts =>
    rowOf rule counts = .ofFindings rule (findingsOf rule rows)) ?_ ?_ rows
  · exact rowOf_map_zero rule order
  · intro rows row counts h
    rw [rowOf_countFinding, h, findingsOf_append]
    split
    case isTrue => rw [RuleCount.ofFindings_append]
    case isFalse => rfl

end Rows

/-! ### Expensive runners -/

namespace RunnerSplit

def count : Severity → RunnerSplit → Nat
  | .warning, s => s.onAll
  | .info, s => s.limited

def ofFindings (l : List Finding) : RunnerSplit := ⟨countOf .warning l, countOf .info l⟩

theorem ext_count {a b : RunnerSplit} (h : ∀ severity, count severity a = count severity b) :
    a = b := by
  obtain ⟨onAll, limited⟩ := a
  obtain ⟨onAll', limited'⟩ := b
  obtain rfl : onAll = onAll' := h .warning
  obtain rfl : limited = limited' := h .info
  rfl

@[simp] theorem count_zero (severity : Severity) : count severity zero = 0 := by
  cases severity <;> rfl

@[simp] theorem count_ofFindings (severity : Severity) (l : List Finding) :
    count severity (ofFindings l) = countOf severity l := by
  cases severity <;> rfl

@[simp] theorem count_add (severity : Severity) (s : RunnerSplit) (f : Finding) :
    count severity (s.add f) = count severity s + if f.severity = severity then 1 else 0 := by
  rw [add]
  cases f.severity <;> cases severity <;> rfl

def sum (l : List RunnerSplit) : RunnerSplit := ⟨(l.map onAll).sum, (l.map limited).sum⟩

@[simp] theorem count_sum (severity : Severity) (l : List RunnerSplit) :
    count severity (sum l) = (l.map (count severity)).sum := by
  cases severity <;> rfl

theorem ofFindings_append (l : List Finding) (f : Finding) :
    ofFindings (l ++ [f]) = (ofFindings l).add f := by
  refine ext_count fun severity => ?_
  simp

theorem foldl_add (l : List Finding) : l.foldl add zero = ofFindings l := by
  induction l using List.reverseRecOn with
  | nil => rfl
  | append_singleton l f ih =>
    rw [List.foldl_append, ih, ofFindings_append]
    rfl

end RunnerSplit

def countTag (m : KeyMap RunnerSplit) (f : Finding) : KeyMap RunnerSplit :=
  m.insert (tagOf f) (((m.get? (tagOf f)).getD .zero).add f)

theorem expensiveSplitByTag_eq (rows : List FindingRow) :
    expensiveSplitByTag rows = (expensiveFindings rows).foldl countTag .empty := rfl

theorem sum_countTag (severity : Severity) (m : KeyMap RunnerSplit) (f : Finding) :
    ((countTag m f).values.map (RunnerSplit.count severity)).sum =
      (m.values.map (RunnerSplit.count severity)).sum + if f.severity = severity then 1 else 0 := by
  have hsum := m.sum_values_insert (tagOf f) (((m.get? (tagOf f)).getD .zero).add f)
    (RunnerSplit.count severity)
  rw [RunnerSplit.count_add] at hsum
  have hold : ((m.get? (tagOf f)).map (RunnerSplit.count severity)).getD 0 =
      RunnerSplit.count severity ((m.get? (tagOf f)).getD .zero) := by
    cases m.get? (tagOf f) with
    | none => exact (RunnerSplit.count_zero severity).symm
    | some s => rfl
  rw [countTag]
  omega

theorem sum_foldl_countTag (l : List Finding) :
    RunnerSplit.sum (l.foldl countTag .empty).values = .ofFindings l := by
  refine RunnerSplit.ext_count fun severity => ?_
  rw [RunnerSplit.count_sum, RunnerSplit.count_ofFindings]
  induction l using List.reverseRecOn with
  | nil => rfl
  | append_singleton l f ih =>
    rw [List.foldl_append, List.foldl_cons, List.foldl_nil, sum_countTag, ih]
    simp

theorem get?_foldl_countTag (l : List Finding) (tag : String) :
    ((l.foldl countTag .empty).get? tag).getD .zero =
      .ofFindings (l.filter (tagOf · = tag)) := by
  induction l using List.reverseRecOn with
  | nil => rfl
  | append_singleton l f ih =>
    rw [List.foldl_append, List.foldl_cons, List.foldl_nil, countTag, KeyMap.get?_insert]
    by_cases h : tag = tagOf f
    · subst h
      rw [if_pos rfl, Option.getD_some, ih, List.filter_append, ← RunnerSplit.ofFindings_append]
      simp
    · rw [if_neg h, ih]
      simp [Ne.symm h]

theorem mem_keys_foldl_countTag (l : List Finding) (tag : String) :
    tag ∈ (l.foldl countTag .empty).keys ↔ ∃ f ∈ l, tagOf f = tag := by
  induction l using List.reverseRecOn with
  | nil => simp [KeyMap.empty, KeyMap.keys]
  | append_singleton l f ih =>
    rw [List.foldl_append, List.foldl_cons, List.foldl_nil, countTag, KeyMap.mem_keys_insert, ih]
    simp [or_comm, eq_comm]

section Expensive

variable {rows more : List FindingRow}

theorem expensiveFindings_append :
    expensiveFindings (rows ++ more) = expensiveFindings rows ++ expensiveFindings more := by
  simp [expensiveFindings]

theorem expensiveSplit_eq : expensiveSplit rows = .ofFindings (expensiveFindings rows) :=
  RunnerSplit.foldl_add _

theorem sum_expensiveSplitByTag :
    RunnerSplit.sum (expensiveSplitByTag rows).values = expensiveSplit rows := by
  rw [expensiveSplitByTag_eq, sum_foldl_countTag, expensiveSplit_eq]

theorem of_mem_expensiveSplitByTag {e : String × RunnerSplit}
    (h : e ∈ (expensiveSplitByTag rows).entries) :
    (∃ f ∈ expensiveFindings rows, tagOf f = e.1) ∧
      e.2 = .ofFindings ((expensiveFindings rows).filter (tagOf · = e.1)) := by
  rw [expensiveSplitByTag_eq] at h
  refine ⟨(mem_keys_foldl_countTag _ _).mp (List.mem_map_of_mem h), ?_⟩
  rw [← get?_foldl_countTag, KeyMap.get?_of_mem h, Option.getD_some]

end Expensive

/-! ### Reports -/

structure Summary.TotalsAgree (rows : List FindingRow) (order : List String) (s : Summary) :
    Prop where
  totalFindings : s.totalFindings = rows.length
  rules : s.ruleCounts.map (·.rule) = order ++ unlisted order rows
  balanced : ∀ c ∈ s.ruleCounts, c.total = c.warnings + c.infos
  firstRow : ∀ rule, rowOf rule s.ruleCounts = .ofFindings rule (findingsOf rule rows)
  repeatedRows : RepeatsZero s.ruleCounts
  sum : (s.ruleCounts.map (·.total)).sum = s.totalFindings
  expensiveRow : s.expensiveRunners =
    ⟨(rowOf expensiveRunnerRule s.ruleCounts).warnings,
      (rowOf expensiveRunnerRule s.ruleCounts).infos⟩
  byTag : s.expensiveRunners = .sum s.expensiveRunnersByTag.values

theorem totalsAgree_render (stats : List Runs.Stats) (rows : List FindingRow)
    (order : List String) (coverage : Coverage) (options : Options) :
    (render stats rows order coverage options).TotalsAgree rows order where
  totalFindings := rfl
  rules := rules_ruleCounts order rows
  balanced := isBalanced_of_mem_ruleCounts order rows
  firstRow := rowOf_ruleCounts order rows
  repeatedRows := repeatsZero_ruleCounts order rows
  sum := sum_ruleCounts order rows
  expensiveRow := by
    change expensiveSplit rows = ⟨(rowOf _ (ruleCounts order rows)).warnings,
      (rowOf _ (ruleCounts order rows)).infos⟩
    rw [rowOf_ruleCounts, expensiveSplit_eq]
    rfl
  byTag := sum_expensiveSplitByTag.symm

end WorkflowAudit.Report
