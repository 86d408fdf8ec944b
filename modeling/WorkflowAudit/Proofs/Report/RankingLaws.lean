import Mathlib
import WorkflowAudit.Report.Render

namespace WorkflowAudit.Decimal

def isNegative (x : Float) : Bool := Nat.pow 2 63 ≤ x.toBits.toNat

def magnitude (x : Float) : Nat := x.toBits.toNat % Nat.pow 2 63

def TotalLe (a b : Float) : Prop :=
  match isNegative a, isNegative b with
  | true, false => True
  | false, true => False
  | false, false => magnitude a ≤ magnitude b
  | true, true => magnitude b ≤ magnitude a

theorem orderKey_of_negative {x : Float} (h : isNegative x = true) :
    orderKey x = -1 - magnitude x := by
  have hbits := x.toBits.toNat_lt
  have hpow : Nat.pow 2 63 = 9223372036854775808 := rfl
  have hpow' : Int.pow 2 63 = 9223372036854775808 := rfl
  simp only [isNegative, decide_eq_true_eq] at h
  simp only [orderKey, magnitude]
  rw [if_neg (Nat.not_lt.mpr h)]
  rw [hpow] at h ⊢
  omega

theorem orderKey_of_not_negative {x : Float} (h : isNegative x = false) :
    orderKey x = magnitude x := by
  simp only [isNegative, decide_eq_false_iff_not, Nat.not_le] at h
  simp only [orderKey, magnitude]
  rw [if_pos h, Nat.mod_eq_of_lt h]

theorem orderKey_le_iff {a b : Float} : orderKey a ≤ orderKey b ↔ TotalLe a b := by
  rw [TotalLe]
  cases ha : isNegative a <;> cases hb : isNegative b
  case false.false => simp [orderKey_of_not_negative ha, orderKey_of_not_negative hb]
  case false.true =>
    rw [orderKey_of_not_negative ha, orderKey_of_negative hb]
    simp only [iff_false]
    omega
  case true.false =>
    rw [orderKey_of_negative ha, orderKey_of_not_negative hb]
    simp only [iff_true]
    omega
  case true.true =>
    rw [orderKey_of_negative ha, orderKey_of_negative hb]
    simp only
    omega

end WorkflowAudit.Decimal

namespace WorkflowAudit.Report

open Lint (FindingRow)
open Runs (Stats)

/-! ### Stable sorting -/

section Rank

variable {a b : Entry}

theorem Entry.isBefore_iff : a.isBefore b ↔ Decimal.TotalLe b.metric a.metric := by
  rw [isBefore, decide_eq_true_iff, Decimal.orderKey_le_iff]

theorem Entry.isBefore_of_toBits_eq (h : a.metric.toBits = b.metric.toBits) : a.isBefore b := by
  simp [isBefore, Decimal.orderKey, h]

theorem Entry.isBefore_trans (a b c : Entry) (hab : a.isBefore b) (hbc : b.isBefore c) :
    a.isBefore c := by
  rw [isBefore, decide_eq_true_iff] at *
  exact hbc.trans hab

theorem Entry.isBefore_total (a b : Entry) : (a.isBefore b || b.isBefore a) = true := by
  simpa [isBefore] using Int.le_total (Decimal.orderKey b.metric) (Decimal.orderKey a.metric)

theorem rank_perm (l : List Entry) : (rank l).Perm l := List.mergeSort_perm l _

theorem rank_pairwise (l : List Entry) :
    (rank l).Pairwise fun a b => Decimal.TotalLe b.metric a.metric := by
  have hbefore : (rank l).Pairwise fun a b => a.isBefore b :=
    List.pairwise_mergeSort Entry.isBefore_trans Entry.isBefore_total l
  exact hbefore.imp Entry.isBefore_iff.mp

theorem filter_rank (bits : UInt64) (l : List Entry) :
    (rank l).filter (·.metric.toBits = bits) = l.filter (·.metric.toBits = bits) := by
  have hordered : (l.filter (·.metric.toBits = bits)).Pairwise fun a b => a.isBefore b := by
    refine List.pairwise_of_forall_mem_list ?_
    intro a ha b hb
    have ha := of_decide_eq_true (List.mem_filter.mp ha).2
    have hb := of_decide_eq_true (List.mem_filter.mp hb).2
    exact Entry.isBefore_of_toBits_eq (ha.trans hb.symm)
  have hsub : (l.filter (·.metric.toBits = bits)).Sublist (rank l) :=
    List.sublist_mergeSort Entry.isBefore_trans Entry.isBefore_total hordered List.filter_sublist
  have hfilter := hsub.filter (·.metric.toBits = bits)
  simp only [List.filter_filter, Bool.and_self] at hfilter
  exact (hfilter.eq_of_length ((rank_perm l).filter _).length_eq.symm).symm

end Rank

/-! ### Sections -/

structure Criterion where
  admits : Stats → Bool
  count : Stats → Nat
  metric : Stats → Float

namespace Criterion

def entry (c : Criterion) (s : Stats) : Entry :=
  ⟨s.repository, s.workflow, s.total, c.count s, c.metric s⟩

def entries (c : Criterion) (stats : List Stats) : List Entry :=
  (stats.filter c.admits).map c.entry

structure Ranks (c : Criterion) (stats : List Stats) (ranking : List Entry) : Prop where
  perm : ranking.Perm (c.entries stats)
  descending : ranking.Pairwise fun a b => Decimal.TotalLe b.metric a.metric
  stable : ∀ bits, ranking.filter (·.metric.toBits = bits) =
    (c.entries stats).filter (·.metric.toBits = bits)

theorem ranks_rank (c : Criterion) (stats : List Stats) : c.Ranks stats (rank (c.entries stats)) :=
  ⟨rank_perm _, rank_pairwise _, fun bits => filter_rank bits _⟩

def runs : Criterion := ⟨fun _ => true, Stats.total, fun s => metricOfCount s.total⟩

def scheduledRuns (threshold : Nat) : Criterion :=
  ⟨fun s => threshold < s.events.schedule, (·.events.schedule),
    fun s => metricOfCount s.events.schedule⟩

def fraction (count : Stats → Nat) (s : Stats) : Float :=
  if s.total = 0 then 0 else (count s).toUInt64.toFloat / s.total.toUInt64.toFloat

def fractionAbove (ratio : Float) (minRuns : Nat) (count : Stats → Nat) : Criterion :=
  ⟨fun s => minRuns ≤ s.total && ratio < fraction count s, count, fraction count⟩

end Criterion

section Sections

variable (stats : List Stats)

theorem entries_runs : Criterion.runs.entries stats = stats.map Criterion.runs.entry := by
  rw [Criterion.entries, List.filter_eq_self.mpr fun _ _ => (rfl : Criterion.runs.admits _ = true)]

theorem busiest_eq (n : Nat) : busiest n stats = (rank (Criterion.runs.entries stats)).take n := by
  rw [busiest, entries_runs]
  rfl

end Sections

/-- Every section of a report is a ranking by its criterion. That of the busiest workflows is cut,
and a longer one only goes on. -/
theorem render_ranks (stats : List Stats) (findings : List FindingRow) (ruleOrder : List String)
    (coverage : Coverage) (o : Options) :
    let summary (n : Nat) := render stats findings ruleOrder coverage { o with topN := n }
    (∃ ranking, Criterion.runs.Ranks stats ranking ∧ ∀ n,
      (summary n).busiest = ranking.take (min n stats.length) ∧
      (summary n).busiest.length = min n stats.length ∧
      ∀ m, (summary n).busiest <+: (summary (n + m)).busiest) ∧
    ∀ n,
      (Criterion.scheduledRuns o.scheduleThreshold).Ranks stats (summary n).scheduleHeavy ∧
      (Criterion.fractionAbove o.pushDominantRatio o.pushDominantMinRuns (·.events.push)).Ranks
        stats (summary n).pushDominant ∧
      (Criterion.fractionAbove o.failureRatio o.minRuns (·.failed)).Ranks
        stats (summary n).highFailure ∧
      (Criterion.fractionAbove o.cancelRatio o.minRuns (·.cancelled)).Ranks
        stats (summary n).highCancellation := by
  intro summary
  have hbusiest : ∀ n, (summary n).busiest = (rank (Criterion.runs.entries stats)).take n :=
    busiest_eq stats
  have hlength : (rank (Criterion.runs.entries stats)).length = stats.length := by
    rw [(rank_perm _).length_eq, entries_runs, List.length_map]
  refine ⟨⟨_, Criterion.ranks_rank _ stats, fun n => ⟨?first, ?length, fun m => ?longer⟩⟩,
    fun n => ⟨?_, ?_, ?_, ?_⟩⟩
  case first => rw [hbusiest, ← hlength, ← List.take_eq_take_min]
  case length => rw [hbusiest, List.length_take, hlength]
  case longer =>
    rw [hbusiest, hbusiest]
    exact List.take_prefix_take_left (Nat.le_add_right n m)
  -- The other sections are not cut.
  all_goals exact Criterion.ranks_rank _ stats

end WorkflowAudit.Report
