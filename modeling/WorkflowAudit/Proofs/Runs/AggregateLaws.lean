import Mathlib
import WorkflowAudit.Runs.Aggregate

/-! Aggregation of runs. Counting one run after another comes to one group per workflow, in the
order in which the workflows first ran, and each group holds the counts of its own runs. -/

namespace WorkflowAudit.Runs

def Record.key (r : Record) : String × String := (r.repository, r.workflow)

def Stats.key (s : Stats) : String × String := (s.repository, s.workflow)

def runsOf (key : String × String) (records : List Record) : List Record :=
  records.filter (·.key = key)

def countedEvents : List String := ["push", "pull_request", "schedule", "workflow_dispatch"]

namespace EventCounts

def ofRuns (runs : List Record) : EventCounts where
  push := runs.countP (·.event = "push")
  pullRequest := runs.countP (·.event = "pull_request")
  schedule := runs.countP (·.event = "schedule")
  dispatch := runs.countP (·.event = "workflow_dispatch")
  other := runs.countP (·.event ∉ countedEvents)

theorem ofRuns_append_singleton (runs : List Record) (r : Record) :
    ofRuns (runs ++ [r]) = (ofRuns runs).add r.event := by
  simp only [ofRuns, add, List.countP_append, List.countP_singleton]
  by_cases push : r.event = "push"
  · simp [push, countedEvents]
  by_cases request : r.event = "pull_request"
  · simp [request, countedEvents]
  by_cases schedule : r.event = "schedule"
  · simp [schedule, countedEvents]
  by_cases dispatch : r.event = "workflow_dispatch"
  · simp [dispatch, countedEvents]
  simp [push, request, schedule, dispatch, countedEvents]

theorem total_ofRuns (runs : List Record) : (ofRuns runs).total = runs.length := by
  -- From the end of the list, where a run is counted last.
  induction runs using List.reverseRecOn with
  | nil => rfl
  | append_singleton runs r ih =>
    rw [ofRuns_append_singleton, total_add, ih, List.length_append, List.length_singleton]

end EventCounts

namespace Stats

def ofRuns (start stop : Time.Instant) (key : String × String) (runs : List Record) : Stats where
  repository := key.1
  workflow := key.2
  windowStart := start
  windowEnd := stop
  total := runs.length
  failed := runs.countP (·.conclusion = some .failure)
  cancelled := runs.countP (·.conclusion = some .cancelled)
  events := .ofRuns runs

variable {start stop : Time.Instant}

@[simp] theorem key_add (s : Stats) (r : Record) : (s.add r).key = s.key := rfl

@[simp] theorem key_ofRuns (key : String × String) (runs : List Record) :
    (ofRuns start stop key runs).key = key := rfl

theorem isOf_iff {s : Stats} {r : Record} : s.isOf r = true ↔ s.key = r.key := by
  simp [isOf, key, Record.key]

theorem ofRuns_append_singleton (key : String × String) (runs : List Record) (r : Record) :
    ofRuns start stop key (runs ++ [r]) = (ofRuns start stop key runs).add r := by
  simp only [ofRuns, add, EventCounts.ofRuns_append_singleton, List.countP_append,
    List.countP_singleton, List.length_append, List.length_singleton, decide_eq_true_eq]
  congr 1
  · split <;> rfl
  · split <;> rfl

theorem failed_add_cancelled_le (key : String × String) (runs : List Record) :
    (ofRuns start stop key runs).failed + (ofRuns start stop key runs).cancelled ≤
      (ofRuns start stop key runs).total := by
  simp only [ofRuns]
  induction runs with
  | nil => simp
  | cons r runs ih =>
    simp only [List.countP_cons, List.length_cons, decide_eq_true_eq]
    by_cases h : r.conclusion = some .failure
    · simp only [h, if_true, reduceCtorEq, Option.some.injEq, if_false]
      omega
    · simp only [h, if_false]
      split <;> omega

end Stats

/-- What the groups tell once some runs have been counted. -/
structure Tally (start stop : Time.Instant) (records : List Record) (groups : List Stats) :
    Prop where
  mem_iff : ∀ key, key ∈ groups.map Stats.key ↔ key ∈ records.map Record.key
  ordered : (groups.map Stats.key).Pairwise fun a b =>
    (records.map Record.key).idxOf a < (records.map Record.key).idxOf b
  eq_ofRuns : ∀ s ∈ groups, s = .ofRuns start stop s.key (runsOf s.key records)

section Count

variable {start stop : Time.Instant} {records : List Record} {groups : List Stats}

theorem count_of_not_mem {r : Record} (h : r.key ∉ groups.map Stats.key) :
    count start stop r groups =
      groups ++ [(Stats.ofNone r.repository r.workflow start stop).add r] := by
  induction groups with
  | nil => rfl
  | cons s rest ih =>
    simp only [List.map_cons, List.mem_cons, not_or] at h
    have hs : ¬s.isOf r := fun hs => h.1 (Stats.isOf_iff.mp hs).symm
    simp only [count, hs, ih h.2, if_false, List.cons_append, Bool.false_eq_true]

theorem count_of_mem {r : Record} (hnodup : (groups.map Stats.key).Nodup)
    (h : r.key ∈ groups.map Stats.key) :
    count start stop r groups = groups.map fun s => if s.key = r.key then s.add r else s := by
  induction groups with
  | nil => cases h
  | cons s rest ih =>
    simp only [List.map_cons, List.nodup_cons] at hnodup
    by_cases hs : s.key = r.key
    · -- No later group is of the same workflow.
      have hrest : rest.map (fun s => if s.key = r.key then s.add r else s) = rest := by
        refine (List.map_congr_left ?_).trans (List.map_id rest)
        intro t ht
        have hne : t.key ≠ r.key := by
          intro heq
          exact hnodup.1 (hs.trans heq.symm ▸ List.mem_map_of_mem ht)
        exact if_neg hne
      simp only [count, Stats.isOf_iff.mpr hs, List.map_cons, hs, if_true, hrest]
    · have hmem : r.key ∈ rest.map Stats.key :=
        (List.mem_cons.mp h).resolve_left fun heq => hs heq.symm
      have hof : ¬s.isOf r := fun hof => hs (Stats.isOf_iff.mp hof)
      simp only [count, hof, ih hnodup.2 hmem, List.map_cons, hs, if_false, Bool.false_eq_true]

theorem sum_total_count (r : Record) :
    ((count start stop r groups).map (·.total)).sum = (groups.map (·.total)).sum + 1 := by
  induction groups with
  | nil => rfl
  | cons s rest ih =>
    simp only [count]
    split
    · simp only [List.map_cons, List.sum_cons, Stats.add]
      omega
    · simp only [List.map_cons, List.sum_cons, ih]
      omega

theorem runsOf_append_of_ne {key : String × String} {r : Record} (h : r.key ≠ key) :
    runsOf key (records ++ [r]) = runsOf key records := by
  simp [runsOf, List.filter_append, h]

theorem runsOf_append_self (r : Record) :
    runsOf r.key (records ++ [r]) = runsOf r.key records ++ [r] := by
  simp [runsOf, List.filter_append]

namespace Tally

theorem nodup (h : Tally start stop records groups) : (groups.map Stats.key).Nodup :=
  h.ordered.imp fun hlt heq => by subst heq; exact Nat.lt_irrefl _ hlt

theorem ordered_append (h : Tally start stop records groups) (r : Record) :
    (groups.map Stats.key).Pairwise fun a b =>
      ((records ++ [r]).map Record.key).idxOf a < ((records ++ [r]).map Record.key).idxOf b := by
  refine h.ordered.imp_of_mem ?_
  intro a b ha hb hlt
  rw [h.mem_iff] at ha hb
  rwa [List.map_append, List.idxOf_append, List.idxOf_append, if_pos ha, if_pos hb]

theorem nil : Tally start stop [] [] where
  mem_iff _ := Iff.rfl
  ordered := .nil
  eq_ofRuns s hs := by cases hs

theorem count_known (h : Tally start stop records groups) {r : Record}
    (hr : r.key ∈ groups.map Stats.key) :
    Tally start stop (records ++ [r]) (count start stop r groups) := by
  have hcount : count start stop r groups = _ := count_of_mem h.nodup hr
  have hkeys : (count start stop r groups).map Stats.key = groups.map Stats.key := by
    rw [hcount, List.map_map]
    apply List.map_congr_left
    intro s _
    simp only [Function.comp_apply]
    split <;> rfl
  refine ⟨?_, hkeys ▸ h.ordered_append r, ?_⟩
  · intro key
    rw [hkeys, h.mem_iff, List.map_append, List.mem_append]
    constructor
    · exact .inl
    · rintro (hkey | hkey)
      · exact hkey
      · rw [List.map_singleton, List.mem_singleton] at hkey
        rw [hkey, ← h.mem_iff]
        exact hr
  · rw [hcount]
    intro t ht
    obtain ⟨s, hs, rfl⟩ := List.mem_map.mp ht
    by_cases hkey : s.key = r.key
    · simp only [hkey, if_true, Stats.key_add]
      conv_lhs => rw [h.eq_ofRuns s hs, hkey]
      rw [runsOf_append_self, Stats.ofRuns_append_singleton]
    · simp only [hkey, if_false]
      rw [runsOf_append_of_ne (Ne.symm hkey)]
      exact h.eq_ofRuns s hs

theorem count_new (h : Tally start stop records groups) {r : Record}
    (hr : r.key ∉ groups.map Stats.key) :
    Tally start stop (records ++ [r]) (count start stop r groups) := by
  have hnone : runsOf r.key records = [] := by
    rw [h.mem_iff, List.mem_map] at hr
    rw [runsOf, List.filter_eq_nil_iff]
    intro t ht heq
    exact hr ⟨t, ht, of_decide_eq_true heq⟩
  have hadded : (Stats.ofNone r.repository r.workflow start stop).add r =
      .ofRuns start stop r.key (runsOf r.key (records ++ [r])) := by
    rw [runsOf_append_self, hnone, Stats.ofRuns_append_singleton]
    rfl
  rw [count_of_not_mem hr, hadded]
  refine ⟨?_, ?_, ?_⟩
  · intro key
    simp only [List.map_append, List.mem_append, h.mem_iff, List.map_singleton, Stats.key_ofRuns]
  · rw [List.map_append (f := Stats.key), List.map_singleton, Stats.key_ofRuns,
      List.pairwise_append]
    refine ⟨h.ordered_append r, List.pairwise_singleton .., ?_⟩
    intro a ha b hb
    rw [List.mem_singleton] at hb
    rw [h.mem_iff] at ha hr
    rw [hb, List.map_append, List.idxOf_append, List.idxOf_append, if_pos ha, if_neg hr]
    have := List.idxOf_lt_length_of_mem ha
    omega
  · intro s hs
    rcases List.mem_append.mp hs with hs | hs
    · have hne : r.key ≠ s.key := fun heq => hr (heq ▸ List.mem_map_of_mem hs)
      rw [runsOf_append_of_ne hne]
      exact h.eq_ofRuns s hs
    · rw [List.mem_singleton] at hs
      rw [hs, Stats.key_ofRuns]

theorem count (h : Tally start stop records groups) (r : Record) :
    Tally start stop (records ++ [r]) (Runs.count start stop r groups) := by
  by_cases hr : r.key ∈ groups.map Stats.key
  · exact h.count_known hr
  · exact h.count_new hr

theorem foldl (records : List Record) :
    Tally start stop records
      (records.foldl (fun groups r => Runs.count start stop r groups) []) := by
  induction records using List.reverseRecOn with
  | nil => exact nil
  | append_singleton records r ih =>
    rw [List.foldl_append]
    exact ih.count r

theorem total_pos (h : Tally start stop records groups) {s : Stats} (hs : s ∈ groups) :
    0 < s.total := by
  rw [h.eq_ofRuns s hs]
  obtain ⟨r, hr, hkey⟩ := List.mem_map.mp ((h.mem_iff s.key).mp (List.mem_map_of_mem hs))
  exact List.length_pos_of_mem (List.mem_filter.mpr ⟨hr, decide_eq_true hkey⟩)

end Tally

theorem sum_total_foldl (records : List Record) :
    ((records.foldl (fun groups r => count start stop r groups) []).map (·.total)).sum =
      records.length := by
  induction records using List.reverseRecOn with
  | nil => rfl
  | append_singleton records r ih =>
    rw [List.foldl_append, List.foldl_cons, List.foldl_nil, sum_total_count, ih, List.length_append,
      List.length_singleton]

theorem filter_count (keep : String → Bool) (r : Record) :
    (count start stop r groups).filter (fun s => keep s.repository) =
      if keep r.repository then count start stop r (groups.filter fun s => keep s.repository)
      else groups.filter fun s => keep s.repository := by
  induction groups with
  | nil => simp [count, Stats.ofNone, Stats.add, List.filter_cons]
  | cons s rest ih =>
    by_cases hs : s.isOf r = true
    · -- The run and the group it is counted in are of one repository.
      have hrepository : s.repository = r.repository := congrArg Prod.fst (Stats.isOf_iff.mp hs)
      simp only [count, hs, if_true, List.filter_cons, Stats.add, hrepository]
      cases keep r.repository <;> simp [count, hs, Stats.add, hrepository]
    · rw [count, if_neg hs, List.filter_cons, List.filter_cons, ih]
      cases keep s.repository <;> cases keep r.repository <;> simp [count, hs]

theorem filter_foldl_count (keep : String → Bool) (records : List Record) :
    (records.foldl (fun groups r => count start stop r groups) groups).filter
        (fun s => keep s.repository) =
      (records.filter fun r => keep r.repository).foldl (fun groups r => count start stop r groups)
        (groups.filter fun s => keep s.repository) := by
  induction records generalizing groups with
  | nil => rfl
  | cons r records ih =>
    rw [List.foldl_cons, ih, filter_count, List.filter_cons]
    split <;> rfl

end Count

theorem aggregate_of_minusDays {now start : Time.Instant} {windowDays : Nat}
    (h : now.minusDays? windowDays = some start) (records : List Record) :
    aggregate records windowDays now =
      .ok ((within start records).foldl (fun groups r => count start now r groups) []) := by
  simp only [aggregate, h]

theorem aggregate_filter {now : Time.Instant} {windowDays : Nat} {records : List Record}
    {groups : List Stats} (keep : String → Bool)
    (h : aggregate records windowDays now = .ok groups) :
    aggregate (records.filter fun r => keep r.repository) windowDays now =
      .ok (groups.filter fun s => keep s.repository) := by
  cases hstart : now.minusDays? windowDays with
  | none =>
    rw [aggregate, hstart] at h
    cases h
  | some start =>
    rw [aggregate_of_minusDays hstart] at h ⊢
    rw [← Except.ok.inj h, filter_foldl_count, within, within, List.filter_filter,
      List.filter_filter]
    simp only [Bool.and_comm, List.filter_nil]

/-- One group per workflow that ran after the start of the window, in the order of the first runs,
each with the counts of its own runs. Runs outside the window make no difference. -/
theorem aggregate_eq_ok {now start : Time.Instant} {windowDays : Nat} (records : List Record)
    (h : now.minusDays? windowDays = some start) :
    ∃ groups, aggregate records windowDays now = .ok groups ∧
      (∀ key, key ∈ groups.map Stats.key ↔
        ∃ r ∈ records, start.isBefore r.createdAt = true ∧ r.key = key) ∧
      (groups.map Stats.key).Nodup ∧
      ((groups.map Stats.key).Pairwise fun a b =>
        ((within start records).map Record.key).idxOf a <
          ((within start records).map Record.key).idxOf b) ∧
      (∀ s ∈ groups, s = .ofRuns start now s.key (runsOf s.key (within start records)) ∧
        s.failed + s.cancelled ≤ s.total ∧ s.events.total = s.total ∧ 0 < s.total) ∧
      (groups.map (·.total)).sum = (within start records).length ∧
      ∀ others, within start others = within start records →
        aggregate others windowDays now = .ok groups := by
  have htally : Tally start now _ _ := Tally.foldl (within start records)
  refine ⟨_, aggregate_of_minusDays h records, ?_, htally.nodup, htally.ordered, ?_,
    sum_total_foldl _, ?_⟩
  · intro key
    rw [htally.mem_iff, List.mem_map]
    simp only [within, List.mem_filter, and_assoc]
  · intro s hs
    have heq := htally.eq_ofRuns s hs
    refine ⟨heq, ?_, ?_, htally.total_pos hs⟩
    · rw [heq]
      exact Stats.failed_add_cancelled_le ..
    · rw [heq]
      exact EventCounts.total_ofRuns _
  · intro others hothers
    rw [aggregate_of_minusDays h, hothers]

def sampleRuns : List Record :=
  [⟨"acme/web", "CI", ⟨0, 0⟩, .completed, some .success, "push"⟩,
    ⟨"acme/web", "Lint", ⟨1, 0⟩, .completed, some .failure, "release"⟩,
    ⟨"acme/web", "CI", ⟨0, 1⟩, .completed, none, "schedule"⟩]

theorem aggregate_sampleRuns :
    Time.Instant.minusDays? ⟨86400, 0⟩ 1 = some ⟨0, 0⟩ ∧
      ∃ groups, aggregate sampleRuns 1 ⟨86400, 0⟩ = .ok groups ∧
        (groups.map (·.total)).sum = (within ⟨0, 0⟩ sampleRuns).length := by
  have h : Time.Instant.minusDays? ⟨86400, 0⟩ 1 = some ⟨0, 0⟩ := by decide
  obtain ⟨groups, hok, _, _, _, _, hsum, _⟩ := aggregate_eq_ok sampleRuns h
  exact ⟨h, groups, hok, hsum⟩

end WorkflowAudit.Runs
