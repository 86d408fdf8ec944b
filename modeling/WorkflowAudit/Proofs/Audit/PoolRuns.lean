import WorkflowAudit.Proofs.Audit.OutcomeLaws
import WorkflowAudit.Proofs.Audit.PoolOutcome
import WorkflowAudit.Proofs.Audit.PoolProgress

namespace WorkflowAudit.Audit

open Config (Settings)
open Hosting (Call)
open Lint (Engine)

namespace Outcome

variable {engine : Engine} {windowDays : Nat} {now : Time.Instant} {cancelled : Bool}
variable {audits : List (Option RepositoryAudit)} {o : Outcome}

theorem of_ofAudits (h : ofAudits engine windowDays now cancelled audits = .ok o) :
    o.records = (audits.filterMap id).flatMap (·.records) ∧
      o.findings = (audits.filterMap id).flatMap (·.files.findings) ∧
      o.diagnostics =
        (audits.filterMap id).flatMap fun a => a.runHistory ++ a.files.diagnostics := by
  rcases ofAudits_cases engine windowDays now cancelled audits with
    ⟨-, herror⟩ | ⟨o', ho', hrecords, -, hfindings, hdiagnostics, -⟩
  · cases h.symm.trans herror
  · obtain rfl := Except.ok.inj (h.symm.trans ho')
    exact ⟨hrecords, hfindings, hdiagnostics⟩

end Outcome

theorem isInfix_flatMap_of_mem {α β : Type} (f : α → List β) {l : List α} {a : α} (h : a ∈ l) :
    f a <:+: l.flatMap f := by
  obtain ⟨before, after, rfl⟩ := List.append_of_mem h
  refine ⟨before.flatMap f, after.flatMap f, ?_⟩
  rw [List.flatMap_append, List.flatMap_cons, List.append_assoc]

theorem map_fst_filter_zipIdx_lt {α : Type} (l : List α) (k n : Nat) :
    ((l.zipIdx n).filter fun c => decide (c.2 < n + k)).map (·.1) = l.take k := by
  induction l generalizing k n with
  | nil => simp
  | cons a l ih =>
    cases k with
    | zero =>
      rw [List.take_zero, List.map_eq_nil_iff, List.filter_eq_nil_iff]
      rintro ⟨b, i⟩ hb
      have := List.le_snd_of_mem_zipIdx hb
      simp only [decide_eq_true_eq, Nat.add_zero]
      omega
    | succ k =>
      have hn : n < n + (k + 1) := by omega
      have hrest : n + (k + 1) = n + 1 + k := by omega
      rw [List.zipIdx_cons, List.filter_cons, if_pos (decide_eq_true hn), hrest, List.map_cons, ih,
        List.take_succ_cons]

theorem exists_threshold {P : Nat → Prop} {n : Nat}
    (h : ∀ i j, i < j → j < n → P i → P j) : ∃ k, ∀ i < n, (P i ↔ k ≤ i) := by
  induction n with
  | zero => exact ⟨0, fun i hi => absurd hi (Nat.not_lt_zero i)⟩
  | succ n ih =>
    by_cases hn : P n
    · obtain ⟨k, hk⟩ := ih fun i j hij hj => h i j hij (Nat.lt_succ_of_lt hj)
      refine ⟨min k n, fun i hi => ?_⟩
      rcases Nat.lt_or_eq_of_le (Nat.le_of_lt_succ hi) with hlt | rfl
      · rw [hk i hlt]
        omega
      · exact ⟨fun _ => Nat.min_le_right k i, fun _ => hn⟩
    · refine ⟨n + 1, fun i hi => ⟨fun hP => ?_, fun hle => absurd hi (by omega)⟩⟩
      rcases Nat.lt_or_eq_of_le (Nat.le_of_lt_succ hi) with hlt | rfl
      · exact absurd (h i n hlt (Nat.lt_succ_self n) hP) hn
      · exact absurd hP hn

namespace Pool

def startPlaces (events : List Event) : List Nat :=
  events.filterMap fun
    | .start i _ => some i
    | _ => none

section

variable {answer : (c : Call) → c.Answer} {engine : Engine} {settings : Settings}
variable {repositories : List String} {events before after : List Event} {p : Pool}
variable {i : Nat} {saw : Bool}

theorem mem_startPlaces (h : .start i saw ∈ events) : i ∈ startPlaces events :=
  List.mem_filterMap.mpr ⟨_, h, rfl⟩

theorem Run.start_check (hrun : Run answer engine settings (start repositories) events p)
    (h : events = before ++ .start i saw :: after) : saw = decide (.cancel ∈ before) := by
  induction hrun generalizing before after with
  | here => exact absurd h (by simp)
  | @after q r events e hrun hstep ih =>
    rcases List.eq_nil_or_concat after with rfl | ⟨after, last, rfl⟩
    · obtain ⟨rfl, he⟩ := List.append_inj' h rfl
      obtain rfl := List.head_eq_of_cons_eq he
      cases hstep with
      | start => rw [Bool.eq_iff_iff, decide_eq_true_iff, (Invariant.of_run hrun).cancelled_iff]
    · rw [List.concat_eq_append, ← List.cons_append, ← List.append_assoc] at h
      exact ih (List.append_inj' h rfl).1

theorem Run.cancel_mem (hrun : Run answer engine settings (start repositories) events p)
    (h : .start i true ∈ events) : .cancel ∈ events := by
  obtain ⟨before, after, rfl⟩ := List.append_of_mem h
  exact List.mem_append_left _ (of_decide_eq_true (hrun.start_check rfl).symm)

namespace Invariant

theorem exists_checksAt (h : Invariant answer engine settings repositories events p)
    (hdone : p.isDone) (hi : i < repositories.length) : ∃ saw, checksAt i events = [saw] := by
  have hslot := h.slot_of_isDone hdone hi
  obtain ⟨saw, hchecks, _⟩ := (h.stage (List.getElem?_eq_getElem hi) hslot).of_finished
  exact ⟨saw, hchecks⟩

theorem admits_eq (h : Invariant answer engine settings repositories events p)
    (hdone : p.isDone) (hi : i < repositories.length) :
    admits events i = !decide (.start i true ∈ events) := by
  obtain ⟨saw, hsaw⟩ := h.exists_checksAt hdone hi
  simp only [admits, ← mem_checksAt, hsaw, List.mem_singleton]
  cases saw <;> rfl

end Invariant

theorem admitted_eq_take {k : Nat}
    (h : ∀ i < repositories.length, (admits events i = true ↔ i < k)) :
    admitted repositories events = repositories.take k := by
  rw [← map_fst_filter_zipIdx_lt repositories k 0, admitted]
  congr 1
  refine List.filter_congr fun c hc => ?_
  obtain ⟨_, hlt, _⟩ := List.mem_zipIdx hc
  rw [Bool.eq_iff_iff, decide_eq_true_iff, Nat.zero_add]
  exact h c.2 (by omega)

theorem exists_turnedAway_from
    (hrun : Run answer engine settings (start repositories) events p) (hdone : p.isDone)
    (hinOrder : (startPlaces events).Pairwise (· < ·)) :
    ∃ k, ∀ i < repositories.length, (.start i true ∈ events ↔ k ≤ i) := by
  have hinv := Invariant.of_run hrun
  have hlater : ∀ i j, i < j → j < repositories.length →
      .start i true ∈ events → .start j true ∈ events := by
    intro i j hij hj hi
    refine Classical.byContradiction fun hsaw => ?_
    have hadmits : .start j false ∈ events := by
      simpa [admits, hsaw] using hinv.admits_eq hdone hj
    obtain ⟨before, after, rfl⟩ := List.append_of_mem hadmits
    -- The unit in the earlier place has started before, and there its check saw the cancellation.
    have hbefore : .start i true ∈ before := by
      simp only [List.mem_append, List.mem_cons, Event.start.injEq] at hi
      rcases hi with hi | ⟨_, hfalse⟩ | hi
      · exact hi
      · cases hfalse
      · simp only [startPlaces, List.filterMap_append, List.filterMap_cons] at hinOrder
        have := (List.pairwise_cons.mp (List.pairwise_append.mp hinOrder).2.1).1 i
          (mem_startPlaces hi)
        omega
    obtain ⟨first, rest, rfl⟩ := List.append_of_mem hbefore
    have hfirst : .cancel ∈ first := by
      have hsplit : first ++ .start i true :: rest ++ .start j false :: after =
          first ++ .start i true :: (rest ++ .start j false :: after) := by simp
      exact of_decide_eq_true (hrun.start_check hsplit).symm
    have := hrun.start_check rfl
    simp [hfirst] at this
  exact exists_threshold hlater

variable {now : Time.Instant}

theorem isDone_of_outcome {o : Except Runs.WindowError Outcome}
    (ho : p.outcome? engine settings now = some o) : p.isDone := by
  rw [outcome?] at ho
  split at ho
  · assumption
  · cases ho

theorem admitted_of_not_cancelled
    (hrun : Run answer engine settings (start repositories) events p) (hdone : p.isDone)
    (hcancel : .cancel ∉ events) : admitted repositories events = repositories := by
  refine (admitted_eq_take (k := repositories.length) fun i hi => ?_).trans List.take_length
  have hsaw : .start i true ∉ events := fun h => hcancel (hrun.cancel_mem h)
  simp [(Invariant.of_run hrun).admits_eq hdone hi, hsaw, hi]

theorem outcome_of_not_cancelled
    (hrun : Run answer engine settings (start repositories) events p)
    {o : Except Runs.WindowError Outcome} (ho : p.outcome? engine settings now = some o)
    (hcancel : .cancel ∉ events) (width : Nat) :
    o = sequentialOutcome answer engine { settings with concurrency := width } repositories
      now := by
  have hadmitted := admitted_of_not_cancelled hrun (isDone_of_outcome ho) hcancel
  rw [(Invariant.of_run hrun).outcome?_eq ho, hadmitted, Nat.sub_self, decide_eq_false hcancel,
    map_outOf_sequentialOutcome]
  rfl

theorem exists_sequential
    (hrun : Run answer engine settings (start repositories) events p) {o : Outcome}
    (ho : p.outcome? engine settings now = some (.ok o)) :
    ∃ s, sequentialOutcome answer engine settings (admitted repositories events) now = .ok s ∧
      o = s.outOf repositories.length
        (repositories.length - (admitted repositories events).length)
        (decide (.cancel ∈ events)) := by
  have h := (Invariant.of_run hrun).outcome?_eq ho
  cases hs : sequentialOutcome answer engine settings (admitted repositories events) now with
  | error e =>
    rw [hs] at h
    cases h
  | ok s =>
    rw [hs] at h
    exact ⟨s, rfl, Except.ok.inj h⟩

theorem mem_admitted {repository : String} (hr : repositories[i]? = some repository)
    (hadmits : .start i false ∈ events) : repository ∈ admitted repositories events :=
  List.mem_map.mpr ⟨(repository, i), List.mem_filter.mpr
    ⟨List.mk_mem_zipIdx_iff_getElem?.mpr hr, decide_eq_true hadmits⟩, rfl⟩

theorem isInfix_of_admitted
    (hrun : Run answer engine settings (start repositories) events p) {o : Outcome}
    (ho : p.outcome? engine settings now = some (.ok o)) {repository : String}
    (hmem : repository ∈ admitted repositories events) :
    (auditOf answer engine settings.runLimit repository).records <:+: o.records ∧
      (auditOf answer engine settings.runLimit repository).files.findings <:+: o.findings ∧
      (auditOf answer engine settings.runLimit repository).runHistory ++
        (auditOf answer engine settings.runLimit repository).files.diagnostics <:+:
          o.diagnostics := by
  obtain ⟨s, hs, rfl⟩ := exists_sequential hrun ho
  rw [sequentialOutcome_eq] at hs
  obtain ⟨hrecords, hfindings, hdiagnostics⟩ := Outcome.of_ofAudits hs
  have hstarted : auditOf answer engine settings.runLimit repository ∈
      ((admitted repositories events).map fun r =>
        some (auditOf answer engine settings.runLimit r)).filterMap id :=
    List.mem_filterMap.mpr ⟨_, List.mem_map_of_mem hmem, rfl⟩
  refine ⟨?_, ?_, ?_⟩
  · exact hrecords ▸ isInfix_flatMap_of_mem (·.records) hstarted
  · exact hfindings ▸ isInfix_flatMap_of_mem (·.files.findings) hstarted
  · exact hdiagnostics ▸
      isInfix_flatMap_of_mem (fun a => a.runHistory ++ a.files.diagnostics) hstarted

theorem cancelled_of_repositoriesCancelled
    (hrun : Run answer engine settings (start repositories) events p) {o : Outcome}
    (ho : p.outcome? engine settings now = some (.ok o))
    (hpos : 0 < o.coverage.repositoriesCancelled) : o.coverage.cancelled := by
  obtain ⟨s, _, rfl⟩ := exists_sequential hrun ho
  refine decide_eq_true (Classical.byContradiction fun hcancel => ?_)
  have hadmitted := admitted_of_not_cancelled hrun (isDone_of_outcome ho) hcancel
  have hlength : 0 < repositories.length - (admitted repositories events).length := hpos
  rw [hadmitted, Nat.sub_self] at hlength
  exact Nat.lt_irrefl 0 hlength

theorem exists_admitted_eq_take
    (hrun : Run answer engine settings (start repositories) events p) (hdone : p.isDone)
    (hinOrder : (startPlaces events).Pairwise (· < ·)) :
    ∃ k, admitted repositories events = repositories.take k ∧
      ∀ i < repositories.length, (.start i true ∈ events ↔ k ≤ i) := by
  obtain ⟨k, hk⟩ := exists_turnedAway_from hrun hdone hinOrder
  refine ⟨k, admitted_eq_take fun i hi => ?_, hk⟩
  rw [(Invariant.of_run hrun).admits_eq hdone hi, Bool.not_eq_true', decide_eq_false_iff_not,
    hk i hi, Nat.not_le]

/-- Whatever the order of the steps of a pool and whenever the audit is cancelled, a run comes to
its end, a start check sees whether the audit was cancelled before, and the outcome is that of
auditing the admitted repositories one after another. -/
theorem outcome_of_run (hrun : Run answer engine settings (start repositories) events p)
    (now : Time.Instant) :
    p.runningCount ≤ max settings.concurrency 1 ∧
    events.countP (· ≠ .cancel) ≤ stepsLeft answer engine settings (start repositories) ∧
    (∃ more q, Run answer engine settings p more q ∧ .cancel ∉ more ∧
      (q.outcome? engine settings now).isSome) ∧
    (∀ before i saw after, events = before ++ .start i saw :: after →
      saw = decide (.cancel ∈ before)) ∧
    (∀ o, p.outcome? engine settings now = some o →
      o = (sequentialOutcome answer engine settings (admitted repositories events) now).map
        (·.outOf repositories.length
          (repositories.length - (admitted repositories events).length)
          (decide (.cancel ∈ events))) ∧
      (.cancel ∉ events → ∀ width, o = sequentialOutcome answer engine
        { settings with concurrency := width } repositories now) ∧
      ((startPlaces events).Pairwise (· < ·) →
        ∃ k, admitted repositories events = repositories.take k ∧
          ∀ i < repositories.length, (.start i true ∈ events ↔ k ≤ i))) ∧
    ∀ o, p.outcome? engine settings now = some (.ok o) →
      (0 < o.coverage.repositoriesCancelled → o.coverage.cancelled) ∧
      ∀ i repository, repositories[i]? = some repository → .start i false ∈ events →
        (auditOf answer engine settings.runLimit repository).records <:+: o.records ∧
          (auditOf answer engine settings.runLimit repository).files.findings <:+: o.findings ∧
          (auditOf answer engine settings.runLimit repository).runHistory ++
            (auditOf answer engine settings.runLimit repository).files.diagnostics <:+:
              o.diagnostics := by
  refine ⟨hrun.runningCount_le, ?_, ?_, fun before i saw after h => hrun.start_check h,
    fun o ho => ⟨?_, ?_, ?_⟩, fun o ho => ⟨?_, ?_⟩⟩
  · exact Nat.le_trans (Nat.le_add_right ..) (countP_events_le hrun)
  · obtain ⟨more, q, hmore, hcancel, hdone⟩ := hrun.exists_isDone
    refine ⟨more, q, hmore, hcancel, ?_⟩
    rw [outcome?, if_pos hdone]
    rfl
  · exact (Invariant.of_run hrun).outcome?_eq ho
  · exact outcome_of_not_cancelled hrun ho
  · exact exists_admitted_eq_take hrun (isDone_of_outcome ho)
  · exact cancelled_of_repositoriesCancelled hrun ho
  · intro i repository hr hadmits
    exact isInfix_of_admitted hrun ho (mem_admitted hr hadmits)

end

def emptyService : (c : Call) → c.Answer
  | .repositories _ => .ok []
  | .runs _ _ => .ok []
  | .files _ => .ok []
  | .definition _ _ => .ok none

def sampleEvents : List Event :=
  [.start 0 false, .proceed 0 (.call (.runs "acme/web" 100)), .cancel,
    .proceed 0 (.call (.files "acme/web")), .finish 0, .start 1 true, .finish 1]

theorem outcome_sampleEvents :
    ∃ p, Run emptyService .builtin { concurrency := 1 } (start ["acme/web", "acme/docs"])
        sampleEvents p ∧
      p.outcome? .builtin { concurrency := 1 } ⟨86400, 0⟩ =
        some ((sequentialOutcome emptyService .builtin { concurrency := 1 } ["acme/web"]
          ⟨86400, 0⟩).map (·.outOf 2 1 true)) := by
  have h0 : Run emptyService .builtin { concurrency := 1 } (start ["acme/web", "acme/docs"]) [] _ :=
    .here
  have h1 := h0.after (e := .start 0 false) (.start rfl (by decide))
  have h2 := h1.after (e := .proceed 0 (.call (.runs "acme/web" 100))) (.proceed rfl)
  have h3 := h2.after .cancel
  have h4 := h3.after (e := .proceed 0 (.call (.files "acme/web"))) (.proceed rfl)
  have h5 := h4.after (e := .finish 0) (.finish rfl)
  have h6 := h5.after (e := .start 1 true) (.start rfl (by decide))
  have hrun := h6.after (e := .finish 1) (.finish rfl)
  refine ⟨_, hrun, ?_⟩
  obtain ⟨_, _, _, _, houtcome, _⟩ := outcome_of_run hrun ⟨86400, 0⟩
  exact congrArg some (houtcome _ rfl).1

end Pool

end WorkflowAudit.Audit
