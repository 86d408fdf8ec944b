import WorkflowAudit.Proofs.Audit.PoolLaws

namespace WorkflowAudit.Audit

open Config (Settings)
open Hosting (Call)
open Lint (Engine)

section Placed

variable {α : Type} {l : List (Nat × α)} {results : List α}

def placed (results : List α) : List (Nat × α) := results.zipIdx.map Prod.swap

theorem mem_placed {i : Nat} {a : α} : (i, a) ∈ placed results ↔ results[i]? = some a := by
  rw [← List.mk_mem_zipIdx_iff_getElem?]
  simp only [placed, List.mem_map, Prod.exists, Prod.swap_prod_mk, Prod.mk.injEq]
  constructor
  · rintro ⟨_, _, h, rfl, rfl⟩
    exact h
  · intro h
    exact ⟨a, i, h, rfl, rfl⟩

theorem map_snd_placed (results : List α) : (placed results).map (·.2) = results := by
  rw [placed, List.map_map]
  exact List.zipIdx_map_fst 0 results

theorem pairwise_placed (results : List α) : (placed results).Pairwise fun a b => a.1 < b.1 := by
  have h : ((placed results).map Prod.fst).Pairwise (· < ·) := by
    rw [placed, List.map_map]
    change (results.zipIdx.map Prod.snd).Pairwise (· < ·)
    rw [List.zipIdx_map_snd]
    exact List.pairwise_lt_range' 1
  exact List.pairwise_map.mp h

variable [DecidableEq α]

theorem perm_placed (hlt : ∀ c ∈ l, c.1 < results.length)
    (hone : ∀ {i a}, results[i]? = some a → (l.filter (·.1 = i)).map (·.2) = [a]) :
    l.Perm (placed results) := by
  have hmem : ∀ c, c ∈ l ↔ c ∈ placed results := by
    rintro ⟨i, a⟩
    rw [mem_placed]
    constructor
    · intro h
      obtain ⟨b, hb⟩ : ∃ b, results[i]? = some b := ⟨_, List.getElem?_eq_getElem (hlt _ h)⟩
      have ha : a ∈ (l.filter (·.1 = i)).map (·.2) :=
        List.mem_map.mpr ⟨(i, a), List.mem_filter.mpr ⟨h, decide_eq_true rfl⟩, rfl⟩
      rw [hone hb, List.mem_singleton] at ha
      rw [hb, ha]
    · intro h
      have ha : a ∈ (l.filter (·.1 = i)).map (·.2) := hone h ▸ List.mem_singleton_self a
      obtain ⟨⟨j, b⟩, hc, rfl⟩ := List.mem_map.mp ha
      obtain ⟨hc, hj⟩ := List.mem_filter.mp hc
      exact of_decide_eq_true hj ▸ hc
  have hnodup : l.Nodup := by
    rw [List.nodup_iff_count]
    rintro ⟨i, a⟩
    by_cases hc : (i, a) ∈ l
    · obtain ⟨b, hb⟩ : ∃ b, results[i]? = some b := ⟨_, List.getElem?_eq_getElem (hlt _ hc)⟩
      calc
        l.count (i, a) = (l.filter (·.1 = i)).count (i, a) := by
          rw [List.count_filter]
          exact decide_eq_true rfl
        _ ≤ (l.filter (·.1 = i)).length := List.count_le_length
        _ = ((l.filter (·.1 = i)).map (·.2)).length := (List.length_map _).symm
        _ = 1 := by rw [hone hb, List.length_singleton]
    · rw [List.count_eq_zero_of_not_mem hc]
      exact Nat.zero_le 1
  have hplaced : (placed results).Nodup := by
    refine (pairwise_placed results).imp ?_
    rintro a b hlt rfl
    exact Nat.lt_irrefl _ hlt
  exact (List.perm_ext_iff_of_nodup hnodup hplaced).mpr hmem

theorem map_snd_mergeSort_places (hlt : ∀ c ∈ l, c.1 < results.length)
    (hone : ∀ {i a}, results[i]? = some a → (l.filter (·.1 = i)).map (·.2) = [a]) :
    (l.mergeSort fun a b => a.1 ≤ b.1).map (·.2) = results := by
  have hperm : (l.mergeSort fun a b => a.1 ≤ b.1).Perm (placed results) :=
    (List.mergeSort_perm ..).trans (perm_placed hlt hone)
  have hsorted : (l.mergeSort fun a b => a.1 ≤ b.1).Pairwise fun a b => a.1 ≤ b.1 := by
    refine (List.pairwise_mergeSort ?_ ?_ l).imp of_decide_eq_true
    · intro a b c hab hbc
      exact decide_eq_true (Nat.le_trans (of_decide_eq_true hab) (of_decide_eq_true hbc))
    · intro a b
      simpa using Nat.le_total a.1 b.1
  have heq : (l.mergeSort fun a b => a.1 ≤ b.1) = placed results := by
    refine List.Perm.eq_of_pairwise ?_ hsorted ((pairwise_placed results).imp Nat.le_of_lt) hperm
    rintro ⟨i, a⟩ ⟨j, b⟩ ha hb hij hji
    -- Two results of one place are one result.
    obtain rfl := Nat.le_antisymm hij hji
    rw [hperm.mem_iff, mem_placed] at ha
    rw [mem_placed] at hb
    rw [Option.some.inj (ha.symm.trans hb)]
  rw [heq, map_snd_placed]

end Placed

namespace Outcome

def outOf (o : Outcome) (requested unstarted : Nat) (cancelled : Bool) : Outcome :=
  { o with
    coverage := { o.coverage with
      repositoriesRequested := requested
      repositoriesCancelled := unstarted
      cancelled } }

theorem ofAudits_eq_outOf (engine : Engine) (windowDays : Nat) (now : Time.Instant)
    (cancelled : Bool) (audits : List (Option RepositoryAudit)) :
    ofAudits engine windowDays now cancelled audits =
      (ofAudits engine windowDays now false ((audits.filterMap id).map some)).map
        (·.outOf audits.length (audits.countP Option.isNone) cancelled) := by
  have hstarted : ((audits.filterMap id).map some).filterMap id = audits.filterMap id := by
    rw [List.filterMap_map]
    exact List.filterMap_some
  simp only [ofAudits, coverageOf, hstarted]
  cases Runs.aggregate ((audits.filterMap id).flatMap (·.records)) windowDays now with
  | error e => rfl
  | ok stats => rfl

end Outcome

section Sequential

variable (answer : (c : Call) → c.Answer) (engine : Engine) (settings : Settings)

def sequentialOutcome (repositories : List String) (now : Time.Instant) :
    Except Runs.WindowError Outcome :=
  (run engine settings repositories now).answeredBy (answerAt answer false)

theorem answeredBy_auditRepository (repository : String) :
    (auditRepository engine settings.runLimit repository).answeredBy (answerAt answer false) =
      some (auditOf answer engine settings.runLimit repository) :=
  answeredBy_advance_auditRepository answer engine settings.runLimit false repository

theorem sequentialOutcome_eq (repositories : List String) (now : Time.Instant) :
    sequentialOutcome answer engine settings repositories now =
      Outcome.ofAudits engine settings.windowDays now false
        (repositories.map fun r => some (auditOf answer engine settings.runLimit r)) := by
  rw [sequentialOutcome, run, Dialogue.answeredBy_bind, Dialogue.answeredBy_forEach]
  simp only [answeredBy_auditRepository]
  rfl

theorem map_outOf_sequentialOutcome (repositories : List String) (now : Time.Instant) :
    (sequentialOutcome answer engine settings repositories now).map
        (·.outOf repositories.length 0 false) =
      sequentialOutcome answer engine settings repositories now := by
  have h := Outcome.ofAudits_eq_outOf engine settings.windowDays now false
    (repositories.map fun r => some (auditOf answer engine settings.runLimit r))
  have hstarted : ((repositories.map fun r =>
      some (auditOf answer engine settings.runLimit r)).filterMap id).map some =
      repositories.map fun r => some (auditOf answer engine settings.runLimit r) := by
    simp [List.filterMap_map, Function.comp_def]
  rw [hstarted, List.length_map, List.countP_map, List.countP_eq_zero.mpr fun _ _ => by simp] at h
  rw [sequentialOutcome_eq]
  exact h.symm

end Sequential

namespace Pool

def admits (events : List Event) (place : Nat) : Bool := .start place false ∈ events

/-- The repositories whose start check did not see the audit cancelled, in their order. -/
def admitted (repositories : List String) (events : List Event) : List String :=
  (repositories.zipIdx.filter fun c => admits events c.2).map (·.1)

section

variable {answer : (c : Call) → c.Answer} {engine : Engine} {settings : Settings}
variable {repositories : List String} {events : List Event} {p : Pool}

namespace Invariant

theorem inPlace_eq (h : Invariant answer engine settings repositories events p) (hdone : p.isDone) :
    p.inPlace = repositories.zipIdx.map fun c =>
      resultOf answer engine settings.runLimit (!admits events c.2) c.1 := by
  refine map_snd_mergeSort_places (fun c hc => ?_) fun {i a} ha => ?_
  · rw [List.length_map, List.length_zipIdx]
    exact h.place_lt c hc
  · rw [List.getElem?_map, List.getElem?_zipIdx, Nat.zero_add, Option.map_map] at ha
    obtain ⟨r, hr, rfl⟩ := Option.map_eq_some_iff.mp ha
    have hslot := h.slot_of_isDone hdone (List.getElem?_eq_some_iff.mp hr).1
    obtain ⟨saw, hchecks, hresults⟩ := (h.stage hr hslot).of_finished
    have hadmits : admits events i = !saw := by
      rw [admits, Bool.eq_iff_iff, decide_eq_true_iff, ← mem_checksAt, hchecks, List.mem_singleton]
      cases saw <;> simp
    change resultsAt i p.collected = _
    simp only [hresults, Function.comp_apply, hadmits, Bool.not_not]

end Invariant

theorem filterMap_results (l : List (String × Nat)) :
    (l.map fun c =>
      resultOf answer engine settings.runLimit (!admits events c.2) c.1).filterMap id =
      ((l.filter fun c => admits events c.2).map (·.1)).map
        (auditOf answer engine settings.runLimit) := by
  induction l with
  | nil => rfl
  | cons c l ih =>
    rw [List.map_cons, List.filterMap_cons, List.filter_cons]
    cases hc : admits events c.2 with
    | false => exact ih
    | true => exact congrArg (auditOf answer engine settings.runLimit c.1 :: ·) ih

theorem countP_isNone_results (l : List (String × Nat)) :
    (l.map fun c =>
      resultOf answer engine settings.runLimit (!admits events c.2) c.1).countP Option.isNone =
      l.length - (l.filter fun c => admits events c.2).length := by
  rw [← List.countP_eq_length_filter, List.length_eq_countP_add_countP fun c => admits events c.2,
    Nat.add_sub_cancel_left, List.countP_map]
  congr 1
  funext c
  rw [Function.comp_apply, resultOf]
  cases admits events c.2 <;> rfl

/-- The outcome of a pool is that of auditing the admitted repositories one after another. -/
theorem Invariant.outcome?_eq {now : Time.Instant} {o : Except Runs.WindowError Outcome}
    (h : Invariant answer engine settings repositories events p)
    (ho : p.outcome? engine settings now = some o) :
    o = (sequentialOutcome answer engine settings (admitted repositories events) now).map
      (·.outOf repositories.length
        (repositories.length - (admitted repositories events).length)
        (decide (.cancel ∈ events))) := by
  rw [outcome?] at ho
  split at ho
  · rename_i hdone
    have hcancelled : p.cancelled = decide (.cancel ∈ events) := by
      rw [Bool.eq_iff_iff, decide_eq_true_iff, h.cancelled_iff]
    rw [← Option.some.inj ho, h.inPlace_eq hdone, Outcome.ofAudits_eq_outOf, sequentialOutcome_eq,
      filterMap_results, countP_isNone_results, List.length_map, List.length_zipIdx, hcancelled,
      admitted, List.length_map, List.map_map]
    rfl
  · cases ho

end

end Pool

end WorkflowAudit.Audit
