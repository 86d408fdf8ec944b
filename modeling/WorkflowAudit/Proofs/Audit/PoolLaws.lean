import WorkflowAudit.Audit.Pool
import WorkflowAudit.Audit.Run
import WorkflowAudit.Proofs.DialogueLaws

/-! Pools and sequential audits. Whatever the order of the steps of a pool, its outcome is that of
auditing one after another the repositories whose start check did not see the audit cancelled. -/

namespace WorkflowAudit.Audit

open Config (Settings)
open Hosting (Call)
open Lint (Engine)

def Query.IsCall : Query → Prop
  | .call _ => True
  | .cancelled => False

section Unit

variable (answer : (c : Call) → c.Answer) (engine : Engine) (runLimit : Nat)

def auditOf (repository : String) : RepositoryAudit :=
  (auditStarted engine runLimit repository).answeredBy (answerAt answer false)

def resultOf (sawCancelled : Bool) (repository : String) : Option RepositoryAudit :=
  if sawCancelled then none else some (auditOf answer engine runLimit repository)

theorem auditFiles_asksOnly (repository : String) :
    (auditFiles engine repository).AsksOnly Query.IsCall := by
  refine .ask trivial fun a => ?_
  cases a with
  | error e => exact .done
  | ok names =>
    refine .bind ?_ fun _ => .done
    exact .forEach (fun file => .ask trivial fun _ => .done) _

theorem auditStarted_asksOnly (repository : String) :
    (auditStarted engine runLimit repository).AsksOnly Query.IsCall := by
  refine .ask trivial fun a => ?_
  cases a with
  | error e => exact (auditFiles_asksOnly engine repository).bind fun _ => .done
  | ok records => exact (auditFiles_asksOnly engine repository).bind fun _ => .done

theorem answerAt_of_isCall {q : Query} (h : q.IsCall) (cancelled : Bool) :
    answerAt answer cancelled q = answerAt answer false q := by
  cases q with
  | call c => rfl
  | cancelled => cases h

theorem advance_auditRepository_asksOnly (sawCancelled : Bool) (repository : String) :
    ((auditRepository engine runLimit repository).advance
      (answerAt answer sawCancelled)).AsksOnly Query.IsCall := by
  cases sawCancelled with
  | true => exact .done
  | false => exact (auditStarted_asksOnly engine runLimit repository).bind fun _ => .done

theorem answeredBy_advance_auditRepository (sawCancelled : Bool) (repository : String) :
    ((auditRepository engine runLimit repository).advance
      (answerAt answer sawCancelled)).answeredBy (answerAt answer false) =
      resultOf answer engine runLimit sawCancelled repository := by
  cases sawCancelled with
  | true => rfl
  | false =>
    change Dialogue.answeredBy _ ((auditStarted engine runLimit repository).bind _) = _
    rw [Dialogue.answeredBy_bind]
    rfl

end Unit

namespace Pool

def checksAt (place : Nat) (events : List Event) : List Bool :=
  events.filterMap fun
    | .start i sawCancelled => if i = place then some sawCancelled else none
    | _ => none

def resultsAt (place : Nat) (collected : List (Nat × Option RepositoryAudit)) :
    List (Option RepositoryAudit) :=
  (collected.filter (·.1 = place)).map (·.2)

def Event.place? : Event → Option Nat
  | .start place _ => some place
  | .proceed place _ => some place
  | .finish place => some place
  | .cancel => none

theorem checksAt_append (place : Nat) (events more : List Event) :
    checksAt place (events ++ more) = checksAt place events ++ checksAt place more :=
  List.filterMap_append

theorem checksAt_append_of_ne {place : Nat} {e : Event} (h : e.place? ≠ some place)
    (events : List Event) : checksAt place (events ++ [e]) = checksAt place events := by
  rw [checksAt_append]
  cases e with
  | start i saw =>
    have hi : i ≠ place := fun hi => h (congrArg some hi)
    simp [checksAt, hi]
  | proceed => simp [checksAt]
  | finish => simp [checksAt]
  | cancel => simp [checksAt]

theorem resultsAt_append_of_ne {place i : Nat} (h : i ≠ place)
    (collected : List (Nat × Option RepositoryAudit)) (result : Option RepositoryAudit) :
    resultsAt place (collected ++ [(i, result)]) = resultsAt place collected := by
  simp [resultsAt, h]

theorem resultsAt_append_self (place : Nat) (collected : List (Nat × Option RepositoryAudit))
    (result : Option RepositoryAudit) :
    resultsAt place (collected ++ [(place, result)]) = resultsAt place collected ++ [result] := by
  simp [resultsAt]

theorem mem_checksAt {place : Nat} {saw : Bool} {events : List Event} :
    saw ∈ checksAt place events ↔ .start place saw ∈ events := by
  simp only [checksAt, List.mem_filterMap]
  constructor
  · rintro ⟨e, he, heq⟩
    cases e with
    | start i b =>
      simp only [Option.ite_none_right_eq_some, Option.some.injEq] at heq
      obtain ⟨rfl, rfl⟩ := heq
      exact he
    | proceed => cases heq
    | finish => cases heq
    | cancel => cases heq
  · intro h
    exact ⟨_, h, by simp⟩

section

variable (answer : (c : Call) → c.Answer) (engine : Engine) (settings : Settings)

/-- How far a unit is: its slot, its start checks so far and its results so far. -/
inductive Stage (repository : String) :
    Slot → List Bool → List (Option RepositoryAudit) → Prop
  | waiting : Stage repository (.waiting repository) [] []
  | running {rest : Dialogue Query.Answer (Option RepositoryAudit)} {saw : Bool} :
    rest.AsksOnly Query.IsCall →
    rest.answeredBy (answerAt answer false) =
      resultOf answer engine settings.runLimit saw repository →
    Stage repository (.running rest) [saw] []
  | finished {saw : Bool} : Stage repository .finished [saw]
      [resultOf answer engine settings.runLimit saw repository]

/-- What holds of a pool after some events, whatever their order. -/
structure Invariant (repositories : List String) (events : List Event) (p : Pool) : Prop where
  length_eq : p.slots.length = repositories.length
  stage : ∀ {i r s}, repositories[i]? = some r → p.slots[i]? = some s →
    Stage answer engine settings r s (checksAt i events) (resultsAt i p.collected)
  place_lt : ∀ c ∈ p.collected, c.1 < repositories.length
  cancelled_iff : p.cancelled = true ↔ .cancel ∈ events

variable {answer engine settings} {repositories : List String} {events : List Event} {p q : Pool}

namespace Stage

variable {r : String} {checks : List Bool} {results : List (Option RepositoryAudit)}

theorem of_waiting {r' : String}
    (h : Stage answer engine settings r (.waiting r') checks results) :
    r' = r ∧ checks = [] ∧ results = [] := by
  cases h with
  | waiting => exact ⟨rfl, rfl, rfl⟩

theorem of_running {rest : Dialogue Query.Answer (Option RepositoryAudit)}
    (h : Stage answer engine settings r (.running rest) checks results) :
    ∃ saw, checks = [saw] ∧ results = [] ∧ rest.AsksOnly Query.IsCall ∧
      rest.answeredBy (answerAt answer false) =
        resultOf answer engine settings.runLimit saw r := by
  cases h with
  | running honly hanswer => exact ⟨_, rfl, rfl, honly, hanswer⟩

theorem of_finished (h : Stage answer engine settings r .finished checks results) :
    ∃ saw, checks = [saw] ∧ results = [resultOf answer engine settings.runLimit saw r] := by
  cases h with
  | finished => exact ⟨_, rfl, rfl⟩

end Stage

theorem invariant_start (repositories : List String) :
    Invariant answer engine settings repositories [] (start repositories) where
  length_eq := List.length_map _
  stage := by
    intro i r s hr hs
    simp only [start, List.getElem?_map, hr, Option.map_some, Option.some.injEq] at hs
    exact hs ▸ .waiting
  place_lt c hc := by cases hc
  cancelled_iff := by simp [start]

namespace Invariant

theorem place_of_slot (h : Invariant answer engine settings repositories events p) {i : Nat}
    {s : Slot} (hs : p.slots[i]? = some s) : ∃ r, repositories[i]? = some r := by
  have hlt := (List.getElem?_eq_some_iff.mp hs).1
  rw [h.length_eq] at hlt
  exact ⟨_, List.getElem?_eq_getElem hlt⟩

theorem slot_of_isDone (h : Invariant answer engine settings repositories events p)
    (hdone : p.isDone) {i : Nat} (hi : i < repositories.length) :
    p.slots[i]? = some .finished := by
  rw [← h.length_eq] at hi
  have hfinished := List.all_eq_true.mp hdone _ (List.getElem_mem hi)
  rw [List.getElem?_eq_getElem hi]
  cases hs : p.slots[i] with
  | finished => rfl
  | waiting | running => simp [hs, Slot.isFinished] at hfinished

theorem update (h : Invariant answer engine settings repositories events p) {i : Nat} {s : Slot}
    {e : Event} {collected : List (Nat × Option RepositoryAudit)} (he : e.place? = some i)
    (hothers : ∀ j, j ≠ i → resultsAt j collected = resultsAt j p.collected)
    (hplaces : ∀ c ∈ collected, c.1 < repositories.length)
    (hunit : ∀ r, repositories[i]? = some r →
      Stage answer engine settings r s (checksAt i (events ++ [e])) (resultsAt i collected)) :
    Invariant answer engine settings repositories (events ++ [e])
      ⟨p.slots.set i s, collected, p.cancelled⟩ where
  length_eq := by rw [List.length_set, h.length_eq]
  stage := by
    intro j r t hr ht
    by_cases hj : j = i
    · subst hj
      obtain ⟨hlt, rfl⟩ := List.getElem?_eq_some_iff.mp ht
      rw [List.getElem_set_self]
      exact hunit r hr
    · have hne : e.place? ≠ some j := fun heq => hj (Option.some.inj (heq.symm.trans he))
      rw [checksAt_append_of_ne hne, hothers j hj]
      rw [List.getElem?_set_ne (Ne.symm hj)] at ht
      exact h.stage hr ht
  place_lt := hplaces
  cancelled_iff := by
    have hne : e ≠ .cancel := by
      rintro rfl
      cases he
    simp [h.cancelled_iff, hne.symm]

theorem step (h : Invariant answer engine settings repositories events p) {e : Event}
    (hstep : Step answer engine settings p e q) :
    Invariant answer engine settings repositories (events ++ [e]) q := by
  cases hstep with
  | @start i r hs hroom =>
    refine h.update rfl (fun _ _ => rfl) h.place_lt fun r' hr => ?_
    obtain ⟨rfl, hchecks, hresults⟩ := (h.stage hr hs).of_waiting
    have hcheck : checksAt i (events ++ [.start i p.cancelled]) = [p.cancelled] := by
      rw [checksAt_append, hchecks]
      simp [checksAt]
    rw [hcheck, hresults]
    exact .running (advance_auditRepository_asksOnly ..) (answeredBy_advance_auditRepository ..)
  | @proceed i question next hs =>
    refine h.update rfl (fun _ _ => rfl) h.place_lt fun r hr => ?_
    obtain ⟨saw, hchecks, hresults, honly, hanswer⟩ := (h.stage hr hs).of_running
    have hcheck : checksAt i (events ++ [.proceed i question]) = [saw] := by
      rw [checksAt_append, hchecks]
      simp [checksAt]
    rw [hcheck, hresults, answerAt_of_isCall answer honly.question]
    exact .running (honly.next _) hanswer
  | @finish i result hs =>
    obtain ⟨r, hr⟩ := h.place_of_slot hs
    refine h.update rfl (fun j hj => resultsAt_append_of_ne (Ne.symm hj) ..) ?_ fun r' hr' => ?_
    · intro c hc
      rcases List.mem_append.mp hc with hc | hc
      · exact h.place_lt c hc
      · rw [List.mem_singleton.mp hc]
        exact (List.getElem?_eq_some_iff.mp hr).1
    · obtain ⟨saw, hchecks, hresults, _, hanswer⟩ := (h.stage hr' hs).of_running
      have hcheck : checksAt i (events ++ [.finish i]) = [saw] := by
        rw [checksAt_append, hchecks]
        simp [checksAt]
      have hresult : result = resultOf answer engine settings.runLimit saw r' := hanswer
      rw [hcheck, put, resultsAt_append_self, hresults, hresult]
      exact .finished
  | cancel =>
    refine ⟨h.length_eq, ?_, h.place_lt, by simp⟩
    intro i r s hr hs
    have hne : Event.cancel.place? ≠ some i := by simp [Event.place?]
    rw [checksAt_append_of_ne hne]
    exact h.stage hr hs

theorem of_run (hrun : Run answer engine settings (start repositories) events p) :
    Invariant answer engine settings repositories events p := by
  induction hrun with
  | here => exact invariant_start repositories
  | after _ hstep ih => exact ih.step hstep

end Invariant

end

end Pool

end WorkflowAudit.Audit
