import WorkflowAudit.Proofs.Audit.PoolLaws

/-! Progress of pools. A pool that is not done can go on, and every step that is not a cancellation
brings it nearer to its end. -/

namespace WorkflowAudit.Audit.Pool

open Config (Settings)
open Hosting (Call)
open Lint (Engine)

section

variable (answer : (c : Call) → c.Answer) (engine : Engine) (settings : Settings)

/-- How many steps a unit has ahead of it, at most. -/
def Slot.stepsLeft : Slot → Nat
  | .waiting repository =>
    (auditRepository engine settings.runLimit repository).length (answerAt answer false) + 2
  | .running rest => rest.length (answerAt answer false) + 1
  | .finished => 0

def stepsLeft (p : Pool) : Nat := (p.slots.map (Slot.stepsLeft answer engine settings)).sum

theorem length_advance_auditRepository (sawCancelled : Bool) (repository : String) :
    ((auditRepository engine settings.runLimit repository).advance
      (answerAt answer sawCancelled)).length (answerAt answer false) <
      (auditRepository engine settings.runLimit repository).length (answerAt answer false) := by
  cases sawCancelled with
  | true => exact Nat.succ_pos _
  | false => exact Nat.lt_succ_self _

theorem exists_step {p : Pool} (hdone : p.isDone = false) :
    ∃ e q, e ≠ .cancel ∧ Step answer engine settings p e q := by
  by_cases hrunning : ∃ s ∈ p.slots, s.isRunning
  · obtain ⟨s, hs, hrun⟩ := hrunning
    obtain ⟨i, hi⟩ := List.mem_iff_getElem?.mp hs
    cases s with
    | waiting => cases hrun
    | finished => cases hrun
    | running rest =>
      cases rest with
      | done result => exact ⟨_, _, Event.noConfusion, .finish hi⟩
      | ask question next => exact ⟨_, _, Event.noConfusion, .proceed hi⟩
  · -- With no unit on its way there is room for one that waits.
    have hnone : ∀ s ∈ p.slots, ¬s.isRunning := fun s hs hrun => hrunning ⟨s, hs, hrun⟩
    obtain ⟨s, hs, hfinished⟩ : ∃ s ∈ p.slots, ¬s.isFinished := by
      simpa [isDone] using hdone
    obtain ⟨i, hi⟩ := List.mem_iff_getElem?.mp hs
    cases s with
    | running => exact absurd rfl (hnone _ hs)
    | finished => exact absurd rfl hfinished
    | waiting repository =>
      refine ⟨_, _, Event.noConfusion, .start hi ?_⟩
      rw [runningCount, List.countP_eq_zero.mpr hnone]
      omega

end

section

variable {answer : (c : Call) → c.Answer} {engine : Engine} {settings : Settings}
variable {repositories : List String} {events more : List Event} {e : Event} {p q r : Pool}

theorem sum_map_set_lt {α : Type} {f : α → Nat} {l : List α} {i : Nat} {a b : α}
    (ha : l[i]? = some a) (hlt : f b < f a) : ((l.set i b).map f).sum < (l.map f).sum := by
  induction l generalizing i with
  | nil => cases ha
  | cons c l ih =>
    cases i with
    | zero =>
      obtain rfl := Option.some.inj ha
      simp only [List.set_cons_zero, List.map_cons, List.sum_cons]
      omega
    | succ i =>
      have := ih ha
      simp only [List.set_cons_succ, List.map_cons, List.sum_cons]
      omega

theorem Invariant.stepsLeft_lt (h : Invariant answer engine settings repositories events p)
    (hstep : Step answer engine settings p e q) (he : e ≠ .cancel) :
    stepsLeft answer engine settings q < stepsLeft answer engine settings p := by
  cases hstep with
  | @start i repository hs _ =>
    refine sum_map_set_lt hs ?_
    have := length_advance_auditRepository answer engine settings p.cancelled repository
    simp only [Slot.stepsLeft]
    omega
  | @proceed i question next hs =>
    refine sum_map_set_lt hs ?_
    obtain ⟨r, hr⟩ := h.place_of_slot hs
    obtain ⟨_, _, _, honly, _⟩ := (h.stage hr hs).of_running
    rw [answerAt_of_isCall answer honly.question]
    exact Nat.lt_succ_self _
  | @finish i result hs => exact sum_map_set_lt hs (Nat.succ_pos _)
  | cancel => exact absurd rfl he

theorem stepsLeft_cancel (p : Pool) :
    stepsLeft answer engine settings { p with cancelled := true } =
      stepsLeft answer engine settings p := rfl

theorem countP_events_le (hrun : Run answer engine settings (start repositories) events p) :
    events.countP (· ≠ .cancel) + stepsLeft answer engine settings p ≤
      stepsLeft answer engine settings (start repositories) := by
  induction hrun with
  | here => simp
  | @after q r events e hrun hstep ih =>
    rw [List.countP_append, List.countP_singleton]
    by_cases he : e = .cancel
    · subst he
      cases hstep with
      | cancel =>
        rw [stepsLeft_cancel]
        simpa using ih
    · have := (Invariant.of_run hrun).stepsLeft_lt hstep he
      rw [if_pos (decide_eq_true he)]
      omega

theorem runningCount_put {i : Nat} {s t : Slot} (hs : p.slots[i]? = some s) :
    (p.put i t).runningCount =
      p.runningCount - (if s.isRunning then 1 else 0) + (if t.isRunning then 1 else 0) := by
  obtain ⟨hi, rfl⟩ := List.getElem?_eq_some_iff.mp hs
  exact List.countP_set hi

theorem Run.runningCount_le (hrun : Run answer engine settings (start repositories) events p) :
    p.runningCount ≤ max settings.concurrency 1 := by
  induction hrun with
  | here =>
    have hnone : (start repositories).runningCount = 0 := by
      simp [runningCount, start, Slot.isRunning]
    omega
  | @after q r events e hrun hstep ih =>
    cases hstep with
    | start hs hroom =>
      rw [runningCount_put hs]
      exact hroom
    | @proceed i question next hs =>
      have hpos : 0 < q.runningCount :=
        List.countP_pos_iff.mpr ⟨_, List.mem_of_getElem? hs, rfl⟩
      rw [runningCount_put hs]
      simp only [Slot.isRunning, if_true]
      omega
    | @finish i result hs =>
      have h := runningCount_put (t := .finished) hs
      simp only [Slot.isRunning, if_true, Bool.false_eq_true, if_false] at h
      change (q.put i .finished).runningCount ≤ _
      omega
    | cancel => exact ih

theorem Run.append (hpq : Run answer engine settings p events q)
    (hqr : Run answer engine settings q more r) :
    Run answer engine settings p (events ++ more) r := by
  induction hqr with
  | here => rwa [List.append_nil]
  | after _ hstep ih =>
    rw [← List.append_assoc]
    exact .after ih hstep

/-- Every run can be brought to its end without a further cancellation. -/
theorem Run.exists_isDone (hrun : Run answer engine settings (start repositories) events p) :
    ∃ more q, Run answer engine settings p more q ∧ .cancel ∉ more ∧ q.isDone := by
  induction hn : stepsLeft answer engine settings p using Nat.strongRecOn
    generalizing p events with
  | ind n ih =>
    cases hdone : p.isDone with
    | true => exact ⟨[], p, .here, List.not_mem_nil, hdone⟩
    | false =>
      obtain ⟨e, q, he, hstep⟩ := exists_step answer engine settings hdone
      have hlt := (Invariant.of_run hrun).stepsLeft_lt hstep he
      obtain ⟨more, r, hmore, hcancel, hr⟩ := ih _ (hn ▸ hlt) (hrun.after hstep) rfl
      refine ⟨[e] ++ more, r, Run.append (.after .here hstep) hmore, ?_, hr⟩
      simp [hcancel, he.symm]

end

end WorkflowAudit.Audit.Pool
