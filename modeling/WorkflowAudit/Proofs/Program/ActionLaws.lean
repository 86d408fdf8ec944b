import WorkflowAudit.Program.Action
import WorkflowAudit.Proofs.DialogueLaws

namespace WorkflowAudit

namespace Program

def Question.IsOfFiles (q : Question) : Prop := ∃ p, q = .files p

namespace Action

variable {world : (q : Question) → q.Answer} {α β ε : Type}

def outcome (world : (q : Question) → q.Answer) (a : Action α) : Except Failure α :=
  a.run.answeredBy world

theorem outcome_bind (world : (q : Question) → q.Answer) (a : Action α) (f : α → Action β) :
    (a >>= f).outcome world = (a.outcome world).bind fun x => (f x).outcome world := by
  rw [outcome, ExceptT.run_bind]
  refine (Dialogue.answeredBy_bind world a.run _).trans ?_
  rw [outcome]
  cases Dialogue.answeredBy world a.run with
  | error e => rfl
  | ok x => rfl

theorem outcome_ofDialogue (world : (q : Question) → q.Answer) (d : Dialogue α) :
    (ofDialogue d).outcome world = .ok (d.answeredBy world) :=
  Dialogue.answeredBy_bind world d _

theorem outcome_ofExcept (world : (q : Question) → q.Answer) (failure : ε → Failure)
    (x : Except ε α) : (ofExcept failure x).outcome world = x.mapError failure := by
  cases x with
  | error e => rfl
  | ok a => rfl

theorem outcome_attempt (world : (q : Question) → q.Answer) (failure : ε → Failure)
    (d : Dialogue (Except ε α)) :
    (attempt failure d).outcome world = (d.answeredBy world).mapError failure := by
  rw [attempt, outcome_bind, outcome_ofDialogue]
  exact outcome_ofExcept world failure _

theorem outcome_unless (world : (q : Question) → q.Answer) (c : Bool) (failure : Failure)
    (a : Action α) :
    Action.outcome world (do
      if c then throw failure
      a) = if c then .error failure else a.outcome world := by
  cases c with
  | true => rfl
  | false => rfl

def filesOf (world : (q : Question) → q.Answer) (q : Files.Question) : q.Answer := world (.files q)

theorem answeredBy_files (world : (q : Question) → q.Answer) (d : Files.Dialogue α) :
    (files d).answeredBy world = d.answeredBy (filesOf world) :=
  Dialogue.answeredBy_through world _ d

def questions (world : (q : Question) → q.Answer) (a : Action α) : List Question :=
  a.run.questions world

theorem questions_bind (world : (q : Question) → q.Answer) (a : Action α) (f : α → Action β) :
    (a >>= f).questions world =
      a.questions world ++ match a.outcome world with
        | .ok x => (f x).questions world
        | .error _ => [] := by
  rw [questions, ExceptT.run_bind]
  refine (Dialogue.questions_bind world a.run _).trans ?_
  rw [outcome, questions]
  cases Dialogue.answeredBy world a.run with
  | error e => rfl
  | ok x => rfl

theorem questions_ofExcept (world : (q : Question) → q.Answer) (failure : ε → Failure)
    (x : Except ε α) : (ofExcept failure x).questions world = [] := by
  cases x with
  | error e => rfl
  | ok a => rfl

theorem questions_attempt (world : (q : Question) → q.Answer) (failure : ε → Failure)
    (d : Dialogue (Except ε α)) : (attempt failure d).questions world = d.questions world := by
  have hlift : (ofDialogue d).questions world = d.questions world :=
    (Dialogue.questions_bind world d _).trans (List.append_nil _)
  rw [attempt, questions_bind, outcome_ofDialogue, hlift]
  exact (congrArg _ (questions_ofExcept world failure _)).trans (List.append_nil _)

theorem isOfFiles_of_mem_questions {d : Files.Dialogue α} {q : Question}
    (h : q ∈ (files d).questions world) : q.IsOfFiles := by
  induction d with
  | done a => cases h
  | ask p next ih =>
    rcases List.mem_cons.mp h with rfl | hrest
    · exact ⟨p, rfl⟩
    · exact ih _ hrest

def FailsOnly (P : Failure → Prop) (a : Action α) : Prop :=
  ∀ world e, a.outcome world = .error e → P e

namespace FailsOnly

variable {P : Failure → Prop} {a : Action α} {f : α → Action β} {failure : ε → Failure}

protected theorem pure (x : α) : FailsOnly P (pure x : Action α) := nofun

protected theorem throw {e : Failure} (h : P e) : FailsOnly P (throw e : Action α) := by
  rintro world _ ⟨⟩
  exact h

protected theorem bind (ha : FailsOnly P a) (hf : ∀ x, FailsOnly P (f x)) : FailsOnly P (a >>= f) := by
  intro world e h
  rw [outcome_bind] at h
  cases hx : a.outcome world with
  | error e =>
    rw [hx] at h
    cases h
    exact ha world _ hx
  | ok x =>
    rw [hx] at h
    exact hf x world e h

protected theorem ofExcept (h : ∀ e, P (failure e)) (x : Except ε α) :
    FailsOnly P (ofExcept failure x) := by
  cases x with
  | error e => exact .throw (h e)
  | ok x => exact .pure x

protected theorem ofDialogue (d : Dialogue α) : FailsOnly P (ofDialogue d) := by
  intro world e h
  rw [outcome_ofDialogue] at h
  cases h

protected theorem attempt (h : ∀ e, P (failure e)) (d : Dialogue (Except ε α)) :
    FailsOnly P (attempt failure d) :=
  (FailsOnly.ofDialogue d).bind (.ofExcept h)

theorem guarded {c : Bool} {e : Failure} (h : P e) (ha : FailsOnly P a) :
    FailsOnly P (do
      if c then throw e
      a) := by
  cases c with
  | true => exact .throw h
  | false => exact ha

end FailsOnly

end Action

end Program

end WorkflowAudit
