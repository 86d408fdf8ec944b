/-! Dialogues: computations that put questions, each with its own type of answers, and go on with
what they are told. Who answers is left open: a function, a monad with effects, or a dialogue of
another kind. -/

namespace WorkflowAudit

inductive Dialogue {Q : Type} (A : Q → Type) (α : Type) : Type
  | done (value : α)
  | ask (question : Q) (next : A question → Dialogue A α)

namespace Dialogue

variable {Q R : Type} {A : Q → Type} {B : R → Type} {α β γ : Type}

def bind : Dialogue A α → (α → Dialogue A β) → Dialogue A β
  | .done a, f => f a
  | .ask q next, f => .ask q fun a => (next a).bind f

instance : Monad (Dialogue A) where
  pure := .done
  bind := bind

instance : Inhabited (Dialogue A PUnit) := ⟨.done ⟨⟩⟩

def put (q : Q) : Dialogue A (A q) := .ask q .done

def answeredBy (answer : (q : Q) → A q) : Dialogue A α → α
  | .done a => a
  | .ask q next => (next (answer q)).answeredBy answer

def advance (answer : (q : Q) → A q) : Dialogue A α → Dialogue A α
  | .done a => .done a
  | .ask q next => next (answer q)

def length (answer : (q : Q) → A q) : Dialogue A α → Nat
  | .done _ => 0
  | .ask q next => (next (answer q)).length answer + 1

def runWith {m : Type → Type} [Monad m] (answer : (q : Q) → m (A q)) : Dialogue A α → m α
  | .done a => pure a
  | .ask q next => do (next (← answer q)).runWith answer

/-- Passes every question on as a dialogue of another kind. -/
def through (answer : (q : Q) → Dialogue B (A q)) : Dialogue A α → Dialogue B α
  | .done a => .done a
  | .ask q next => (answer q).bind fun a => (next a).through answer

def forEach (f : α → Dialogue A β) : List α → Dialogue A (List β)
  | [] => .done []
  | a :: rest => (f a).bind fun b => (forEach f rest).bind fun bs => .done (b :: bs)

theorem answeredBy_bind (answer : (q : Q) → A q) (d : Dialogue A α) (f : α → Dialogue A β) :
    (d.bind f).answeredBy answer = (f (d.answeredBy answer)).answeredBy answer := by
  induction d with
  | done => rfl
  | ask q next ih => exact ih _

theorem answeredBy_forEach (answer : (q : Q) → A q) (f : α → Dialogue A β) (l : List α) :
    (forEach f l).answeredBy answer = l.map fun a => (f a).answeredBy answer := by
  induction l with
  | nil => rfl
  | cons a l ih => simp only [forEach, answeredBy_bind, answeredBy, ih, List.map_cons]

end Dialogue

end WorkflowAudit
