import Mathlib
import WorkflowAudit.Dialogue

namespace WorkflowAudit.Dialogue

variable {Q : Type} {A : Q → Type} {P : Q → Prop} {α β : Type}

def questions (answer : (q : Q) → A q) : Dialogue A α → List Q
  | .done _ => []
  | .ask q next => q :: (next (answer q)).questions answer

theorem questions_bind (answer : (q : Q) → A q) (d : Dialogue A α) (f : α → Dialogue A β) :
    (d.bind f).questions answer =
      d.questions answer ++ (f (d.answeredBy answer)).questions answer := by
  induction d with
  | done => rfl
  | ask q next ih => exact congrArg (q :: ·) (ih _)

theorem answeredBy_through {R : Type} {B : R → Type} (answer : (r : R) → B r)
    (pass : (q : Q) → Dialogue B (A q)) (d : Dialogue A α) :
    (d.through pass).answeredBy answer = d.answeredBy fun q => (pass q).answeredBy answer := by
  induction d with
  | done => rfl
  | ask q next ih =>
    rw [through, answeredBy_bind]
    exact ih _

inductive AsksOnly (P : Q → Prop) : Dialogue A α → Prop
  | done {a : α} : AsksOnly P (.done a)
  | ask {q : Q} {next : A q → Dialogue A α} :
    P q → (∀ a, AsksOnly P (next a)) → AsksOnly P (.ask q next)

namespace AsksOnly

theorem question {q : Q} {next : A q → Dialogue A α} (h : AsksOnly P (.ask q next)) : P q := by
  cases h with
  | ask hq _ => exact hq

theorem next {q : Q} {next : A q → Dialogue A α} (h : AsksOnly P (.ask q next)) (a : A q) :
    AsksOnly P (next a) := by
  cases h with
  | ask _ hnext => exact hnext a

theorem bind {d : Dialogue A α} {f : α → Dialogue A β} (h : AsksOnly P d)
    (hf : ∀ a, AsksOnly P (f a)) : AsksOnly P (d.bind f) := by
  induction h with
  | done => exact hf _
  | ask hq _ ih => exact .ask hq ih

theorem forEach {f : α → Dialogue A β} (hf : ∀ a, AsksOnly P (f a)) (l : List α) :
    AsksOnly P (forEach f l) := by
  induction l with
  | nil => exact .done
  | cons a l ih => exact (hf a).bind fun _ => ih.bind fun _ => .done

theorem mono {P' : Q → Prop} {d : Dialogue A α} (h : AsksOnly P d) (hP : ∀ q, P q → P' q) :
    AsksOnly P' d := by
  induction h with
  | done => exact .done
  | ask hq _ ih => exact .ask (hP _ hq) ih

theorem answeredBy_congr {d : Dialogue A α} {answer answer' : (q : Q) → A q} (h : AsksOnly P d)
    (hanswer : ∀ q, P q → answer q = answer' q) : d.answeredBy answer = d.answeredBy answer' := by
  induction h with
  | done => rfl
  | ask hq _ ih =>
    rw [answeredBy, answeredBy, hanswer _ hq]
    exact ih _

end AsksOnly

/-- Questions and answers in order, up to the value. An answer need not agree with an earlier one to
the same question. -/
inductive Transcript : Dialogue A α → List ((q : Q) × A q) → α → Prop
  | done {a : α} : Transcript (.done a) [] a
  | ask {q : Q} {next : A q → Dialogue A α} {answer : A q} {log : List ((q : Q) × A q)} {a : α} :
    Transcript (next answer) log a → Transcript (.ask q next) (⟨q, answer⟩ :: log) a

def inTurn (answers : Nat → (q : Q) → A q) : Dialogue A α → List ((q : Q) × A q) × α
  | .done a => ([], a)
  | .ask q next =>
    let rest := (next (answers 0 q)).inTurn fun number => answers (number + 1)
    (⟨q, answers 0 q⟩ :: rest.1, rest.2)

theorem inTurn_bind (answers : Nat → (q : Q) → A q) (d : Dialogue A α) (f : α → Dialogue A β) :
    (d.bind f).inTurn answers =
      let first := d.inTurn answers
      let rest := (f first.2).inTurn fun number => answers (number + first.1.length)
      (first.1 ++ rest.1, rest.2) := by
  induction d generalizing answers with
  | done a => rfl
  | ask q next ih =>
    simp only [bind, inTurn, ih, List.cons_append, List.length_cons, Nat.add_assoc]

namespace Transcript

variable {log : List ((q : Q) × A q)} {a : α} {b : β}

theorem of_done {c : α} (h : Transcript (.done c : Dialogue A α) log a) : log = [] ∧ a = c := by
  cases h with
  | done => exact ⟨rfl, rfl⟩

theorem of_ask {q : Q} {next : A q → Dialogue A α} (h : Transcript (.ask q next) log a) :
    ∃ answer rest, log = ⟨q, answer⟩ :: rest ∧ Transcript (next answer) rest a := by
  cases h with
  | ask h => exact ⟨_, _, rfl, h⟩

theorem of_bind {d : Dialogue A α} {f : α → Dialogue A β} (h : Transcript (d.bind f) log b) :
    ∃ first rest a, log = first ++ rest ∧ Transcript d first a ∧ Transcript (f a) rest b := by
  induction d generalizing log with
  | done a => exact ⟨[], log, a, rfl, .done, h⟩
  | ask q next ih =>
    obtain ⟨answer, rest, rfl, hnext⟩ := h.of_ask
    obtain ⟨first, rest, a, rfl, hd, hf⟩ := ih answer hnext
    exact ⟨⟨q, answer⟩ :: first, rest, a, rfl, .ask hd, hf⟩

theorem forEach_induction {motive : List α → List ((q : Q) × A q) → List β → Prop}
    {f : α → Dialogue A β} (nil : motive [] [] [])
    (cons : ∀ {a items first rest b values}, Transcript (f a) first b →
      motive items rest values → motive (a :: items) (first ++ rest) (b :: values))
    {items : List α} {values : List β} (h : Transcript (forEach f items) log values) :
    motive items log values := by
  induction items generalizing log values with
  | nil =>
    obtain ⟨rfl, rfl⟩ := h.of_done
    exact nil
  | cons a items ih =>
    obtain ⟨first, others, b, rfl, hfirst, hothers⟩ := h.of_bind
    obtain ⟨rest, last, tail, rfl, hrest, hlast⟩ := hothers.of_bind
    obtain ⟨rfl, rfl⟩ := hlast.of_done
    rw [List.append_nil]
    exact cons hfirst (ih hrest)

theorem bind {d : Dialogue A α} {f : α → Dialogue A β} {first rest : List ((q : Q) × A q)}
    (hd : Transcript d first a) (hf : Transcript (f a) rest b) :
    Transcript (d.bind f) (first ++ rest) b := by
  induction hd with
  | done => exact hf
  | ask _ ih => exact .ask (ih hf)

theorem inTurn (answers : Nat → (q : Q) → A q) (d : Dialogue A α) :
    Transcript d (d.inTurn answers).1 (d.inTurn answers).2 := by
  induction d generalizing answers with
  | done a => exact .done
  | ask q next ih => exact .ask (ih _ _)

variable {Answered : (q : Q) × A q → Prop}

theorem exists_answeredBy {answer : (q : Q) → A q} (hanswer : ∀ q, Answered ⟨q, answer q⟩)
    (d : Dialogue A α) : ∃ log, Transcript d log (d.answeredBy answer) ∧ ∀ e ∈ log, Answered e := by
  induction d with
  | done a => exact ⟨[], .done, fun _ h => nomatch h⟩
  | ask q next ih =>
    obtain ⟨log, hnext, hlog⟩ := ih (answer q)
    exact ⟨_, .ask hnext, List.forall_mem_cons.mpr ⟨hanswer q, hlog⟩⟩

theorem exists_of_advance {answer : (q : Q) → A q} (hanswer : ∀ q, Answered ⟨q, answer q⟩)
    {d : Dialogue A α} (h : Transcript (d.advance answer) log a) (hlog : ∀ e ∈ log, Answered e) :
    ∃ log, Transcript d log a ∧ ∀ e ∈ log, Answered e := by
  cases d with
  | done => exact ⟨log, h, hlog⟩
  | ask q next => exact ⟨_, .ask h, List.forall_mem_cons.mpr ⟨hanswer q, hlog⟩⟩

theorem exists_forEach {f : α → Dialogue A β} {items : List α} {values : List β}
    (h : List.Forall₂ (fun a b => ∃ log, Transcript (f a) log b ∧ ∀ e ∈ log, Answered e)
      items values) :
    ∃ log, Transcript (forEach f items) log values ∧ ∀ e ∈ log, Answered e := by
  induction h with
  | nil => exact ⟨[], .done, fun _ h => nomatch h⟩
  | cons hfirst _ ih =>
    obtain ⟨first, hfirst, hanswered⟩ := hfirst
    obtain ⟨rest, hrest, hothers⟩ := ih
    refine ⟨_, hfirst.bind (hrest.bind .done), ?_⟩
    rw [List.append_nil]
    exact List.forall_mem_append.mpr ⟨hanswered, hothers⟩

end Transcript

end WorkflowAudit.Dialogue
