import WorkflowAudit.Proofs.Json.DecodeLaws
import WorkflowAudit.Workflow.Document

namespace WorkflowAudit.Workflow.Matrix

open Json (IsWord)

variable {counts : List Nat} {start m n k : Nat}

theorem times?_eq_some_iff : times? m n = some k ↔ IsWord (m * n) ∧ k = m * n := by
  rw [times?, IsWord]
  split
  case isTrue h => simp [h, eq_comm]
  case isFalse h => simp [h]

/-- No product on the way to the last one overflows. -/
def StaysInWord (counts : List Nat) : Prop := ∀ part, part <+: counts → IsWord part.prod

theorem foldlM_times?_eq_some_iff (hstart : IsWord start) :
    counts.foldlM times? start = some n ↔
      n = start * counts.prod ∧ ∀ part, part <+: counts → IsWord (start * part.prod) := by
  -- The start is the product so far, so that the parts of the rest are parts of the whole.
  induction counts generalizing start with
  | nil => simp [hstart, eq_comm]
  | cons c counts ih =>
    rw [List.foldlM_cons, Option.bind_eq_bind, Option.bind_eq_some_iff]
    simp only [times?_eq_some_iff, List.prefix_cons_iff, List.prod_cons]
    constructor
    · rintro ⟨_, ⟨hword, rfl⟩, hrest⟩
      obtain ⟨rfl, hparts⟩ := (ih hword).mp hrest
      refine ⟨Nat.mul_assoc .., ?_⟩
      rintro part (rfl | ⟨part, rfl, hpart⟩)
      · simpa using hstart
      · rw [List.prod_cons, ← Nat.mul_assoc]
        exact hparts part hpart
    · rintro ⟨rfl, hparts⟩
      have hword : IsWord (start * c) := by
        simpa using hparts [c] (.inr ⟨[], rfl, List.nil_prefix⟩)
      refine ⟨_, ⟨hword, rfl⟩, (ih hword).mpr ⟨(Nat.mul_assoc ..).symm, fun part hpart => ?_⟩⟩
      rw [Nat.mul_assoc, ← List.prod_cons]
      exact hparts (c :: part) (.inr ⟨part, rfl, hpart⟩)

theorem combinations?_eq_some_iff {m : Matrix} : m.combinations? = some n ↔
    n = (m.dimensions.values.map List.length).prod ∧
      StaysInWord (m.dimensions.values.map List.length) := by
  rw [combinations?, foldlM_times?_eq_some_iff (by decide)]
  simp only [Nat.one_mul, StaysInWord]

theorem combinations?_eq_none_iff {m : Matrix} :
    m.combinations? = none ↔ ¬StaysInWord (m.dimensions.values.map List.length) := by
  rw [Option.eq_none_iff_forall_ne_some]
  simp [combinations?_eq_some_iff]

/-- Zeros aside, numbers may be multiplied in any order. -/
theorem staysInWord_of_nonzero (h : IsWord (counts.filter (· ≠ 0)).prod) : StaysInWord counts := by
  intro part hpart
  by_cases hzero : 0 ∈ part
  · rw [List.prod_eq_zero hzero]
    decide
  · have hkept : part.filter (· ≠ 0) = part :=
      List.filter_eq_self.mpr fun c hc => decide_eq_true (ne_of_mem_of_not_mem hc hzero)
    have hpositive : 0 < (counts.filter (· ≠ 0)).prod :=
      Nat.pos_of_ne_zero (List.prod_ne_zero (by simp))
    have hdvd := (hpart.filter (· ≠ 0)).sublist.prod_dvd_prod
    rw [hkept] at hdvd
    exact Nat.lt_of_le_of_lt (Nat.le_of_dvd hpositive hdvd) h

end WorkflowAudit.Workflow.Matrix
