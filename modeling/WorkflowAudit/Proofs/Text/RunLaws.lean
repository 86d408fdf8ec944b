import Mathlib
import WorkflowAudit.Text.Blank
import WorkflowAudit.Text.WordChar

namespace WorkflowAudit.Text

variable {s t : List Char}

def sameKind (c d : Char) : Bool := isWordChar c == isWordChar d

/-- The maximal runs of word characters and of other characters, in order. -/
def wordRuns (s : List Char) : List (List Char) := s.splitBy sameKind

@[simp] theorem flatten_wordRuns (s : List Char) : (wordRuns s).flatten = s :=
  List.flatten_splitBy sameKind s

def blankCodes : List Nat :=
  List.range' 0x09 5 ++ [0x20, 0x85, 0xA0, 0x1680] ++ List.range' 0x2000 11 ++
    [0x2028, 0x2029, 0x202F, 0x205F, 0x3000]

theorem toNat_mem_blankCodes {c : Char} (h : isBlank c) : c.toNat ∈ blankCodes := by
  simp only [isBlank, Bool.or_eq_true, Bool.and_eq_true, decide_eq_true_eq, beq_iff_eq] at h
  simp only [blankCodes, List.mem_append, List.mem_range'_1, List.mem_cons, List.not_mem_nil]
  omega

theorem isWordChar_of_isBlank {c : Char} (h : isBlank c) : isWordChar c = false := by
  have hcodes : ∀ n ∈ blankCodes, isWordChar (Char.ofNat n) = false := by decide +kernel
  rw [← Char.ofNat_toNat c]
  exact hcodes _ (toNat_mem_blankCodes h)

theorem wordRuns_of_sameKind {k : Bool} (hne : s ≠ []) (h : ∀ c ∈ s, isWordChar c = k) :
    wordRuns s = [s] := by
  refine List.splitBy_of_isChain hne (List.Pairwise.isChain ?_)
  refine List.pairwise_of_forall_mem_list fun c hc d hd => ?_
  simp [sameKind, h c hc, h d hd]

theorem wordRuns_append (h : ∀ c ∈ s.getLast?, ∀ d ∈ t.head?, isWordChar c ≠ isWordChar d) :
    wordRuns (s ++ t) = wordRuns s ++ wordRuns t := by
  refine List.splitBy_append fun c hc d hd => ?_
  simpa [sameKind] using h c hc d hd

section Cut

variable {earlier later : List (List Char)}

theorem flatten_of_wordRuns (h : wordRuns s = earlier ++ later) :
    s = earlier.flatten ++ later.flatten := by
  rw [← List.flatten_append, ← h, flatten_wordRuns]

theorem isWordChar_ne_of_wordRuns (h : wordRuns s = earlier ++ later) :
    ∀ c ∈ earlier.flatten.getLast?, ∀ d ∈ later.flatten.head?, isWordChar c ≠ isWordChar d := by
  intro c hc d hd
  have hcut := List.isChain_getLast_head_splitBy sameKind s
  rw [← wordRuns, h, List.isChain_append] at hcut
  rcases List.eq_nil_or_concat earlier with rfl | ⟨others, run, rfl⟩
  · cases hc
  · cases later with
    | nil => cases hd
    | cons next later =>
      obtain ⟨hrun, hnext, hkinds⟩ := hcut.2.2 run (by simp) next rfl
      have hc : run.getLast hrun = c := by
        simpa [List.getLast?_append, List.getLast?_eq_some_getLast hrun] using hc
      have hd : next.head hnext = d := by
        simpa [List.head?_append, List.head?_eq_some_head hnext] using hd
      rw [hc, hd] at hkinds
      simpa [sameKind] using hkinds

end Cut

end WorkflowAudit.Text
