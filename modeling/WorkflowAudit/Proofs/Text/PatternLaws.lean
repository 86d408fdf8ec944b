import Mathlib
import WorkflowAudit.Text.Pattern

namespace WorkflowAudit.Text

theorem toLower_of_not_isUpper {c : Char} (h : ¬c.isUpper) : c.toLower = c := by
  simp only [Char.isUpper, decide_eq_true_eq] at h
  simp only [Char.toLower, ge_iff_le]
  exact dif_neg h

theorem isWordChar_of_isAlphanum {c : Char} (h : c.isAlphanum = true) : isWordChar c = true := by
  have hlt : c.toNat < 0x80 := by
    simp only [Char.isAlphanum, Char.isAlpha, Char.isUpper, Char.isLower, Char.isDigit,
      Bool.or_eq_true, Bool.and_eq_true, decide_eq_true_eq, ge_iff_le] at h
    simp only [UInt32.le_iff_toNat_le] at h
    have : c.toNat = c.val.toNat := rfl
    rcases h with (⟨_, h⟩ | ⟨_, h⟩) | ⟨_, h⟩ <;> simp at h <;> omega
  simp [isWordChar, hlt, h]

theorem isWordChar_of_foldCase {c p : Char} (h : foldCase c = p) (hp : isWordChar p) :
    isWordChar c := by
  rw [foldCase] at h
  split at h
  · rename_i hc
    rw [hc]
    decide
  · split at h
    · rename_i hc
      rw [hc]
      decide +kernel
    · by_cases hupper : c.isUpper
      · apply isWordChar_of_isAlphanum
        simp [Char.isAlphanum, Char.isAlpha, hupper]
      · rw [← toLower_of_not_isUpper hupper, h]
        exact hp

namespace Pattern

/-- The part a pattern takes of a text, between what stands before and after it. -/
def Takes : Pattern → List Char → List Char → List Char → Prop
  | .empty, _, part, _ => part = []
  | .letter p, _, part, _ => part.map foldCase = [p]
  | .blanks, _, part, _ => ∀ c ∈ part, isBlank c
  | .blank, _, part, _ => ∃ c, part = [c] ∧ isBlank c
  | .wordEdge, before, part, after => part = [] ∧ isWordEdge before.getLast? after
  | .lineStart, before, part, _ =>
    part = [] ∧ (before.getLast? = none ∨ before.getLast? = some '\n')
  | .lineEnd, _, part, after => part = [] ∧ (after.head? = none ∨ after.head? = some '\n')
  | .seq p q, before, part, after => ∃ first second, part = first ++ second ∧
    p.Takes before first (second ++ after) ∧ q.Takes (before ++ first) second after
  | .either p q, before, part, after => p.Takes before part after ∨ q.Takes before part after

variable {p q : Pattern} {next : Option Char → List Char → Bool} {before part after s : List Char}

theorem isWordEdge_cons {c : Char} {b : Option Char} (hc : isWordChar c) :
    isWordEdge b (c :: s) ↔ ∀ d ∈ b, isWordChar d = false := by
  cases b <;> simp [isWordEdge, hc]

theorem isWordEdge_some {c : Char} (hc : isWordChar c) :
    isWordEdge (some c) s ↔ ∀ d ∈ s.head?, isWordChar d = false := by
  cases s <;> simp [isWordEdge, hc]

theorem afterBlanks_iff :
    afterBlanks next before.getLast? s ↔ ∃ part after, s = part ++ after ∧
      (∀ c ∈ part, isBlank c) ∧ next (before ++ part).getLast? after := by
  induction s generalizing before with
  | nil =>
    simp only [afterBlanks]
    constructor
    · intro h
      exact ⟨[], [], rfl, by simp, by simpa using h⟩
    · rintro ⟨part, after, hs, -, h⟩
      obtain ⟨rfl, rfl⟩ := List.append_eq_nil_iff.mp hs.symm
      simpa using h
  | cons c s ih =>
    have hlast : some c = (before ++ [c]).getLast? := by simp
    simp only [afterBlanks, Bool.or_eq_true, Bool.and_eq_true]
    rw [hlast, ih]
    constructor
    · rintro (h | ⟨hc, part, after, rfl, hpart, h⟩)
      · exact ⟨[], c :: s, rfl, by simp, by simpa using h⟩
      · refine ⟨c :: part, after, rfl, ?_, by simpa using h⟩
        simpa [hc] using hpart
    · rintro ⟨part, after, hs, hpart, h⟩
      cases part with
      | nil =>
        left
        simpa [← show c :: s = after from hs] using h
      | cons d part =>
        obtain ⟨rfl, rfl⟩ := List.cons.inj hs
        right
        simp only [List.mem_cons, forall_eq_or_imp] at hpart
        exact ⟨hpart.1, part, after, rfl, hpart.2, by simpa using h⟩

theorem matchesThen_iff :
    p.matchesThen next before.getLast? s ↔ ∃ part after, s = part ++ after ∧
      p.Takes before part after ∧ next (before ++ part).getLast? after := by
  induction p generalizing next before s with
  | empty =>
    simp only [matchesThen, Takes]
    constructor
    · intro h
      exact ⟨[], s, rfl, rfl, by simpa using h⟩
    · rintro ⟨_, after, rfl, rfl, h⟩
      simpa using h
  | letter p =>
    simp only [Takes]
    cases s with
    | nil => simp [matchesThen]
    | cons c s =>
      simp only [matchesThen, Bool.and_eq_true, decide_eq_true_eq]
      constructor
      · rintro ⟨hc, h⟩
        exact ⟨[c], s, rfl, by simp [hc], by simpa using h⟩
      · rintro ⟨part, after, hs, hpart, h⟩
        obtain ⟨d, rfl, hd⟩ := List.map_eq_singleton_iff.mp hpart
        obtain ⟨rfl, rfl⟩ := List.cons.inj hs
        exact ⟨hd, by simpa using h⟩
  | blank =>
    simp only [Takes]
    cases s with
    | nil => simp [matchesThen]
    | cons c s =>
      simp only [matchesThen, Bool.and_eq_true]
      constructor
      · rintro ⟨hc, h⟩
        exact ⟨[c], s, rfl, ⟨c, rfl, hc⟩, by simpa using h⟩
      · rintro ⟨_, after, hs, ⟨d, rfl, hd⟩, h⟩
        obtain ⟨rfl, rfl⟩ := List.cons.inj hs
        exact ⟨hd, by simpa using h⟩
  | blanks => exact afterBlanks_iff
  | wordEdge =>
    simp only [matchesThen, Takes, Bool.and_eq_true]
    constructor
    · rintro ⟨hedge, h⟩
      exact ⟨[], s, rfl, ⟨rfl, hedge⟩, by simpa using h⟩
    · rintro ⟨_, after, rfl, ⟨rfl, hedge⟩, h⟩
      exact ⟨hedge, by simpa using h⟩
  | lineStart =>
    simp only [matchesThen, Takes, Bool.and_eq_true, Bool.or_eq_true, decide_eq_true_eq]
    constructor
    · rintro ⟨hstart, h⟩
      exact ⟨[], s, rfl, ⟨rfl, hstart⟩, by simpa using h⟩
    · rintro ⟨_, after, rfl, ⟨rfl, hstart⟩, h⟩
      exact ⟨hstart, by simpa using h⟩
  | lineEnd =>
    simp only [matchesThen, Takes, Bool.and_eq_true, Bool.or_eq_true, decide_eq_true_eq]
    constructor
    · rintro ⟨hend, h⟩
      exact ⟨[], s, rfl, ⟨rfl, hend⟩, by simpa using h⟩
    · rintro ⟨_, after, rfl, ⟨rfl, hend⟩, h⟩
      exact ⟨hend, by simpa using h⟩
  | seq p q ihp ihq =>
    simp only [matchesThen, Takes]
    rw [ihp]
    constructor
    · rintro ⟨first, rest, rfl, hp, h⟩
      obtain ⟨second, after, rfl, hq, h⟩ := ihq.mp h
      exact ⟨first ++ second, after, by simp, ⟨first, second, rfl, hp, hq⟩, by simpa using h⟩
    · rintro ⟨_, after, rfl, ⟨first, second, rfl, hp, hq⟩, h⟩
      refine ⟨first, second ++ after, by simp, hp, ihq.mpr ⟨second, after, rfl, hq, ?_⟩⟩
      simpa using h
  | either p q ihp ihq =>
    simp only [matchesThen, Takes, Bool.or_eq_true]
    rw [ihp, ihq]
    constructor
    · rintro (⟨part, after, hs, hp, h⟩ | ⟨part, after, hs, hq, h⟩)
      · exact ⟨part, after, hs, .inl hp, h⟩
      · exact ⟨part, after, hs, .inr hq, h⟩
    · rintro ⟨part, after, hs, hp | hq, h⟩
      · exact .inl ⟨part, after, hs, hp, h⟩
      · exact .inr ⟨part, after, hs, hq, h⟩

theorem occursFrom_iff :
    p.occursFrom before.getLast? s ↔
      ∃ skipped part after, s = skipped ++ part ++ after ∧
        p.Takes (before ++ skipped) part after := by
  have hhere : ∀ {before s : List Char}, p.matchesThen (fun _ _ => true) before.getLast? s ↔
      ∃ part after, s = part ++ after ∧ p.Takes before part after := by
    intro before s
    rw [matchesThen_iff]
    simp
  induction s generalizing before with
  | nil =>
    simp only [occursFrom]
    rw [hhere]
    constructor
    · rintro ⟨part, after, hs, h⟩
      exact ⟨[], part, after, hs, by simpa using h⟩
    · rintro ⟨skipped, part, after, hs, h⟩
      simp only [List.nil_eq, List.append_eq_nil_iff] at hs
      obtain ⟨⟨rfl, rfl⟩, rfl⟩ := hs
      exact ⟨[], [], rfl, by simpa using h⟩
  | cons c s ih =>
    have hlast : some c = (before ++ [c]).getLast? := by simp
    simp only [occursFrom, Bool.or_eq_true]
    rw [hlast]
    refine (or_congr hhere ih).trans ?_
    constructor
    · rintro (⟨part, after, hs, h⟩ | ⟨skipped, part, after, rfl, h⟩)
      · exact ⟨[], part, after, hs, by simpa using h⟩
      · exact ⟨c :: skipped, part, after, rfl, by simpa using h⟩
    · rintro ⟨skipped, part, after, hs, h⟩
      cases skipped with
      | nil => exact .inl ⟨part, after, hs, by simpa using h⟩
      | cons d skipped =>
        obtain ⟨rfl, rfl⟩ := List.cons.inj hs
        exact .inr ⟨skipped, part, after, rfl, by simpa using h⟩

theorem occursIn_iff {s : String} :
    p.occursIn s ↔ ∃ before part after, s.toList = before ++ part ++ after ∧
      p.Takes before part after := by
  rw [occursIn, ← List.getLast?_nil, occursFrom_iff]
  simp only [List.nil_append]

theorem takes_chain_cons {l : List Pattern} :
    (chain (p :: l)).Takes before part after ↔ ∃ first second, part = first ++ second ∧
      p.Takes before first (second ++ after) ∧ (chain l).Takes (before ++ first) second after := by
  cases l with
  | nil =>
    simp only [chain, Takes]
    constructor
    · intro h
      exact ⟨part, [], by simp, by simpa using h, rfl⟩
    · rintro ⟨first, _, rfl, h, rfl⟩
      simpa using h
  | cons => rfl

theorem takes_chain_letters {l : List Char} :
    (chain (l.map .letter)).Takes before part after ↔ part.map foldCase = l := by
  induction l generalizing before part with
  | nil => simp [chain, Takes]
  | cons c l ih =>
    rw [List.map_cons, takes_chain_cons]
    simp only [Takes, ih]
    constructor
    · rintro ⟨first, second, rfl, hfirst, hsecond⟩
      rw [List.map_append, hfirst, hsecond, List.singleton_append]
    · intro h
      obtain ⟨d, rest, rfl, hd, hrest⟩ := List.map_eq_cons_iff.mp h
      exact ⟨[d], rest, rfl, by simp [hd], hrest⟩

theorem takes_text {s : String} :
    (text s).Takes before part after ↔ part.map foldCase = s.toList :=
  takes_chain_letters

theorem takes_oneOf {l : List Pattern} (h : l ≠ []) :
    (oneOf l).Takes before part after ↔ ∃ p ∈ l, p.Takes before part after := by
  induction l with
  | nil => exact absurd rfl h
  | cons p l ih =>
    cases l with
    | nil => simp [oneOf]
    | cons q l =>
      simp only [oneOf, Takes]
      rw [ih (List.cons_ne_nil q l)]
      simp

theorem takes_words {l : List String} (h : l ≠ []) :
    (words l).Takes before part after ↔ ∃ w ∈ l, part.map foldCase = w.toList := by
  rw [words, takes_oneOf (by simpa using h)]
  constructor
  · rintro ⟨p, hp, h⟩
    obtain ⟨w, hw, rfl⟩ := List.mem_map.mp hp
    exact ⟨w, hw, takes_text.mp h⟩
  · rintro ⟨w, hw, h⟩
    exact ⟨text w, List.mem_map_of_mem hw, takes_text.mpr h⟩

theorem takes_gap :
    gap.Takes before part after ↔ part ≠ [] ∧ ∀ c ∈ part, isBlank c := by
  simp only [gap, Takes]
  constructor
  · rintro ⟨_, second, rfl, ⟨c, rfl, hc⟩, hsecond⟩
    simpa [hc] using hsecond
  · rintro ⟨hne, hblank⟩
    cases part with
    | nil => exact absurd rfl hne
    | cons c part =>
      simp only [List.mem_cons, forall_eq_or_imp] at hblank
      exact ⟨[c], part, rfl, ⟨c, rfl, hblank.1⟩, hblank.2⟩

end Pattern

end WorkflowAudit.Text
