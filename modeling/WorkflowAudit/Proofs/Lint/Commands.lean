import WorkflowAudit.Lint.Rules.Runners
import WorkflowAudit.Lint.Rules.Steps
import WorkflowAudit.Proofs.Text.PatternLaws

namespace WorkflowAudit.Lint

open Rules (command installPattern isInstall)
open Text (Pattern foldCase isBlank isWordChar)

inductive Spells : List (List String) → List Char → Prop
  | last {options : List String} {w : String} {part : List Char} :
    w ∈ options → part.map foldCase = w.toList → Spells [options] part
  | more {options : List String} {rest : List (List String)} {w : String}
      {part gap tail : List Char} :
    w ∈ options → part.map foldCase = w.toList → gap ≠ [] → (∀ c ∈ gap, isBlank c) →
    Spells rest tail → Spells (options :: rest) (part ++ gap ++ tail)

/-- The words stand somewhere in a text, and no word goes on before or after them. -/
def HasCommand (parts : List (List String)) (s : List Char) : Prop :=
  ∃ before part after, s = before ++ part ++ after ∧ Spells parts part ∧
    (∀ c ∈ before.getLast?, isWordChar c = false) ∧ ∀ c ∈ after.head?, isWordChar c = false

def AreWords (parts : List (List String)) : Prop :=
  parts ≠ [] ∧ ∀ options ∈ parts, options ≠ [] ∧
    ∀ w ∈ options, w.toList ≠ [] ∧ w.toList.all isWordChar

instance : DecidablePred AreWords := fun _ => inferInstanceAs (Decidable (_ ∧ _))

variable {parts : List (List String)} {options : List String} {before part after s : List Char}

theorem isWordChar_of_map_foldCase {w : String} (h : part.map foldCase = w.toList)
    (hw : w.toList.all isWordChar) : ∀ c ∈ part, isWordChar c := by
  intro c hc
  refine Text.isWordChar_of_foldCase rfl (List.all_eq_true.mp hw _ ?_)
  rw [← h]
  exact List.mem_map_of_mem hc

theorem ne_nil_of_map_foldCase {w : String} (h : part.map foldCase = w.toList)
    (hw : w.toList ≠ []) : part ≠ [] := by
  rintro rfl
  exact hw h.symm

namespace Spells

theorem head_isWordChar (h : Spells parts part)
    (hparts : ∀ options ∈ parts, ∀ w ∈ options, w.toList ≠ [] ∧ w.toList.all isWordChar) :
    ∃ c rest, part = c :: rest ∧ isWordChar c := by
  cases h with
  | last hw hpart =>
    have hword := hparts _ (List.mem_singleton_self _) _ hw
    obtain ⟨c, rest, rfl⟩ := List.exists_cons_of_ne_nil (ne_nil_of_map_foldCase hpart hword.1)
    exact ⟨c, rest, rfl, isWordChar_of_map_foldCase hpart hword.2 c List.mem_cons_self⟩
  | more hw hpart =>
    have hword := hparts _ List.mem_cons_self _ hw
    obtain ⟨c, rest, rfl⟩ := List.exists_cons_of_ne_nil (ne_nil_of_map_foldCase hpart hword.1)
    exact ⟨c, _, rfl, isWordChar_of_map_foldCase hpart hword.2 c List.mem_cons_self⟩

theorem last_isWordChar (h : Spells parts part)
    (hparts : ∀ options ∈ parts, ∀ w ∈ options, w.toList ≠ [] ∧ w.toList.all isWordChar) :
    ∃ rest c, part = rest ++ [c] ∧ isWordChar c := by
  induction h with
  | @last _ _ part hw hpart =>
    have hword := hparts _ (List.mem_singleton_self _) _ hw
    rcases List.eq_nil_or_concat part with hnil | ⟨rest, c, rfl⟩
    · exact absurd hnil (ne_nil_of_map_foldCase hpart hword.1)
    · rw [List.concat_eq_append] at hpart ⊢
      exact ⟨rest, c, rfl, isWordChar_of_map_foldCase hpart hword.2 c (by simp)⟩
  | @more _ _ _ part gap tail _ _ _ _ _ ih =>
    obtain ⟨rest, c, rfl, hc⟩ := ih fun options h => hparts options (List.mem_cons_of_mem _ h)
    exact ⟨part ++ gap ++ rest, c, by simp, hc⟩

end Spells

theorem takes_words_and_gaps {q : Pattern} (hne : parts ≠ [])
    (hparts : ∀ options ∈ parts, options ≠ []) :
    (Pattern.chain ((parts.map Pattern.words).intersperse .gap ++ [q])).Takes before part after ↔
      ∃ first second, part = first ++ second ∧ Spells parts first ∧
        q.Takes (before ++ first) second after := by
  induction parts generalizing before part with
  | nil => exact absurd rfl hne
  | cons options rest ih =>
    have hoptions := hparts options List.mem_cons_self
    cases rest with
    | nil =>
      simp only [List.map_cons, List.map_nil, List.intersperse, List.singleton_append]
      rw [Pattern.takes_chain_cons]
      simp only [Pattern.takes_words hoptions, Pattern.chain]
      constructor
      · rintro ⟨first, second, rfl, ⟨w, hw, hfirst⟩, hsecond⟩
        exact ⟨first, second, rfl, .last hw hfirst, hsecond⟩
      · rintro ⟨first, second, rfl, hspells, hsecond⟩
        cases hspells with
        | last hw hfirst => exact ⟨first, second, rfl, ⟨_, hw, hfirst⟩, hsecond⟩
        | more _ _ _ _ h => cases h
    | cons options' rest =>
      have hrest : ∀ o ∈ options' :: rest, o ≠ [] := fun o h => hparts o (List.mem_cons_of_mem _ h)
      have hsplit : ((options :: options' :: rest).map Pattern.words).intersperse .gap ++ [q] =
          .words options :: .gap ::
            (((options' :: rest).map Pattern.words).intersperse .gap ++ [q]) := rfl
      rw [hsplit, Pattern.takes_chain_cons]
      simp only [Pattern.takes_chain_cons, Pattern.takes_words hoptions, Pattern.takes_gap]
      constructor
      · rintro ⟨first, _, rfl, ⟨w, hw, hfirst⟩, gap, _, rfl, ⟨hne, hgap⟩, htail⟩
        obtain ⟨tail, second, rfl, hspells, hq⟩ := (ih (List.cons_ne_nil _ _) hrest).mp htail
        exact ⟨first ++ gap ++ tail, second, by simp, .more hw hfirst hne hgap hspells,
          by simpa using hq⟩
      · rintro ⟨_, second, rfl, hspells, hq⟩
        cases hspells with
        | @more _ _ w first gap tail hw hfirst hne hgap hspells =>
          refine ⟨first, gap ++ tail ++ second, by simp, ⟨w, hw, hfirst⟩, gap, tail ++ second,
            by simp, ⟨hne, hgap⟩, ?_⟩
          have hq : q.Takes (before ++ first ++ gap ++ tail) second after := by simpa using hq
          exact (ih (List.cons_ne_nil _ _) hrest).mpr ⟨tail, second, rfl, hspells, hq⟩

theorem takes_command (h : AreWords parts) :
    (command parts).Takes before part after ↔ Spells parts part ∧
      (∀ c ∈ before.getLast?, isWordChar c = false) ∧ ∀ c ∈ after.head?, isWordChar c = false := by
  have hwords := fun options ho => (h.2 options ho).2
  have hcommand : command parts = .chain (.wordEdge ::
      ((parts.map Pattern.words).intersperse .gap ++ [.wordEdge])) := rfl
  rw [hcommand, Pattern.takes_chain_cons]
  simp only [takes_words_and_gaps h.1 fun options ho => (h.2 options ho).1, Pattern.Takes]
  constructor
  · rintro ⟨_, _, rfl, ⟨rfl, hbefore⟩, first, _, rfl, hspells, rfl, hafter⟩
    simp only [List.nil_append, List.append_nil] at hbefore hafter ⊢
    refine ⟨hspells, ?_, ?_⟩
    · obtain ⟨c, rest, rfl, hc⟩ := hspells.head_isWordChar hwords
      exact (Pattern.isWordEdge_cons hc).mp hbefore
    · obtain ⟨rest, c, rfl, hc⟩ := hspells.last_isWordChar hwords
      rw [← List.append_assoc, List.getLast?_concat] at hafter
      exact (Pattern.isWordEdge_some hc).mp hafter
  · rintro ⟨hspells, hbefore, hafter⟩
    refine ⟨[], part, rfl, ⟨rfl, ?_⟩, part, [], by simp, hspells, rfl, ?_⟩
    · obtain ⟨c, rest, rfl, hc⟩ := hspells.head_isWordChar hwords
      exact (Pattern.isWordEdge_cons hc).mpr hbefore
    · obtain ⟨rest, c, rfl, hc⟩ := hspells.last_isWordChar hwords
      rw [← List.append_assoc, List.getLast?_concat]
      exact (Pattern.isWordEdge_some hc).mpr hafter

theorem occursIn_command (h : AreWords parts) {s : String} :
    (command parts).occursIn s ↔ HasCommand parts s.toList := by
  rw [Pattern.occursIn_iff]
  simp only [takes_command h]
  rfl

def installCommands : List (List (List String)) := [
  [["npm"], ["install", "ci", "i"]],
  [["yarn"], ["install"]],
  [["pnpm"], ["install", "i"]],
  [["pip", "pip3"], ["install"]],
  [["pipenv"], ["install"]],
  [["poetry"], ["install"]],
  [["bundle"], ["install"]],
  [["composer"], ["install"]],
  [["go"], ["mod"], ["download"]],
  [["gradle", "gradlew"], ["dependencies"]]]

inductive Installs (s : List Char) : Prop
  | command {parts : List (List String)} : parts ∈ installCommands → HasCommand parts s → Installs s
  | yarn {before lead word trail after : List Char} :
    s = before ++ (lead ++ word ++ trail) ++ after →
    (before.getLast? = none ∨ before.getLast? = some '\n') → (∀ c ∈ lead, isBlank c) →
    word.map foldCase = "yarn".toList → (∀ c ∈ trail, isBlank c) →
    (after.head? = none ∨ after.head? = some '\n') → Installs s
  | mvn {before word gap goal after : List Char} :
    s = before ++ (word ++ gap ++ goal) ++ after →
    (∀ c ∈ before.getLast?, isWordChar c = false) → word.map foldCase = "mvn".toList →
    gap ≠ [] → (∀ c ∈ gap, isBlank c) → goal.map foldCase = "dependency:".toList → Installs s

theorem areWords_installCommands : ∀ parts ∈ installCommands, AreWords parts := by decide

def yarnPattern : Pattern := .chain [.lineStart, .blanks, .text "yarn", .blanks, .lineEnd]

def mvnPattern : Pattern := .chain [.wordEdge, .text "mvn", .gap, .text "dependency:"]

theorem takes_installPattern :
    installPattern.Takes before part after ↔
      (∃ parts ∈ installCommands, (command parts).Takes before part after) ∨
        yarnPattern.Takes before part after ∨ mvnPattern.Takes before part after := by
  rw [installPattern, Pattern.takes_oneOf (List.cons_ne_nil _ _)]
  simp only [installCommands, List.mem_cons, exists_eq_or_imp, List.not_mem_nil, or_false]
  rw [← yarnPattern, ← mvnPattern]
  grind

theorem takes_yarnPattern :
    yarnPattern.Takes before part after ↔ ∃ lead word trail, part = lead ++ word ++ trail ∧
      (before.getLast? = none ∨ before.getLast? = some '\n') ∧ (∀ c ∈ lead, isBlank c) ∧
      word.map foldCase = "yarn".toList ∧ (∀ c ∈ trail, isBlank c) ∧
      (after.head? = none ∨ after.head? = some '\n') := by
  simp only [yarnPattern, Pattern.chain, Pattern.Takes, Pattern.takes_text]
  constructor
  · rintro ⟨_, _, rfl, ⟨rfl, hstart⟩, lead, _, rfl, hlead, word, _, rfl, hword, trail, _, rfl,
      htrail, rfl, hend⟩
    exact ⟨lead, word, trail, by simp, hstart, hlead, hword, htrail, by simpa using hend⟩
  · rintro ⟨lead, word, trail, rfl, hstart, hlead, hword, htrail, hend⟩
    exact ⟨[], _, rfl, ⟨rfl, hstart⟩, lead, word ++ trail, by simp, hlead, word, trail, rfl, hword,
      trail, [], by simp, htrail, rfl, by simpa using hend⟩

theorem takes_mvnPattern :
    mvnPattern.Takes before part after ↔ ∃ word gap goal, part = word ++ gap ++ goal ∧
      (∀ c ∈ before.getLast?, isWordChar c = false) ∧ word.map foldCase = "mvn".toList ∧
      gap ≠ [] ∧ (∀ c ∈ gap, isBlank c) ∧ goal.map foldCase = "dependency:".toList := by
  have hedge : ∀ {word rest : List Char}, word.map foldCase = "mvn".toList →
      (Pattern.isWordEdge before.getLast? (word ++ rest) ↔
        ∀ c ∈ before.getLast?, isWordChar c = false) := by
    intro word rest hword
    obtain ⟨c, _, rfl⟩ := List.exists_cons_of_ne_nil (ne_nil_of_map_foldCase hword (by simp))
    have hc := isWordChar_of_map_foldCase hword (by decide) c List.mem_cons_self
    exact Pattern.isWordEdge_cons hc
  simp only [mvnPattern, Pattern.chain, Pattern.Takes, Pattern.takes_text, Pattern.takes_gap]
  constructor
  · rintro ⟨_, _, rfl, ⟨rfl, hstart⟩, word, _, rfl, hword, gap, goal, rfl, ⟨hne, hgap⟩, hgoal⟩
    refine ⟨word, gap, goal, by simp, ?_, hword, hne, hgap, hgoal⟩
    rw [List.append_assoc] at hstart
    exact (hedge hword).mp hstart
  · rintro ⟨word, gap, goal, rfl, hstart, hword, hne, hgap, hgoal⟩
    refine ⟨[], _, rfl, ⟨rfl, ?_⟩, word, gap ++ goal, by simp, hword, gap, goal, rfl, ⟨hne, hgap⟩,
      hgoal⟩
    have hpart : word ++ gap ++ goal ++ after = word ++ (gap ++ goal ++ after) := by simp
    exact hpart ▸ (hedge hword).mpr hstart

theorem isInstall_iff {s : String} : isInstall s ↔ Installs s.toList := by
  rw [isInstall, Pattern.occursIn_iff]
  simp only [takes_installPattern, takes_yarnPattern, takes_mvnPattern]
  constructor
  · rintro ⟨before, part, after, hs, ⟨parts, hparts, hpart⟩ |
      ⟨lead, word, trail, rfl, hstart, hlead, hword, htrail, hend⟩ |
      ⟨word, gap, goal, rfl, hstart, hword, hne, hgap, hgoal⟩⟩
    · have hpart := (takes_command (areWords_installCommands parts hparts)).mp hpart
      exact .command hparts ⟨before, part, after, hs, hpart⟩
    · exact .yarn hs hstart hlead hword htrail hend
    · exact .mvn hs hstart hword hne hgap hgoal
  · intro h
    cases h with
    | @command parts hparts hcommand =>
      obtain ⟨before, part, after, hs, hpart⟩ := hcommand
      have hpart := (takes_command (areWords_installCommands parts hparts)).mpr hpart
      exact ⟨before, part, after, hs, .inl ⟨parts, hparts, hpart⟩⟩
    | yarn hs hstart hlead hword htrail hend =>
      exact ⟨_, _, _, hs, .inr (.inl ⟨_, _, _, rfl, hstart, hlead, hword, htrail, hend⟩)⟩
    | mvn hs hstart hword hne hgap hgoal =>
      exact ⟨_, _, _, hs, .inr (.inr ⟨_, _, _, rfl, hstart, hword, hne, hgap, hgoal⟩)⟩

end WorkflowAudit.Lint
