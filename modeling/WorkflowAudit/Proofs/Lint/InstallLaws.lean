import WorkflowAudit.Proofs.Lint.Offences
import WorkflowAudit.Proofs.Text.RunLaws

namespace WorkflowAudit.Lint

open Text (foldCase isBlank isWordChar wordRuns splitOn)
open Workflow (Step)

inductive SpellsRuns : List (List String) → List (List Char) → Prop
  | last {options : List String} {w : String} {word : List Char} :
    w ∈ options → word.map foldCase = w.toList → SpellsRuns [options] [word]
  | more {options : List String} {rest : List (List String)} {w : String} {word gap : List Char}
      {runs : List (List Char)} :
    w ∈ options → word.map foldCase = w.toList → gap ≠ [] → (∀ c ∈ gap, isBlank c) →
    SpellsRuns rest runs → SpellsRuns (options :: rest) (word :: gap :: runs)

/-- A command stands among the runs of a text. `Next` is asked of the character behind it. -/
def HasRuns (parts : List (List String)) (Next : Option Char → Prop) (s : List Char) : Prop :=
  ∃ earlier runs later, wordRuns s = earlier ++ runs ++ later ∧ SpellsRuns parts runs ∧
    Next later.flatten.head?

inductive FetchesPackages (s : List Char) : Prop
  | command {parts : List (List String)} :
    parts ∈ installCommands → HasRuns parts (fun _ => True) s → FetchesPackages s
  | goal : HasRuns [["mvn"], ["dependency"]] (· = some ':') s → FetchesPackages s
  | line {lead word trail : List Char} : lead ++ word ++ trail ∈ splitOn '\n' s →
    (∀ c ∈ lead, isBlank c) → word.map foldCase = "yarn".toList → (∀ c ∈ trail, isBlank c) →
    FetchesPackages s

variable {parts : List (List String)} {part s : List Char} {runs : List (List Char)}

section Runs

variable {word gap tail : List Char} {w : String}

theorem wordRuns_of_map_foldCase (h : word.map foldCase = w.toList) (hne : w.toList ≠ [])
    (hw : w.toList.all isWordChar) : wordRuns word = [word] :=
  Text.wordRuns_of_sameKind (ne_nil_of_map_foldCase h hne) (isWordChar_of_map_foldCase h hw)

theorem wordRuns_word_gap (hword : ∀ c ∈ word, isWordChar c) (hne : word ≠ []) (hgap : gap ≠ [])
    (hblank : ∀ c ∈ gap, isBlank c) (htail : ∀ c ∈ tail.head?, isWordChar c) :
    wordRuns (word ++ gap ++ tail) = word :: gap :: wordRuns tail := by
  have hnot : ∀ c ∈ gap, isWordChar c = false := fun c hc =>
    Text.isWordChar_of_isBlank (hblank c hc)
  rw [Text.wordRuns_append, Text.wordRuns_append, Text.wordRuns_of_sameKind hne hword,
    Text.wordRuns_of_sameKind hgap hnot]
  · rfl
  · intro c hc d hd
    rw [hword c (List.mem_of_getLast? hc), hnot d (List.mem_of_head? hd)]
    decide
  · intro c hc d hd
    have hc : c ∈ gap := by
      rw [List.getLast?_append_of_ne_nil _ hgap] at hc
      exact List.mem_of_getLast? hc
    rw [hnot c hc, htail d hd]
    decide

end Runs

theorem Spells.spellsRuns (h : Spells parts part)
    (hparts : ∀ options ∈ parts, ∀ w ∈ options, w.toList ≠ [] ∧ w.toList.all isWordChar) :
    SpellsRuns parts (wordRuns part) := by
  induction h with
  | last hw hpart =>
    obtain ⟨hne, hword⟩ := hparts _ (List.mem_singleton_self _) _ hw
    rw [wordRuns_of_map_foldCase hpart hne hword]
    exact .last hw hpart
  | @more options rest w word gap tail hw hpart hgap hblank htail ih =>
    obtain ⟨hne, hword⟩ := hparts _ List.mem_cons_self _ hw
    have hrest := fun options h => hparts options (List.mem_cons_of_mem _ h)
    obtain ⟨c, others, htail, hc⟩ := htail.head_isWordChar hrest
    rw [wordRuns_word_gap (isWordChar_of_map_foldCase hpart hword)
      (ne_nil_of_map_foldCase hpart hne) hgap hblank (by simpa [htail] using hc)]
    exact .more hw hpart hgap hblank (ih hrest)

theorem SpellsRuns.spells (h : SpellsRuns parts runs) : Spells parts runs.flatten := by
  induction h with
  | last hw hword => simpa using Spells.last hw hword
  | more hw hword hgap hblank _ ih =>
    rw [List.flatten_cons, List.flatten_cons, ← List.append_assoc]
    exact .more hw hword hgap hblank ih

theorem hasRuns_iff (h : AreWords parts) {Next : Option Char → Prop} :
    HasRuns parts Next s ↔ ∃ before part after, s = before ++ part ++ after ∧ Spells parts part ∧
      (∀ c ∈ before.getLast?, isWordChar c = false) ∧
      (∀ c ∈ after.head?, isWordChar c = false) ∧ Next after.head? := by
  have hwords := fun options ho => (h.2 options ho).2
  constructor
  · rintro ⟨earlier, runs, later, hruns, hspells, hnext⟩
    have hpart := hspells.spells
    obtain ⟨c, rest, hstart, hc⟩ := hpart.head_isWordChar hwords
    obtain ⟨front, d, hend, hd⟩ := hpart.last_isWordChar hwords
    have hbefore := Text.isWordChar_ne_of_wordRuns (hruns.trans (List.append_assoc ..))
    have hafter := Text.isWordChar_ne_of_wordRuns hruns
    rw [List.flatten_append, hstart] at hbefore
    rw [List.flatten_append, hend, ← List.append_assoc, List.getLast?_concat] at hafter
    refine ⟨earlier.flatten, runs.flatten, later.flatten, ?_, hpart, fun e he => ?_, fun e he => ?_,
      hnext⟩
    · rw [← List.flatten_append]
      exact Text.flatten_of_wordRuns hruns
    · simpa [hc] using hbefore e he c rfl
    · simpa [hd] using (hafter d rfl e he).symm
  · rintro ⟨before, part, after, rfl, hpart, hbefore, hafter, hnext⟩
    obtain ⟨c, rest, hstart, hc⟩ := hpart.head_isWordChar hwords
    obtain ⟨front, d, hend, hd⟩ := hpart.last_isWordChar hwords
    refine ⟨wordRuns before, wordRuns part, wordRuns after, ?_, hpart.spellsRuns hwords, ?_⟩
    · rw [Text.wordRuns_append, Text.wordRuns_append]
      · intro e he x hx
        obtain rfl : c = x := by simpa [hstart] using hx
        simp [hbefore e he, hc]
      · intro e he x hx
        obtain rfl : d = e := by simpa [hend, ← List.append_assoc] using he
        simp [hafter x hx, hd]
    · rwa [Text.flatten_wordRuns]

theorem eq_of_foldCase_eq_colon {c : Char} (h : foldCase c = ':') : c = ':' := by
  rw [foldCase] at h
  split at h
  · exact absurd h (by decide)
  · split at h
    · exact absurd h (by decide)
    · by_cases hupper : c.isUpper
      · have hcode : c.toNat ∈ List.range' 65 26 := by
          have := hupper
          simp only [Char.isUpper, decide_eq_true_eq, ge_iff_le, UInt32.le_iff_toNat_le] at this
          change 65 ≤ c.toNat ∧ c.toNat ≤ 90 at this
          rw [List.mem_range'_1]
          omega
        have hlower : ∀ n ∈ List.range' 65 26, (Char.ofNat n).toLower ≠ ':' := by decide
        rw [← Char.ofNat_toNat c] at h
        exact absurd h (hlower _ hcode)
      · rwa [← Text.toLower_of_not_isUpper hupper]

theorem exists_mvn_iff :
    (∃ before word gap goal after, s = before ++ (word ++ gap ++ goal) ++ after ∧
      (∀ c ∈ before.getLast?, isWordChar c = false) ∧ word.map foldCase = "mvn".toList ∧
      gap ≠ [] ∧ (∀ c ∈ gap, isBlank c) ∧ goal.map foldCase = "dependency:".toList) ↔
    HasRuns [["mvn"], ["dependency"]] (· = some ':') s := by
  rw [hasRuns_iff (by decide)]
  constructor
  · rintro ⟨before, word, gap, goal, after, rfl, hbefore, hword, hne, hgap, hgoal⟩
    have hsplit : "dependency:".toList = "dependency".toList ++ [':'] := rfl
    rw [hsplit] at hgoal
    obtain ⟨name, colon, rfl, hname, hcolon⟩ := List.map_eq_append_iff.mp hgoal
    obtain ⟨c, rfl, hc⟩ := List.map_eq_singleton_iff.mp hcolon
    obtain rfl := eq_of_foldCase_eq_colon hc
    refine ⟨before, word ++ gap ++ name, ':' :: after, by simp, ?_, hbefore, ?_, rfl⟩
    · exact .more (List.mem_singleton_self _) hword hne hgap
        (.last (List.mem_singleton_self _) hname)
    · rintro c ⟨⟩
      decide
  · rintro ⟨before, part, after, rfl, hpart, hbefore, -, hcolon⟩
    cases after with
    | nil => cases hcolon
    | cons c after =>
      obtain rfl : c = ':' := Option.some.inj hcolon
      cases hpart with
      | @more _ _ _ word gap name hw hword hne hgap hname =>
        cases hname with
        | last hw' hname =>
          rw [List.mem_singleton.mp hw] at hword
          rw [List.mem_singleton.mp hw'] at hname
          refine ⟨before, word, gap, name ++ [':'], after, by simp, hbefore, hword, hne, hgap, ?_⟩
          rw [List.map_append, hname]
          decide
        | more _ _ _ _ h => cases h

theorem exists_line_start {lead before : List Char} (hlead : ∀ c ∈ lead, isBlank c)
    (hbefore : before.getLast? = none ∨ before.getLast? = some '\n') :
    ∃ earlier start, before ++ lead = earlier ++ start ∧ '\n' ∉ start ∧ (∀ c ∈ start, isBlank c) ∧
      (earlier.getLast? = none ∨ earlier.getLast? = some '\n') := by
  by_cases hbreak : '\n' ∈ lead
  · obtain ⟨rest, skipped, hsplit, hrest⟩ :=
      List.eq_append_cons_of_mem (List.mem_reverse.mpr hbreak)
    have hlead' : lead = skipped.reverse ++ '\n' :: rest.reverse := by
      rw [← List.reverse_reverse lead, hsplit]
      simp
    refine ⟨before ++ skipped.reverse ++ ['\n'], rest.reverse, by simp [hlead'],
      by simpa using hrest, fun c hc => hlead c (by simp [hlead', List.mem_reverse.mp hc]),
      .inr (by simp)⟩
  · exact ⟨before, lead, rfl, hbreak, hlead, hbefore⟩

theorem exists_line_end {trail after : List Char} (htrail : ∀ c ∈ trail, isBlank c)
    (hafter : after.head? = none ∨ after.head? = some '\n') :
    ∃ rest later, trail ++ after = rest ++ later ∧ '\n' ∉ rest ∧ (∀ c ∈ rest, isBlank c) ∧
      (later.head? = none ∨ later.head? = some '\n') := by
  by_cases hbreak : '\n' ∈ trail
  · obtain ⟨rest, skipped, rfl, hrest⟩ := List.eq_append_cons_of_mem hbreak
    exact ⟨rest, '\n' :: skipped ++ after, by simp, hrest, fun c hc => htrail c (by simp [hc]),
      .inr rfl⟩
  · exact ⟨trail, after, rfl, hbreak, htrail, hafter⟩

theorem exists_alone_iff {w : String} (hw : '\n' ∉ w.toList) :
    (∃ before lead word trail after, s = before ++ (lead ++ word ++ trail) ++ after ∧
      (before.getLast? = none ∨ before.getLast? = some '\n') ∧ (∀ c ∈ lead, isBlank c) ∧
      word.map foldCase = w.toList ∧ (∀ c ∈ trail, isBlank c) ∧
      (after.head? = none ∨ after.head? = some '\n')) ↔
    ∃ lead word trail, lead ++ word ++ trail ∈ splitOn '\n' s ∧ (∀ c ∈ lead, isBlank c) ∧
      word.map foldCase = w.toList ∧ ∀ c ∈ trail, isBlank c := by
  constructor
  · rintro ⟨before, lead, word, trail, after, rfl, hstart, hlead, hword, htrail, hend⟩
    have hbreak : '\n' ∉ word := by
      intro hmem
      have hfold : foldCase '\n' = '\n' := by decide
      exact hw (hword ▸ hfold ▸ List.mem_map_of_mem hmem)
    obtain ⟨earlier, start, hbefore, hstart⟩ := exists_line_start hlead hstart
    obtain ⟨rest, later, hafter, hend⟩ := exists_line_end htrail hend
    refine ⟨start, word, rest,
      Text.mem_splitOn_iff.mpr ⟨earlier, later, ?_, ?_, hstart.2.2, hend.2.2⟩,
      hstart.2.1, hword, hend.2.1⟩
    · calc before ++ (lead ++ word ++ trail) ++ after
        _ = (before ++ lead) ++ word ++ (trail ++ after) := by simp
        _ = earlier ++ (start ++ word ++ rest) ++ later := by simp [hbefore, hafter]
    · simp [hstart.1, hbreak, hend.1]
  · rintro ⟨lead, word, trail, hline, hlead, hword, htrail⟩
    obtain ⟨before, after, rfl, -, hbefore, hafter⟩ := Text.mem_splitOn_iff.mp hline
    exact ⟨before, lead, word, trail, after, rfl, hbefore, hlead, hword, htrail, hafter⟩

theorem installs_iff : Installs s ↔ FetchesPackages s := by
  have hcommand : ∀ parts ∈ installCommands,
      HasCommand parts s ↔ HasRuns parts (fun _ => True) s := by
    intro parts hparts
    simp only [hasRuns_iff (areWords_installCommands parts hparts), and_true]
    rfl
  constructor
  · intro h
    cases h with
    | command hparts h => exact .command hparts ((hcommand _ hparts).mp h)
    | yarn hs hstart hlead hword htrail hend =>
      obtain ⟨_, _, _, hline, hlead, hword, htrail⟩ := (exists_alone_iff (by decide)).mp
        ⟨_, _, _, _, _, hs, hstart, hlead, hword, htrail, hend⟩
      exact .line hline hlead hword htrail
    | mvn hs hstart hword hne hgap hgoal =>
      exact .goal (exists_mvn_iff.mp ⟨_, _, _, _, _, hs, hstart, hword, hne, hgap, hgoal⟩)
  · intro h
    cases h with
    | command hparts h => exact .command hparts ((hcommand _ hparts).mpr h)
    | goal h =>
      obtain ⟨_, _, _, _, _, hs, hstart, hword, hne, hgap, hgoal⟩ := exists_mvn_iff.mpr h
      exact .mvn hs hstart hword hne hgap hgoal
    | line hline hlead hword htrail =>
      obtain ⟨_, _, _, _, _, hs, hstart, hlead, hword, htrail, hend⟩ :=
        (exists_alone_iff (by decide)).mpr ⟨_, _, _, hline, hlead, hword, htrail⟩
      exact .yarn hs hstart hlead hword htrail hend

/-- A text is taken for an installation exactly if its words and lines say so, and a step exactly if
its script or one of its parameters is. -/
theorem installs_iff_fetchesPackages :
    (∀ text, Rules.isInstall text ↔ FetchesPackages text.toList) ∧
      ∀ s : Step, Rules.installsPackages s ↔
        (∃ script, s.run = some script ∧ FetchesPackages script.toList) ∨
          ∃ value ∈ s.params.values, FetchesPackages value.toList := by
  refine ⟨fun text => isInstall_iff.trans installs_iff, fun s => ?_⟩
  simp only [installsPackages_iff, InstallsPackages, installs_iff]

end WorkflowAudit.Lint
