import WorkflowAudit.Proofs.Lint.InstallLaws

/-! Scripts of several lines. A line break ends words and lines, so that what fetches packages on
one side of it does so in the whole; but it counts as a blank, and a command may go on behind it. -/

namespace WorkflowAudit.Lint

open Rules (installsPackages)
open Text (foldCase isBlank isWordChar splitOn splitOn_append)
open Workflow (Step)

inductive IsFetch : List (List String) → (Option Char → Prop) → Prop
  | command {parts : List (List String)} : parts ∈ installCommands → IsFetch parts fun _ => True
  | goal : IsFetch [["mvn"], ["dependency"]] (· = some ':')

namespace IsFetch

variable {parts : List (List String)} {Next : Option Char → Prop}

theorem areWords (h : IsFetch parts Next) : AreWords parts := by
  cases h with
  | command hparts => exact areWords_installCommands _ hparts
  | goal => decide

theorem next_newline (h : IsFetch parts Next) : Next (some '\n') ↔ Next none := by
  cases h with
  | command => rfl
  | goal => exact iff_of_false (by decide) (by decide)

end IsFetch

structure Stands (parts : List (List String)) (Next : Option Char → Prop)
    (before part after : List Char) : Prop where
  spells : Spells parts part
  start : ∀ c ∈ before.getLast?, isWordChar c = false
  stop : ∀ c ∈ after.head?, isWordChar c = false
  next : Next after.head?

def StandsIn (parts : List (List String)) (Next : Option Char → Prop) (s : List Char) : Prop :=
  ∃ before part after, s = before ++ part ++ after ∧ Stands parts Next before part after

def IsYarnLine (line : List Char) : Prop :=
  ∃ lead word trail, line = lead ++ word ++ trail ∧ (∀ c ∈ lead, isBlank c) ∧
    word.map foldCase = "yarn".toList ∧ ∀ c ∈ trail, isBlank c

def EndsIn (parts : List (List String)) (s : List Char) : Prop :=
  ∃ before part gap, s = before ++ part ++ gap ∧ Spells parts part ∧
    (∀ c ∈ before.getLast?, isWordChar c = false) ∧ ∀ c ∈ gap, isBlank c

def StartsIn (parts : List (List String)) (Next : Option Char → Prop) (s : List Char) : Prop :=
  ∃ gap part after, s = gap ++ part ++ after ∧ (∀ c ∈ gap, isBlank c) ∧ Spells parts part ∧
    (∀ c ∈ after.head?, isWordChar c = false) ∧ Next after.head?

/-- The first words of a command end one text, and the others start the next. -/
def BreaksCommand (a b : List Char) : Prop :=
  ∃ front back Next, IsFetch (front ++ back) Next ∧ EndsIn front a ∧ StartsIn back Next b

variable {parts front back : List (List String)} {Next : Option Char → Prop}
  {a b s part word gap p q x y : List Char} {c : Char}

theorem exists_of_append_eq_append_cons (h : x ++ y = p ++ c :: q) :
    (∃ t, x = p ++ c :: t ∧ q = t ++ y) ∨ ∃ t, p = x ++ t ∧ y = t ++ c :: q := by
  rcases List.append_eq_append_iff.mp h with ⟨t, hp, hy⟩ | ⟨t, hx, hq⟩
  · exact .inr ⟨t, hp, hy⟩
  · cases t with
    | nil => exact .inr ⟨[], by simpa using hx.symm, by simpa using hq.symm⟩
    | cons d t =>
      obtain ⟨rfl, rfl⟩ := List.cons.inj hq
      exact .inl ⟨t, hx, rfl⟩

theorem newline_notMem_word {w : String} (h : word.map foldCase = w.toList)
    (hw : w.toList.all isWordChar) : '\n' ∉ word := fun hmem =>
  absurd (isWordChar_of_map_foldCase h hw '\n' hmem) (by decide)

namespace Spells

theorem append (h : Spells front part) (hne : gap ≠ []) (hgap : ∀ c ∈ gap, isBlank c)
    (hback : Spells back word) : Spells (front ++ back) (part ++ gap ++ word) := by
  induction h with
  | last hw hpart => exact .more hw hpart hne hgap hback
  | more hw hpart hne' hgap' _ ih =>
    rw [List.cons_append, List.append_assoc, List.append_assoc, ← List.append_assoc _ gap word]
    exact .more hw hpart hne' hgap' ih

theorem exists_of_newline (h : Spells parts part)
    (hparts : ∀ options ∈ parts, ∀ w ∈ options, w.toList ≠ [] ∧ w.toList.all isWordChar)
    (hpart : part = p ++ '\n' :: q) :
    ∃ front back, parts = front ++ back ∧
      (∃ first gap, p = first ++ gap ∧ Spells front first ∧ ∀ c ∈ gap, isBlank c) ∧
      ∃ gap last, q = gap ++ last ∧ (∀ c ∈ gap, isBlank c) ∧ Spells back last := by
  induction h generalizing p with
  | last hw hword =>
    have hword := newline_notMem_word hword (hparts _ List.mem_cons_self _ hw).2
    exact absurd (by simp [hpart]) hword
  | @more options rest w word gap tail hw hword hne hgap htail ih =>
    have hbreak := newline_notMem_word hword (hparts _ List.mem_cons_self _ hw).2
    rcases exists_of_append_eq_append_cons hpart with ⟨t, hfirst, hq⟩ | ⟨t, hp, hlast⟩
    · rcases exists_of_append_eq_append_cons hfirst with ⟨t', hword', -⟩ | ⟨g, hp, hgap'⟩
      · exact absurd (by simp [hword']) hbreak
      · refine ⟨[options], rest, rfl, ⟨word, g, hp, .last hw hword, fun c hc => hgap c ?_⟩,
          t, tail, hq, fun c hc => hgap c ?_, htail⟩
        · simp [hgap', hc]
        · simp [hgap', hc]
    · have hrest := fun options h => hparts options (List.mem_cons_of_mem _ h)
      obtain ⟨front, back, hparts', ⟨first, g, hfirst, hfront, hg⟩, hback⟩ := ih hrest hlast
      refine ⟨options :: front, back, by rw [hparts', List.cons_append],
        ⟨word ++ gap ++ first, g, ?_, .more hw hword hne hgap hfront, hg⟩, hback⟩
      rw [hp, hfirst, ← List.append_assoc]

end Spells

theorem forall_getLast?_newline :
    (∀ c ∈ (p ++ '\n' :: q).getLast?, isWordChar c = false) ↔
      ∀ c ∈ q.getLast?, isWordChar c = false := by
  have hnewline : isWordChar '\n' = false := by decide
  rw [List.getLast?_append_cons, List.getLast?_cons]
  cases q.getLast? <;> simp [hnewline]

theorem forall_head?_newline :
    (∀ c ∈ (p ++ '\n' :: q).head?, isWordChar c = false) ↔
      ∀ c ∈ p.head?, isWordChar c = false := by
  have hnewline : isWordChar '\n' = false := by decide
  cases p <;> simp [hnewline]

theorem next_newline_iff (h : Next (some '\n') ↔ Next none) :
    Next (p ++ '\n' :: q).head? ↔ Next p.head? := by
  cases p with
  | nil => exact h
  | cons c p => rfl

theorem standsIn_newline (hparts : AreWords parts) (hnext : Next (some '\n') ↔ Next none) :
    StandsIn parts Next (a ++ '\n' :: b) ↔ StandsIn parts Next a ∨ StandsIn parts Next b ∨
      ∃ front back, parts = front ++ back ∧ EndsIn front a ∧ StartsIn back Next b := by
  constructor
  · rintro ⟨before, part, after, hsplit, h⟩
    have hwords := fun options ho => (hparts.2 options ho).2
    -- the line break stands before the command, in it, or behind it
    rcases exists_of_append_eq_append_cons hsplit.symm with ⟨t, hfirst, hb⟩ | ⟨t, ha, hafter⟩
    · rcases exists_of_append_eq_append_cons hfirst with ⟨t', hbefore, ht⟩ | ⟨t', ha, hpart⟩
      · have hstart := forall_getLast?_newline.mp (hbefore ▸ h.start)
        exact .inr (.inl ⟨t', part, after, by rw [hb, ht], h.spells, hstart, h.stop, h.next⟩)
      · obtain ⟨front, back, hfront, ⟨first, gap, hfirst, hspells, hgap⟩, gap', last, hlast, hgap',
          hspells'⟩ := h.spells.exists_of_newline hwords hpart
        exact .inr (.inr ⟨front, back, hfront,
          ⟨before, first, gap, by rw [ha, hfirst, List.append_assoc], hspells, h.start, hgap⟩,
          ⟨gap', last, after, by rw [hb, hlast], hgap', hspells', h.stop, h.next⟩⟩)
    · have hstop := forall_head?_newline.mp (hafter ▸ h.stop)
      have hnext := (next_newline_iff hnext).mp (hafter ▸ h.next)
      exact .inl ⟨before, part, t, ha, h.spells, h.start, hstop, hnext⟩
  · rintro (⟨before, part, after, rfl, h⟩ | ⟨before, part, after, rfl, h⟩ |
      ⟨front, back, rfl, ⟨before, first, gap, rfl, hfirst, hstart, hgap⟩,
        ⟨gap', last, after, rfl, hgap', hlast, hstop, hnext⟩⟩)
    · exact ⟨before, part, after ++ '\n' :: b, by simp, h.spells, h.start,
        forall_head?_newline.mpr h.stop, (next_newline_iff hnext).mpr h.next⟩
    · exact ⟨a ++ '\n' :: before, part, after, by simp, h.spells,
        forall_getLast?_newline.mpr h.start, h.stop, h.next⟩
    · have hblank : ∀ c ∈ gap ++ '\n' :: gap', isBlank c := by
        intro c hc
        rcases List.mem_append.mp hc with hc | hc
        · exact hgap c hc
        · rcases List.mem_cons.mp hc with rfl | hc
          · decide
          · exact hgap' c hc
      exact ⟨before, first ++ (gap ++ '\n' :: gap') ++ last, after, by simp,
        hfirst.append (by simp) hblank hlast, hstart, hstop, hnext⟩

theorem hasRuns_iff_standsIn (h : AreWords parts) :
    HasRuns parts Next s ↔ StandsIn parts Next s := by
  rw [hasRuns_iff h]
  constructor
  · rintro ⟨before, part, after, hs, hpart, hstart, hstop, hnext⟩
    exact ⟨before, part, after, hs, hpart, hstart, hstop, hnext⟩
  · rintro ⟨before, part, after, hs, h⟩
    exact ⟨before, part, after, hs, h.spells, h.start, h.stop, h.next⟩

theorem fetchesPackages_iff : FetchesPackages s ↔
    (∃ parts Next, IsFetch parts Next ∧ StandsIn parts Next s) ∨
      ∃ line ∈ splitOn '\n' s, IsYarnLine line := by
  constructor
  · intro h
    cases h with
    | @command parts hparts h =>
      have hfetch := IsFetch.command hparts
      exact .inl ⟨parts, _, hfetch, (hasRuns_iff_standsIn hfetch.areWords).mp h⟩
    | goal h => exact .inl ⟨_, _, .goal, (hasRuns_iff_standsIn IsFetch.goal.areWords).mp h⟩
    | line hline hlead hword htrail => exact .inr ⟨_, hline, _, _, _, rfl, hlead, hword, htrail⟩
  · rintro (⟨parts, Next, hfetch, h⟩ | ⟨_, hline, lead, word, trail, rfl, hlead, hword, htrail⟩)
    · have h := (hasRuns_iff_standsIn hfetch.areWords).mpr h
      cases hfetch with
      | command hparts => exact .command hparts h
      | goal => exact .goal h
    · exact .line hline hlead hword htrail

theorem fetchesPackages_newline : FetchesPackages (a ++ '\n' :: b) ↔
    FetchesPackages a ∨ FetchesPackages b ∨ BreaksCommand a b := by
  simp only [fetchesPackages_iff, splitOn_append, List.mem_append]
  constructor
  · rintro (⟨parts, Next, hfetch, h⟩ | ⟨line, hline | hline, hyarn⟩)
    · rcases (standsIn_newline hfetch.areWords hfetch.next_newline).mp h with
        h | h | ⟨front, back, rfl, hfront, hback⟩
      · exact .inl (.inl ⟨parts, Next, hfetch, h⟩)
      · exact .inr (.inl (.inl ⟨parts, Next, hfetch, h⟩))
      · exact .inr (.inr ⟨front, back, Next, hfetch, hfront, hback⟩)
    · exact .inl (.inr ⟨line, hline, hyarn⟩)
    · exact .inr (.inl (.inr ⟨line, hline, hyarn⟩))
  · have hstands : ∀ {parts Next}, IsFetch parts Next → _ → StandsIn parts Next (a ++ '\n' :: b) :=
      fun hfetch => (standsIn_newline hfetch.areWords hfetch.next_newline).mpr
    rintro ((⟨parts, Next, hfetch, h⟩ | ⟨line, hline, hyarn⟩) |
      (⟨parts, Next, hfetch, h⟩ | ⟨line, hline, hyarn⟩) |
      ⟨front, back, Next, hfetch, hfront, hback⟩)
    · exact .inl ⟨parts, Next, hfetch, hstands hfetch (.inl h)⟩
    · exact .inr ⟨line, .inl hline, hyarn⟩
    · exact .inl ⟨parts, Next, hfetch, hstands hfetch (.inr (.inl h))⟩
    · exact .inr ⟨line, .inr hline, hyarn⟩
    · exact .inl ⟨_, Next, hfetch, hstands hfetch (.inr (.inr ⟨front, back, rfl, hfront, hback⟩))⟩

def running (s : Step) (script : String) : Step := { s with run := some script, params := ∅ }

theorem installsPackages_running {t : Step} {script : String} :
    installsPackages (running t script) ↔ FetchesPackages script.toList := by
  have hparams : (running t script).params.values = [] := rfl
  rw [installsPackages_iff, InstallsPackages, hparams, ← installs_iff]
  simp [running]

/-- A script of two lines fetches packages exactly if one of them does, or a command goes on from
the first to the second. -/
theorem installsPackages_newline (t u v : Step) (a b : String) :
    installsPackages (running t (a ++ "\n" ++ b)) ↔
      installsPackages (running u a) ∨ installsPackages (running v b) ∨
        BreaksCommand a.toList b.toList := by
  have hscript : (a ++ "\n" ++ b).toList = a.toList ++ '\n' :: b.toList := by simp
  rw [installsPackages_running, installsPackages_running, installsPackages_running, hscript]
  exact fetchesPackages_newline

/-- Two lines that fetch nothing, the first of which ends in the name of a package manager. -/
theorem not_installsPackages_newline : ¬∀ (t : Step) (a b : String),
    installsPackages (running t (a ++ "\n" ++ b)) ↔
      installsPackages (running t a) ∨ installsPackages (running t b) := by
  intro h
  have hbreak := h ⟨none, none, none, ∅⟩ "which npm" "install -d dist"
  exact absurd hbreak (by decide +kernel)

end WorkflowAudit.Lint
