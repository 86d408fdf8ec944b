import WorkflowAudit.Proofs.Text.PartLaws
import WorkflowAudit.Yaml.Read

/-! Texts that hold no document. Spaces, comments and line ends are passed over, and a text of
nothing else is read as null. -/

namespace WorkflowAudit.Yaml

structure IsVacantLine (line : List Char) : Prop where
  exists_parts : ∃ spaces comment, line = spaces ++ comment ∧ (∀ c ∈ spaces, c = ' ') ∧
    ∀ c ∈ comment.head?, c = '#'
  unbroken : ∀ c ∈ line, isBreak c = false
  allowed : ∀ c ∈ line, Token.isAllowed c

inductive IsVacant : List Char → Prop
  | last {line : List Char} : IsVacantLine line → IsVacant line
  | line {line rest : List Char} : IsVacantLine line → IsVacant rest →
    IsVacant (line ++ '\n' :: rest)

theorem rest_skipWhile (c : Cursor) (p : Char → Bool) :
    (c.skipWhile p).rest = c.rest.dropWhile p := by
  have hsplit : c.rest.takeWhile p ++ c.rest.dropWhile p = c.rest :=
    List.takeWhile_append_dropWhile
  calc (c.skipWhile p).rest
    _ = c.rest.drop (c.rest.takeWhile p).length := rfl
    _ = (c.rest.takeWhile p ++ c.rest.dropWhile p).drop (c.rest.takeWhile p).length := by
      rw [hsplit]
    _ = c.rest.dropWhile p := List.drop_left

namespace Token.Stream

variable {s : Stream} {line rest text : List Char} {fuel : Nat}

structure IsIdle (s : Stream) : Prop where
  tokens : s.tokens = []
  indent : s.indent = -1
  outer : s.outer = []
  keys : s.keys = [none]
  keyAllowed : s.keyAllowed = true

theorem isIdle_start (text : List Char) : (start text).IsIdle := ⟨rfl, rfl, rfl, rfl, rfl⟩

def afterVacant (c : Cursor) : Cursor :=
  let c := c.skipWhile (· = ' ')
  if c.peek = some '#' then c.skipWhile fun ch => !isBreak ch else c

section Lines

variable {c : Cursor} (hline : IsVacantLine line) (hrest : ∀ d ∈ rest.head?, isBreak d)
  (hc : c.rest = line ++ rest)
include hline hrest hc

theorem rest_afterVacant : (afterVacant c).rest = rest := by
  obtain ⟨spaces, comment, rfl, hspaces, hcomment⟩ := hline.exists_parts
  have hstop : ∀ d ∈ (comment ++ rest).head?, decide (d = ' ') = false := by
    rw [List.head?_append]
    cases comment with
    | nil =>
      intro d hd
      exact decide_eq_false fun hspace => absurd (hspace ▸ hrest d hd) (by decide)
    | cons d comment =>
      obtain rfl := hcomment d rfl
      simp
  have hspaced : (c.skipWhile (· = ' ')).rest = comment ++ rest := by
    rw [rest_skipWhile, hc, List.append_assoc,
      Text.dropWhile_run (fun d hd => decide_eq_true (hspaces d hd)) hstop]
  rw [afterVacant]
  cases comment with
  | nil =>
    have hpeek : (c.skipWhile (· = ' ')).peek ≠ some '#' := by
      rw [Cursor.peek, hspaced, List.nil_append]
      exact fun hhash => absurd (hrest '#' hhash) (by decide)
    rw [if_neg hpeek, hspaced, List.nil_append]
  | cons d comment =>
    obtain rfl := hcomment d rfl
    have hpeek : (c.skipWhile (· = ' ')).peek = some '#' := by
      rw [Cursor.peek, hspaced]
      rfl
    have hunbroken : ∀ d ∈ '#' :: comment, !isBreak d := fun d hd => by
      rw [hline.unbroken d (List.mem_append_right _ hd)]
      rfl
    rw [if_pos hpeek, rest_skipWhile, hspaced, Text.dropWhile_run hunbroken]
    exact fun d hd => by rw [hrest d hd]; rfl

theorem peek_ne_mark : c.peek ≠ some '\uFEFF' := by
  obtain ⟨spaces, comment, rfl, hspaces, hcomment⟩ := hline.exists_parts
  rw [Cursor.peek, hc]
  intro hmark
  cases spaces with
  | cons d spaces =>
    obtain rfl := hspaces d List.mem_cons_self
    exact absurd (Option.some.inj hmark) (by decide)
  | nil =>
    cases comment with
    | cons d comment =>
      obtain rfl := hcomment d rfl
      exact absurd (Option.some.inj hmark) (by decide)
    | nil => exact absurd (hrest _ hmark) (by decide)

end Lines

theorem skipToToken_succ (hs : s.IsIdle) (hline : IsVacantLine line)
    (hrest : ∀ d ∈ rest.head?, isBreak d) (hc : s.at_.rest = line ++ rest) :
    skipToToken (fuel + 1) s =
      if ((afterVacant s.at_).peek.map isBreak).getD false then
        skipToToken fuel { s with at_ := (afterVacant s.at_).skipBreak, keyAllowed := true }
      else { s with at_ := afterVacant s.at_ } := by
  have hmark := peek_ne_mark hline hrest hc
  have hflow : s.inFlow = false := by rw [inFlow, hs.keys]; rfl
  simp only [skipToToken, hmark, decide_false, Bool.and_false, Bool.false_eq_true,
    if_false, hflow, hs.keyAllowed, Bool.not_true, Bool.or_false, Bool.false_and, Bool.true_or]
  rfl

theorem skipToToken_of_isVacant (htext : IsVacant text) (hs : s.IsIdle)
    (hc : s.at_.rest = text) (hfuel : text.length < fuel) :
    (skipToToken fuel s).IsIdle ∧ (skipToToken fuel s).at_.rest = [] := by
  induction htext generalizing s fuel with
  | @last line hline =>
    obtain ⟨fuel, rfl⟩ := Nat.exists_eq_add_one_of_ne_zero (Nat.ne_zero_of_lt hfuel)
    have hend : s.at_.rest = line ++ [] := by rw [hc, List.append_nil]
    have hafter : (afterVacant s.at_).rest = [] := rest_afterVacant hline (by simp) hend
    rw [skipToToken_succ hs hline (by simp) hend, Cursor.peek, hafter]
    exact ⟨⟨hs.tokens, hs.indent, hs.outer, hs.keys, hs.keyAllowed⟩, hafter⟩
  | @line line rest hline _ ih =>
    obtain ⟨fuel, rfl⟩ := Nat.exists_eq_add_one_of_ne_zero (Nat.ne_zero_of_lt hfuel)
    have hbreak : ∀ d ∈ ('\n' :: rest).head?, isBreak d := by simp [isBreak]
    have hafter : (afterVacant s.at_).rest = '\n' :: rest := rest_afterVacant hline hbreak hc
    have hnext : (afterVacant s.at_).skipBreak.rest = rest := by
      simp [Cursor.skipBreak, Cursor.takeBreak, hafter]
    rw [skipToToken_succ hs hline hbreak hc, Cursor.peek, hafter]
    refine ih ⟨hs.tokens, hs.indent, hs.outer, hs.keys, rfl⟩ hnext ?_
    rw [List.length_append, List.length_cons] at hfuel
    omega

theorem run_of_isVacant (htext : IsVacant text) : (start text).run (text.length + 2) = .ok [] := by
  have hfuel : text.length < text.length + 2 := by omega
  obtain ⟨hidle, hrest⟩ := skipToToken_of_isVacant htext (isIdle_start text) rfl hfuel
  rw [run]
  generalize skipToToken (text.length + 2) (start text) = s at hidle hrest
  obtain ⟨⟨rest, index, line, column⟩, tokens, count, indent, outer, keys, keyAllowed⟩ := s
  obtain ⟨rfl, rfl, rfl, rfl, rfl⟩ := hidle
  obtain rfl : rest = [] := hrest
  rfl

end Token.Stream

theorem isAllowed_of_isVacant {text : List Char} (h : IsVacant text) :
    ∀ c ∈ text, Token.isAllowed c := by
  induction h with
  | last hline => exact hline.allowed
  | line hline _ ih =>
    intro c hc
    rcases List.mem_append.mp hc with hc | hc
    · exact hline.allowed c hc
    · rcases List.mem_cons.mp hc with rfl | hc
      · decide
      · exact ih c hc

theorem read_of_isVacant {text : String} (h : IsVacant text.toList) : read text = .ok .null := by
  have hallowed : text.toList.find? (fun c => !Token.isAllowed c) = none := by
    rw [List.find?_eq_none]
    intro c hc
    simp [isAllowed_of_isVacant h c hc]
  have htokens : Token.ofText text.toList = .ok [] := by
    rw [Token.ofText, hallowed]
    exact Token.Stream.run_of_isVacant h
  rw [read, htokens]
  rfl

end WorkflowAudit.Yaml
