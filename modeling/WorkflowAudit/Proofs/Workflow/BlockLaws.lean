import WorkflowAudit.Proofs.Text.PartLaws
import WorkflowAudit.Proofs.Workflow.RecoveryLaws

namespace WorkflowAudit.Workflow

/-- A line that starts a block, by its parts: blanks that are its indentation, and a character that
begins neither a comment nor an item of a list. It has a colon somewhere. -/
def StartsBlock (indent : Nat) (line : List Char) : Prop :=
  ∃ lead c rest, line = lead ++ c :: rest ∧ (∀ d ∈ lead, Text.isBlank d) ∧
    Text.isBlank c = false ∧ Text.byteCount lead = indent ∧ c ≠ '#' ∧ c ≠ '-' ∧ ':' ∈ line

section Lines

variable {indent : Nat} {line : List Char}

theorem startsBlock_iff : startsBlock indent line ↔ StartsBlock indent line := by
  constructor
  · intro h
    simp only [startsBlock, isContentLine, Bool.and_eq_true, decide_eq_true_eq,
      List.contains_iff_mem] at h
    obtain ⟨⟨⟨hcontent, hindent⟩, hdash⟩, hcolon⟩ := h
    cases htrim : Text.trimStart line with
    | nil => simp [htrim] at hcontent
    | cons c rest =>
      simp only [htrim, decide_eq_true_eq] at hcontent
      refine ⟨line.takeWhile Text.isBlank, c, rest, ?_, fun _ => List.mem_takeWhile_imp,
        Text.isBlank_of_trimStart_eq_cons htrim, hindent, hcontent, ?_, hcolon⟩
      · rw [← htrim, Text.takeWhile_append_trimStart]
      · simpa [htrim] using hdash
  · rintro ⟨lead, c, rest, rfl, hlead, hc, hindent, hcomment, hdash, hcolon⟩
    have htrim : Text.trimStart (lead ++ c :: rest) = c :: rest :=
      Text.dropWhile_run hlead (by simpa using hc)
    have hblanks : (lead ++ c :: rest).takeWhile Text.isBlank = lead :=
      Text.takeWhile_run hlead (by simpa using hc)
    simp [startsBlock, isContentLine, htrim, Text.indentation, hblanks, hindent, hcomment, hdash,
      hcolon]

instance (indent : Nat) : DecidablePred (StartsBlock indent) :=
  fun _ => decidable_of_iff _ startsBlock_iff

theorem startsBlock_eq_false_iff : startsBlock indent line = false ↔ ¬StartsBlock indent line := by
  rw [← startsBlock_iff, Bool.not_eq_true]

theorem startsBlock_eq_decide (indent : Nat) :
    startsBlock indent = fun line => decide (StartsBlock indent line) := by
  funext line
  rw [Bool.eq_iff_iff, startsBlock_iff, decide_eq_true_iff]

theorem startsBlock_withoutReturn :
    StartsBlock indent (Text.withoutReturn line) ↔ StartsBlock indent line := by
  rw [Text.withoutReturn]
  split
  case isFalse => rfl
  case isTrue hlast =>
    obtain ⟨front, rfl⟩ := List.getLast?_eq_some_iff.mp hlast
    rw [List.dropLast_concat]
    constructor
    · rintro ⟨lead, c, rest, rfl, hlead, hc, hindent, hcomment, hdash, hcolon⟩
      exact ⟨lead, c, rest ++ ['\r'], by simp, hlead, hc, hindent, hcomment, hdash,
        List.mem_append_left _ hcolon⟩
    · rintro ⟨lead, c, rest, hline, hlead, hc, hindent, hcomment, hdash, hcolon⟩
      cases rest using List.reverseRecOn with
      | nil =>
        obtain ⟨-, hreturn⟩ := List.append_inj' hline rfl
        obtain rfl := (List.cons.inj hreturn).1
        exact absurd hc (by decide)
      | append_singleton rest d =>
        rw [← List.cons_append, ← List.append_assoc] at hline
        obtain ⟨rfl, -⟩ := List.append_inj' hline rfl
        exact ⟨lead, c, rest, rfl, hlead, hc, hindent, hcomment, hdash, by simpa using hcolon⟩

end Lines

section Blocks

variable {indent : Nat} {text : List Char} {ls : List (List Char)} {b : Block}

theorem flatMap_lines_blocks (indent : Nat) (ls : List (List Char)) :
    (blocks indent ls).flatMap Block.lines = ls.dropWhile (!startsBlock indent ·) := by
  induction ls with
  | nil => rfl
  | cons line ls ih =>
    by_cases hline : startsBlock indent line
    · rw [blocks, if_pos hline, List.flatMap_cons, ih,
        List.dropWhile_cons_of_neg (by simp [hline]), Block.lines, List.cons_append,
        List.takeWhile_append_dropWhile]
    · rw [blocks, if_neg hline, ih, List.dropWhile_cons_of_pos (by simp [hline])]

theorem flatMap_text (found : List Block) :
    found.flatMap Block.text = Text.unlines (found.flatMap Block.lines) := by
  rw [Text.unlines, List.flatMap_assoc]
  rfl

theorem length_blocks (indent : Nat) (ls : List (List Char)) :
    (blocks indent ls).length = ls.countP (startsBlock indent) := by
  induction ls with
  | nil => rfl
  | cons line ls ih =>
    by_cases hline : startsBlock indent line
    · rw [blocks, if_pos hline, List.length_cons, ih, List.countP_cons_of_pos hline]
    · rw [blocks, if_neg hline, ih, List.countP_cons_of_neg hline]

theorem startsBlock_of_mem_blocks (h : b ∈ blocks indent ls) :
    startsBlock indent b.first ∧ ∀ line ∈ b.rest, startsBlock indent line = false := by
  induction ls with
  | nil => cases h
  | cons line ls ih =>
    by_cases hline : startsBlock indent line
    · rw [blocks, if_pos hline] at h
      rcases List.mem_cons.mp h with rfl | h
      · exact ⟨hline, fun line hmem => by simpa using List.mem_takeWhile_imp hmem⟩
      · exact ih h
    · rw [blocks, if_neg hline] at h
      exact ih h

theorem mem_of_mem_blocks {line : List Char} (h : b ∈ blocks indent ls) (hline : line ∈ b.lines) :
    line ∈ ls := by
  have hmem : line ∈ (blocks indent ls).flatMap Block.lines := List.mem_flatMap.mpr ⟨b, h, hline⟩
  rw [flatMap_lines_blocks] at hmem
  exact (List.dropWhile_sublist _).mem hmem

theorem blocks_dropWhile (indent : Nat) (ls : List (List Char)) :
    blocks indent (ls.dropWhile (!startsBlock indent ·)) = blocks indent ls := by
  induction ls with
  | nil => rfl
  | cons line ls ih =>
    by_cases hline : startsBlock indent line
    · rw [List.dropWhile_cons_of_neg (by simp [hline])]
    · rw [List.dropWhile_cons_of_pos (by simp [hline]), ih, blocks, if_neg hline]

/-- Blocks with the lines from the first one that starts a block on, in order and each once. A block
starts with its first line and nowhere else. -/
structure CutInto (indent : Nat) (ls : List (List Char)) (found : List Block) : Prop where
  lines_eq : found.flatMap Block.lines = ls.dropWhile (¬StartsBlock indent ·)
  text_eq : found.flatMap Block.text =
    (ls.dropWhile (¬StartsBlock indent ·)).flatMap (· ++ ['\n'])
  first : ∀ b ∈ found, StartsBlock indent b.first
  rest : ∀ b ∈ found, ∀ line ∈ b.rest, ¬StartsBlock indent line
  length_eq : found.length = ls.countP (StartsBlock indent ·)

theorem cutInto_blocks (indent : Nat) (ls : List (List Char)) :
    CutInto indent ls (blocks indent ls) := by
  have hlines : (blocks indent ls).flatMap Block.lines = ls.dropWhile (¬StartsBlock indent ·) := by
    rw [flatMap_lines_blocks, startsBlock_eq_decide]
    simp only [decide_not]
  constructor
  case lines_eq => exact hlines
  case text_eq => rw [flatMap_text, hlines, Text.unlines]
  case first => exact fun b hb => startsBlock_iff.mp (startsBlock_of_mem_blocks hb).1
  case rest =>
    intro b hb line hline
    exact startsBlock_eq_false_iff.mp ((startsBlock_of_mem_blocks hb).2 line hline)
  case length_eq => rw [length_blocks, startsBlock_eq_decide]

theorem lines_text_of_mem_blocks (h : b ∈ blocks indent (Text.lines text)) :
    Text.lines b.text = b.lines.map Text.withoutReturn :=
  Text.lines_unlines fun _ hline => Text.newline_not_mem_of_mem_lines (mem_of_mem_blocks h hline)

theorem blocks_lines_flatMap_text (h : '\r' ∉ text) :
    blocks indent (Text.lines ((blocks indent (Text.lines text)).flatMap Block.text)) =
      blocks indent (Text.lines text) := by
  have hmem : ∀ line ∈ (Text.lines text).dropWhile (!startsBlock indent ·),
      line ∈ Text.lines text := fun line hline => (List.dropWhile_sublist _).mem hline
  have hkept : ((Text.lines text).dropWhile (!startsBlock indent ·)).map Text.withoutReturn =
      (Text.lines text).dropWhile (!startsBlock indent ·) := by
    refine (List.map_congr_left fun line hline => ?_).trans (List.map_id _)
    exact Text.withoutReturn_of_not_mem fun hreturn =>
      h (Text.mem_of_mem_lines (hmem line hline) hreturn)
  calc
    _ = blocks indent (Text.lines (Text.unlines
          ((Text.lines text).dropWhile (!startsBlock indent ·)))) := by
      rw [flatMap_text, flatMap_lines_blocks]
    _ = blocks indent ((Text.lines text).dropWhile (!startsBlock indent ·)) := by
      rw [Text.lines_unlines fun line hline =>
        Text.newline_not_mem_of_mem_lines (hmem line hline), hkept]
    _ = blocks indent (Text.lines text) := blocks_dropWhile indent (Text.lines text)

/-- A text is cut into blocks without loss, and so that each of the texts cut out has one line that
starts a block, its first. Without carriage returns they are cut into the same blocks again. -/
theorem blocks_lossless (indent : Nat) (text : List Char) :
    CutInto indent (Text.lines text) (blocks indent (Text.lines text)) ∧
    (∀ b ∈ blocks indent (Text.lines text), ∃ first rest, Text.lines b.text = first :: rest ∧
      StartsBlock indent first ∧ ∀ line ∈ rest, ¬StartsBlock indent line) ∧
    ('\r' ∉ text →
      blocks indent (Text.lines ((blocks indent (Text.lines text)).flatMap Block.text)) =
        blocks indent (Text.lines text)) := by
  have hcut := cutInto_blocks indent (Text.lines text)
  refine ⟨hcut, fun b hb => ?_, blocks_lines_flatMap_text⟩
  refine ⟨_, _, lines_text_of_mem_blocks hb, startsBlock_withoutReturn.mpr (hcut.first b hb), ?_⟩
  intro left hleft
  obtain ⟨line, hline, rfl⟩ := List.mem_map.mp hleft
  exact mt startsBlock_withoutReturn.mp (hcut.rest b hb line hline)

def sampleSections : List Char := "# c\non:\n- push: x\n\n  b\njobs: x".toList

theorem blocks_lossless_sampleSections :
    '\r' ∉ sampleSections ∧
      blocks 0 (Text.lines ((blocks 0 (Text.lines sampleSections)).flatMap Block.text)) =
        [⟨"on:".toList, ["- push: x".toList, [], "  b".toList]⟩, ⟨"jobs: x".toList, []⟩] := by
  have hreturn : '\r' ∉ sampleSections := by decide
  obtain ⟨-, -, hagain⟩ := blocks_lossless 0 sampleSections
  exact ⟨hreturn, (hagain hreturn).trans (by decide)⟩

end Blocks

end WorkflowAudit.Workflow
