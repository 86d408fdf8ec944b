import WorkflowAudit.Proofs.Text.PartLaws
import WorkflowAudit.Proofs.Workflow.RecoveryLaws

/-! What is read of the lines of a job. The cut is made at a number of bytes, so a line loses just
its indentation only if it has such a cut exactly when it has the indentation. A comment at the
start of a line is cut as well, and what is left of it is no comment. -/

namespace WorkflowAudit.Workflow

open Yaml (Value)

section Lines

variable {indent : Nat} {line left : List Char}

/-- Nothing but blanks at its start is taken off a line: the indentation, or all of them if there
are fewer. -/
def DedentsTo (indent : Nat) (line left : List Char) : Prop :=
  ∃ lead, line = lead ++ left ∧ (∀ c ∈ lead, Text.isBlank c) ∧
    Text.byteCount lead = min indent (Text.indentation line)

def HasCut (indent : Nat) (line : List Char) : Prop :=
  ∃ lead left, line = lead ++ left ∧ Text.byteCount lead = indent

/-- What is read of a line. Its first bytes are taken off whatever they are, and its blanks if there
is no such cut. -/
structure ReadAs (indent : Nat) (line left : List Char) : Prop where
  of_cut : HasCut indent line → ∃ lead, line = lead ++ left ∧ Text.byteCount lead = indent
  of_not_cut : ¬HasCut indent line → left = Text.trimStart line

theorem readAs_dedent (indent : Nat) (line : List Char) : ReadAs indent line (dedent indent line) := by
  constructor
  case of_cut =>
    rintro ⟨lead, left, hline, hlead⟩
    have hdrop := Text.dropBytes?_eq_some_iff.mpr ⟨lead, hline, hlead⟩
    rw [dedent, hdrop, Option.getD_some]
    exact ⟨lead, hline, hlead⟩
  case of_not_cut =>
    intro hcut
    cases hdrop : Text.dropBytes? indent line with
    | none => rw [dedent, hdrop, Option.getD_none]
    | some left =>
      obtain ⟨lead, hline, hlead⟩ := Text.dropBytes?_eq_some_iff.mp hdrop
      exact absurd ⟨lead, left, hline, hlead⟩ hcut

theorem ReadAs.eq_dedent (h : ReadAs indent line left) : left = dedent indent line := by
  rw [dedent]
  by_cases hcut : HasCut indent line
  · rw [Text.dropBytes?_eq_some_iff.mpr (h.of_cut hcut), Option.getD_some]
  · have hdrop : Text.dropBytes? indent line = none := by
      rw [Option.eq_none_iff_forall_ne_some]
      intro left hleft
      obtain ⟨lead, hline, hlead⟩ := Text.dropBytes?_eq_some_iff.mp hleft
      exact hcut ⟨lead, left, hline, hlead⟩
    rw [hdrop, Option.getD_none, h.of_not_cut hcut]

theorem isBlank_of_byteCount_le {lead : List Char} (hline : line = lead ++ left)
    (hle : Text.byteCount lead ≤ Text.indentation line) : ∀ c ∈ lead, Text.isBlank c := by
  rw [Text.indentation] at hle
  have hblanks : ∀ c ∈ line.takeWhile Text.isBlank, Text.isBlank c :=
    fun _ => List.mem_takeWhile_imp
  have hsplit := (Text.takeWhile_append_trimStart line).trans hline
  rcases List.append_eq_append_iff.mp hsplit with ⟨more, hlead, -⟩ | ⟨more, hblank, -⟩
  · rw [hlead, Text.byteCount_append] at hle
    obtain rfl : more = [] := Text.byteCount_eq_zero_iff.mp (by omega)
    rw [hlead, List.append_nil]
    exact hblanks
  · intro c hc
    exact hblanks c (hblank ▸ List.mem_append_left more hc)

theorem ReadAs.dedentsTo_iff (h : ReadAs indent line left) :
    DedentsTo indent line left ↔ (HasCut indent line ↔ indent ≤ Text.indentation line) := by
  by_cases hcut : HasCut indent line
  · obtain ⟨lead, hline, hlead⟩ := h.of_cut hcut
    rw [iff_true_left hcut]
    constructor
    · rintro ⟨lead', hline', -, hlead'⟩
      obtain rfl : lead' = lead := List.append_cancel_right (hline'.symm.trans hline)
      omega
    · intro hle
      exact ⟨lead, hline, isBlank_of_byteCount_le hline (hlead ▸ hle), by omega⟩
  · obtain rfl := h.of_not_cut hcut
    rw [iff_false_left hcut]
    have hsplit := (Text.takeWhile_append_trimStart line).symm
    constructor
    · rintro ⟨lead, hline, -, hlead⟩ hle
      exact hcut ⟨lead, _, hline, by omega⟩
    · intro hle
      exact ⟨_, hsplit, fun _ => List.mem_takeWhile_imp, by rw [Text.indentation] at *; omega⟩

end Lines

section Jobs

variable {read : Reader} {indent : Nat} {text : List Char} {b : Block}

def jobIndent? (text : List Char) : Option Nat :=
  ((sectionBody text).find? isContentLine).map Text.indentation

def Recovered.ofJob (id : String) : Except Yaml.Error Value → Recovered
  | .ok (.mapping entries) => ⟨entries, []⟩
  | .ok _ => .ofIssue (.jobNotMapping id)
  | .error _ => .ofIssue (.jobSkipped id)

theorem recoverJob_eq (read : Reader) (indent : Nat) (b : Block) :
    recoverJob read indent b =
      .ofJob b.key (read (String.ofList (dedentedText indent b))) := by
  rw [recoverJob]
  cases read (String.ofList (dedentedText indent b)) with
  | error e => rfl
  | ok value => cases value <;> rfl

theorem recoverJobs_of_jobIndent (h : jobIndent? text = some indent) :
    recoverJobs read text = .join (jobParts read indent (sectionBody text)) := by
  obtain ⟨line, hline, rfl⟩ := Option.map_eq_some_iff.mp h
  simp only [recoverJobs, hline]
  rfl

/-- The jobs of a section are read from their lines, each cut at the indentation of the jobs. A line
loses nothing but that indentation, or all its blanks if it has less, exactly if it has a cut there
just when it has the indentation. -/
theorem jobs_readAs (read : Reader) (h : jobIndent? text = some indent) :
    ∃ lines : Block → List (List Char),
      recoverJobs read text = .join ((blocks indent (sectionBody text)).map fun b =>
        .ofJob b.key (read (String.ofList (Text.unlines (lines b))))) ∧
      ∀ b, List.Forall₂ (fun line left => ReadAs indent line left ∧
        (DedentsTo indent line left ↔ (HasCut indent line ↔ indent ≤ Text.indentation line)))
        (Text.lines b.text) (lines b) := by
  refine ⟨fun b => (Text.lines b.text).map (dedent indent), ?_, ?_⟩
  · rw [recoverJobs_of_jobIndent h, jobParts,
      List.map_congr_left fun b _ => recoverJob_eq read indent b]
    rfl
  · intro b
    rw [List.forall₂_map_right_iff, List.forall₂_same]
    intro line _
    exact ⟨readAs_dedent indent line, (readAs_dedent indent line).dedentsTo_iff⟩

def commentedJobs : List Char := "jobs:\n  a:\n    uses: b\n# c\n  d: [\n".toList

/-- The comment loses its mark, and the job it stands in is lost. -/
theorem jobs_readAs_commentedJobs :
    jobIndent? commentedJobs = some 2 ∧
      (∃ lines : Block → List (List Char),
        recoverJobs Yaml.read commentedJobs = .join ((blocks 2 (sectionBody commentedJobs)).map
          fun b => .ofJob b.key (Yaml.read (String.ofList (Text.unlines (lines b))))) ∧
        lines ⟨"  a:".toList, ["    uses: b".toList, "# c".toList]⟩ =
          ["a:".toList, "  uses: b".toList, "c".toList]) ∧
      ¬DedentsTo 2 "# c".toList "c".toList ∧
      (recoverJobs Yaml.read commentedJobs).entries = [] ∧
      (recoverJobs Yaml.read commentedJobs).issues = [.jobSkipped "a", .jobSkipped "d"] := by
  have hindent : jobIndent? commentedJobs = some 2 := by decide
  obtain ⟨lines, hjobs, hlines⟩ := jobs_readAs Yaml.read hindent
  have hleft : ∀ b, lines b = (Text.lines b.text).map (dedent 2) := by
    intro b
    have hsame := (hlines b).imp fun _ _ h => h.1.eq_dedent.symm
    rwa [← List.forall₂_map_left_iff, List.forall₂_eq_eq_eq, eq_comm] at hsame
  have hkept : ¬DedentsTo 2 "# c".toList "c".toList := by
    rintro ⟨lead, hline, hblank, -⟩
    obtain rfl : lead = "# ".toList := List.append_cancel_right (hline.symm.trans rfl)
    exact absurd (hblank '#' (by decide)) (by decide)
  exact ⟨hindent, ⟨lines, hjobs, (hleft _).trans (by cbv)⟩, hkept, by cbv, by cbv⟩

/-- A comment that starts the line loses its mark. -/
theorem not_dedentsTo_comment :
    ¬∀ (text : List Char) (indent : Nat) (b : Block),
      (∃ e, Yaml.read (String.ofList text) = .error e) →
      jobIndent? text = some indent → b ∈ blocks indent (sectionBody text) →
      ∀ line ∈ Text.lines b.text, DedentsTo indent line (dedent indent line) := by
  intro h
  have hmalformed : Yaml.read (String.ofList commentedJobs) = .error .expectedNode := by cbv
  have hcomment := h commentedJobs 2 ⟨"  a:".toList, ["    uses: b".toList, "# c".toList]⟩
    ⟨_, hmalformed⟩ (by decide) (by decide) "# c".toList (by decide)
  rw [(readAs_dedent 2 "# c".toList).dedentsTo_iff] at hcomment
  have hcut : HasCut 2 "# c".toList := ⟨"# ".toList, "c".toList, rfl, rfl⟩
  exact absurd (hcomment.mp hcut) (by decide)

end Jobs

end WorkflowAudit.Workflow
