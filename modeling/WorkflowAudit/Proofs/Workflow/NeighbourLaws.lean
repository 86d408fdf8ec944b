import WorkflowAudit.Proofs.Text.PartLaws
import WorkflowAudit.Proofs.Workflow.RecoveryLaws
import WorkflowAudit.Yaml.Read

/-! Malformed neighbours. A key with what is nested under it is recovered whatever stands around it,
as long as the line after it starts another block. Any other line is read as part of it. -/

namespace WorkflowAudit.Workflow

open Yaml (Value Mapping)

/-- What is asked of the line after a block of a given indentation. -/
abbrev Boundary := Nat → List Char → Prop

structure NestedIn (ends : Boundary) (indent : Nat) (lines before : List (List Char)) (b : Block)
    (after : List (List Char)) : Prop where
  lines_eq : lines = before ++ b.lines ++ after
  first : startsBlock indent b.first
  rest : ∀ line ∈ b.rest, Text.trimStart line = [] ∨ indent < Text.indentation line
  after : ∀ line ∈ after.head?, ends indent line

/-- A key that can be read on its own together with what is nested under it is recovered with its
value, whatever stands before and after, unless another block brings the same key. -/
def KeepsNested (ends : Boundary) : Prop :=
  ∀ (read : Reader) (text : List Char) (before after : List (List Char)) (b : Block)
    (key value : Value),
    (NestedIn ends 0 (Text.lines text) before b after →
      read (String.ofList b.text) = .ok (.mapping [(key, value)]) →
      (∀ r ∈ sectionParts read before ++ sectionParts read after,
        (recoverSection read b).Apart r) →
      (recoverSections read text).entries.find? (·.1.same key) = some (key, value)) ∧
    ∀ indent, NestedIn ends indent (sectionBody text) before b after →
      (∀ line ∈ (sectionBody text).find? isContentLine, Text.indentation line = indent) →
      read (String.ofList (dedentedText indent b)) = .ok (.mapping [(key, value)]) →
      (∀ r ∈ jobParts read indent before ++ jobParts read indent after,
        (recoverJob read indent b).Apart r) →
      (recoverJobs read text).entries.find? (·.1.same key) = some (key, value)

section Nested

variable {ends ends' : Boundary} {read : Reader} {indent : Nat} {line : List Char}
  {lines before after : List (List Char)} {b : Block} {key value : Value}

theorem NestedIn.mono (hends : ∀ indent line, ends indent line → ends' indent line)
    (h : NestedIn ends indent lines before b after) :
    NestedIn ends' indent lines before b after :=
  { h with after := fun line hline => hends indent line (h.after line hline) }

theorem KeepsNested.mono (hends : ∀ indent line, ends indent line → ends' indent line)
    (h : KeepsNested ends') : KeepsNested ends := by
  intro read text before after b key value
  obtain ⟨hsections, hjobs⟩ := h read text before after b key value
  exact ⟨fun hb => hsections (hb.mono hends), fun indent hb => hjobs indent (hb.mono hends)⟩

theorem startsBlock_eq_false_of_blank (h : Text.trimStart line = []) :
    startsBlock indent line = false := by
  simp [startsBlock, isContentLine, h]

theorem startsBlock_eq_false_of_deeper (h : indent < Text.indentation line) :
    startsBlock indent line = false := by
  simp [startsBlock, Nat.ne_of_gt h]

theorem NestedIn.blockIn
    (h : NestedIn (fun indent line => startsBlock indent line) indent lines before b after) :
    BlockIn indent lines before b after where
  lines_eq := h.lines_eq
  first := h.first
  rest line hline := (h.rest line hline).elim startsBlock_eq_false_of_blank
    startsBlock_eq_false_of_deeper
  after := h.after

theorem Recovered.find?_join_self {x : Recovered} {earlier later : List Recovered}
    (hx : x.entries = [(key, value)]) (h : ∀ r ∈ earlier ++ later, x.Apart r) :
    (join (earlier ++ x :: later)).entries.find? (·.1.same key) = some (key, value) := by
  have hmem : (key, value) ∈ x.entries := by simp [hx]
  have hearlier : (Mapping.insertAll [] (earlier.flatMap (·.entries))).hasKey key = false := by
    rw [← entries_join]
    exact hasKey_join_of_apart hmem fun r hr => h r (List.mem_append_left _ hr)
  have hlater : ∀ e ∈ later.flatMap (·.entries), key.same e.1 = false := by
    intro e he
    obtain ⟨r, hr, he⟩ := List.mem_flatMap.mp he
    exact (h r (List.mem_append_right _ hr) (key, value) hmem e he).1
  have hentries : (join (earlier ++ x :: later)).entries =
      Mapping.insertAll (Mapping.insert key value
        (Mapping.insertAll [] (earlier.flatMap (·.entries)))) (later.flatMap (·.entries)) := by
    rw [entries_join, List.flatMap_append, List.flatMap_cons, hx]
    simp [Mapping.insertAll]
  rw [hentries]
  exact Mapping.find?_insertAll_of_found (Mapping.find?_insert_self hearlier) hlater

theorem entries_recoverSection {m : Mapping} (h : read (String.ofList b.text) = .ok (.mapping m)) :
    (recoverSection read b).entries = m := by
  rw [recoverSection, h]

theorem entries_recoverJob {m : Mapping}
    (h : read (String.ofList (dedentedText indent b)) = .ok (.mapping m)) :
    (recoverJob read indent b).entries = m := by
  rw [recoverJob, h]

theorem dedent_eq_drop (hblank : ∀ c ∈ line.takeWhile Text.isBlank, c.utf8Size = 1)
    (hline : Text.trimStart line = [] ∨ indent ≤ Text.indentation line) :
    dedent indent line = line.drop indent := by
  rw [Text.indentation, Text.byteCount_eq_length hblank] at hline
  by_cases hlong : indent ≤ (line.takeWhile Text.isBlank).length
  · have hdrop : Text.dropBytes? indent line = some (line.drop indent) := by
      rw [← List.takeWhile_append_dropWhile (p := Text.isBlank) (l := line)]
      exact Text.dropBytes?_append hblank hlong
    rw [dedent, hdrop, Option.getD_some]
  · have htrim : Text.trimStart line = [] := hline.resolve_right hlong
    have hall : line.takeWhile Text.isBlank = line := by
      have happend := List.takeWhile_append_dropWhile (p := Text.isBlank) (l := line)
      rwa [← Text.trimStart, htrim, List.append_nil] at happend
    rw [hall] at hblank hlong
    have hshort : Text.dropBytes? indent line = none :=
      Text.dropBytes?_eq_none (Text.byteCount_eq_length hblank ▸ Nat.lt_of_not_le hlong)
    rw [dedent, hshort, Option.getD_none, htrim, List.drop_eq_nil_of_le (Nat.le_of_not_le hlong)]

end Nested

/-- A well-formed section, or job of a malformed jobs section, is recovered next to any malformed
one. -/
theorem recovery_keepsNested :
    KeepsNested (fun indent line => startsBlock indent line) ∧
    ∀ (indent : Nat) (line : List Char),
      (∀ c ∈ line.takeWhile Text.isBlank, c.utf8Size = 1) →
      (Text.trimStart line = [] ∨ indent ≤ Text.indentation line) →
      dedent indent line = line.drop indent := by
  refine ⟨fun read text before after b key value => ⟨?sections, ?jobs⟩,
    fun indent line => dedent_eq_drop⟩
  case sections =>
    intro hb hread hapart
    rw [recoverSections_eq hb.blockIn]
    exact Recovered.find?_join_self (entries_recoverSection hread) hapart
  case jobs =>
    intro indent hb hindent hread hapart
    have hbefore : ∀ line ∈ before.find? isContentLine, Text.indentation line = indent := by
      intro line hline
      refine hindent line ?_
      rw [hb.lines_eq, List.append_assoc, List.find?_append, hline]
      rfl
    rw [recoverJobs_eq hb.blockIn hbefore]
    exact Recovered.find?_join_self (entries_recoverJob hread) hapart

theorem recovery_keepsNested_sampleReader :
    (recoverSections sampleReader "- x\nname: CI\non: [\n".toList).entries.find?
      (·.1.same (.string "name")) = some (.string "name", .string "CI") ∧
    (recoverJobs sampleReader "jobs:\n  d\n  a:\n    uses: b\n  c: [\n".toList).entries.find?
      (·.1.same (.string "a")) =
        some (.string "a", .mapping [(.string "uses", .string "b")]) ∧
    dedent 2 "    uses: b".toList = "  uses: b".toList := by
  have hapart : ∀ (i : Issue) (a : Recovered), a.Apart (.ofIssue i) := by
    intro i a e he e' he'
    cases he'
  have hsections : sectionParts sampleReader ["- x".toList] ++
      sectionParts sampleReader ["on: [".toList] = [.ofIssue (.sectionSkipped "on")] := rfl
  have hjobs : jobParts sampleReader 2 ["  d".toList] ++
      jobParts sampleReader 2 ["  c: [".toList] = [.ofIssue (.jobSkipped "c")] := by cbv
  obtain ⟨hkeeps, hdedent⟩ := recovery_keepsNested
  have hname := (hkeeps sampleReader "- x\nname: CI\non: [\n".toList ["- x".toList]
    ["on: [".toList] ⟨"name: CI".toList, []⟩ (.string "name") (.string "CI")).1
    ⟨by decide, by decide, by simp, by decide⟩ rfl
    (by simpa only [hsections, List.mem_singleton, forall_eq] using hapart _ _)
  have hjob := (hkeeps sampleReader "jobs:\n  d\n  a:\n    uses: b\n  c: [\n".toList
    ["  d".toList] ["  c: [".toList] ⟨"  a:".toList, ["    uses: b".toList]⟩ (.string "a")
    (.mapping [(.string "uses", .string "b")])).2 2
    ⟨by decide, by decide, by decide, by decide⟩ (by decide) (by cbv)
    (by simpa only [hjobs, List.mem_singleton, forall_eq] using hapart _ _)
  have hblank : "    uses: b".toList.takeWhile Text.isBlank = List.replicate 4 ' ' := rfl
  have hcolumns : ∀ c ∈ "    uses: b".toList.takeWhile Text.isBlank, c.utf8Size = 1 := by
    intro c hc
    rw [hblank, List.mem_replicate] at hc
    rw [hc.2]
    rfl
  exact ⟨hname, hjob, hdedent 2 "    uses: b".toList hcolumns (.inr (by decide))⟩

/-- A list item at the indentation of a key belongs to the value of the key. -/
theorem not_keepsNested_listItem :
    ¬KeepsNested fun indent line =>
      isContentLine line ∧ Text.indentation line = indent ∧ line.contains ':' := by
  intro h
  have hafter : sectionParts Yaml.read [] ++
      sectionParts Yaml.read ["- push # main: only".toList, "name: [".toList] =
        [.ofIssue (.sectionSkipped "name")] := by cbv
  have hfound := (h Yaml.read "on:\n- push # main: only\nname: [\n".toList []
    ["- push # main: only".toList, "name: [".toList] ⟨"on:".toList, []⟩ (.string "on") .null).1
    ⟨by decide, by decide, by simp, by decide⟩ rfl
    (by
      rw [hafter]
      simp [Recovered.Apart, Recovered.ofIssue])
  have hpush : (recoverSections Yaml.read
      "on:\n- push # main: only\nname: [\n".toList).entries.find? (·.1.same (.string "on")) =
        some (.string "on", .sequence [.string "push"]) := by cbv
  rw [hpush] at hfound
  cases hfound

theorem not_keepsNested_colonless :
    ¬KeepsNested fun indent line =>
      isContentLine line ∧ Text.indentation line = indent ∧
        (Text.trimStart line).head? ≠ some '-' := by
  intro h
  have hafter : sectionParts Yaml.read [] ++ sectionParts Yaml.read ["jobs".toList] = [] := rfl
  have hfound := (h Yaml.read "on: push\njobs\n".toList [] ["jobs".toList]
    ⟨"on: push".toList, []⟩ (.string "on") (.string "push")).1
    ⟨by decide, by decide, by simp, by decide⟩ (by cbv)
    (by
      rw [hafter]
      simp)
  have hlost : (recoverSections Yaml.read "on: push\njobs\n".toList).entries = [] := by cbv
  rw [hlost] at hfound
  cases hfound

theorem not_keepsNested_shallower :
    ¬KeepsNested fun indent line =>
      isContentLine line ∧ Text.indentation line ≤ indent ∧
        (Text.trimStart line).head? ≠ some '-' ∧ line.contains ':' := by
  intro h
  have hafter : jobParts Yaml.read 4 [] ++ jobParts Yaml.read 4 ["  c: [".toList] = [] := rfl
  have hfound := (h Yaml.read "jobs:\n    a:\n        uses: b\n  c: [\n".toList []
    ["  c: [".toList] ⟨"    a:".toList, ["        uses: b".toList]⟩ (.string "a")
    (.mapping [(.string "uses", .string "b")])).2 4
    ⟨by decide, by decide, by decide, by decide⟩ (by decide) (by cbv)
    (by
      rw [hafter]
      simp)
  have hlost : (recoverJobs Yaml.read
      "jobs:\n    a:\n        uses: b\n  c: [\n".toList).entries = [] := by cbv
  rw [hlost] at hfound
  cases hfound

theorem not_keepsNested_content :
    ¬KeepsNested fun indent line => isContentLine line ∧ Text.indentation line ≤ indent :=
  fun h => not_keepsNested_listItem (h.mono fun _ _ hline => ⟨hline.1, hline.2.1.le⟩)

end WorkflowAudit.Workflow
