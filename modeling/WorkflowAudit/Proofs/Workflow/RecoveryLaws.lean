import WorkflowAudit.Proofs.Yaml.MappingLaws
import WorkflowAudit.Workflow.Parse

/-! Recovery block by block. Another version of one block makes no difference to what is recovered
from the others, as long as it shares no key with them. -/

namespace WorkflowAudit.Workflow

open Yaml (Value Mapping)

section Blocks

variable {indent : Nat} {lines before after : List (List Char)} {b : Block}

/-- Lines with a block among them. No line of the block but its first starts a block, and what
follows it is another block or nothing. -/
structure BlockIn (indent : Nat) (lines before : List (List Char)) (b : Block)
    (after : List (List Char)) : Prop where
  lines_eq : lines = before ++ b.lines ++ after
  first : startsBlock indent b.first
  rest : ∀ line ∈ b.rest, startsBlock indent line = false
  after : ∀ line ∈ after.head?, startsBlock indent line

theorem takeWhile_append_of_head (h : ∀ line ∈ after.head?, startsBlock indent line) :
    (lines ++ after).takeWhile (!startsBlock indent ·) =
      lines.takeWhile (!startsBlock indent ·) := by
  induction lines with
  | nil =>
    cases after with
    | nil => rfl
    | cons line after => simp [h line rfl]
  | cons line lines ih =>
    simp only [List.cons_append, List.takeWhile_cons, ih]

theorem blocks_append (h : ∀ line ∈ after.head?, startsBlock indent line) :
    blocks indent (lines ++ after) = blocks indent lines ++ blocks indent after := by
  induction lines with
  | nil => rfl
  | cons line lines ih =>
    simp only [List.cons_append, blocks, takeWhile_append_of_head h, ih]
    split <;> rfl

theorem takeWhile_eq_self (h : ∀ line ∈ lines, startsBlock indent line = false) :
    lines.takeWhile (!startsBlock indent ·) = lines := by
  induction lines with
  | nil => rfl
  | cons line lines ih =>
    obtain ⟨hline, hlines⟩ := List.forall_mem_cons.mp h
    simp [hline, ih hlines]

theorem blocks_eq_nil (h : ∀ line ∈ lines, startsBlock indent line = false) :
    blocks indent lines = [] := by
  induction lines with
  | nil => rfl
  | cons line lines ih =>
    obtain ⟨hline, hlines⟩ := List.forall_mem_cons.mp h
    simp [blocks, hline, ih hlines]

theorem blocks_lines (hfirst : startsBlock indent b.first)
    (hrest : ∀ line ∈ b.rest, startsBlock indent line = false) : blocks indent b.lines = [b] := by
  simp only [Block.lines, blocks, hfirst, if_true, takeWhile_eq_self hrest, blocks_eq_nil hrest]

theorem BlockIn.blocks_eq (h : BlockIn indent lines before b after) :
    blocks indent lines = blocks indent before ++ b :: blocks indent after := by
  have hhead : ∀ line ∈ (b.lines ++ after).head?, startsBlock indent line := by
    intro line hline
    obtain rfl : b.first = line := Option.some.inj hline
    exact h.first
  rw [h.lines_eq, List.append_assoc, blocks_append hhead, blocks_append h.after,
    blocks_lines h.first h.rest, List.singleton_append]

end Blocks

namespace Recovered

variable {a x whole : Recovered} {earlier later l : List Recovered}

def Produces (r : Recovered) (key : Value) : Prop := ∃ e ∈ r.entries, e.1 = key

def Apart (a b : Recovered) : Prop :=
  ∀ e ∈ a.entries, ∀ e' ∈ b.entries, e.1.same e'.1 = false ∧ e'.1.same e.1 = false

/-- What was recovered before and after a part stands in the whole as it would without that part. -/
structure Keeps (whole x : Recovered) (earlier later : List Recovered) : Prop where
  entries_filter :
    whole.entries.filter (fun e => (join (earlier ++ later)).entries.hasKey e.1) =
      (join (earlier ++ later)).entries
  issues_eq : whole.issues =
    earlier.flatMap (·.issues) ++ x.issues ++ later.flatMap (·.issues)

theorem foldl_append (l : List Recovered) :
    l.foldl append a = ⟨Mapping.insertAll a.entries (l.flatMap (·.entries)),
      a.issues ++ l.flatMap (·.issues)⟩ := by
  induction l generalizing a with
  | nil => simp [Mapping.insertAll]
  | cons r l ih =>
    rw [List.foldl_cons, ih]
    simp [append, Mapping.insertAll, List.foldl_append]

theorem entries_join (l : List Recovered) :
    (join l).entries = Mapping.insertAll [] (l.flatMap (·.entries)) := by
  rw [join, foldl_append]
  rfl

theorem issues_join (l : List Recovered) : (join l).issues = l.flatMap (·.issues) := by
  rw [join, foldl_append]
  rfl

theorem mem_flatMap_insert {e : Value × Value}
    (h : e ∈ (earlier ++ x :: later).flatMap (·.entries)) :
    e ∈ x.entries ∨ e ∈ (earlier ++ later).flatMap (·.entries) := by
  simp only [List.flatMap_append, List.flatMap_cons, List.mem_append] at h ⊢
  exact or_left_comm.mp h

theorem hasKey_join {e : Value × Value} (h : e ∈ l.flatMap (·.entries)) :
    (join l).entries.hasKey e.1 := by
  rw [entries_join]
  exact Mapping.hasKey_insertAll_of_mem h

theorem hasKey_join_of_apart {e : Value × Value} (he : e ∈ x.entries) (h : ∀ r ∈ l, x.Apart r) :
    (join l).entries.hasKey e.1 = false := by
  rw [Mapping.hasKey, List.any_eq_false, entries_join]
  intro k hk
  rcases Mapping.key_of_mem_insertAll hk with ⟨_, hnil, _⟩ | ⟨e', he', heq⟩
  · cases hnil
  · obtain ⟨r, hr, he'⟩ := List.mem_flatMap.mp he'
    change ¬k.1.same e.1
    rw [← heq, (h r hr e he e' he').2]
    exact Bool.false_ne_true

theorem keeps_join (h : ∀ r ∈ earlier ++ later, x.Apart r) :
    (join (earlier ++ x :: later)).Keeps x earlier later where
  issues_eq := by
    rw [issues_join]
    simp
  entries_filter := by
    have hother : ∀ e ∈ (earlier ++ later).flatMap (·.entries),
        (join (earlier ++ later)).entries.hasKey e.1 = true := fun e he => hasKey_join he
    have hown : ∀ e ∈ x.entries, (join (earlier ++ later)).entries.hasKey e.1 = false :=
      fun e he => hasKey_join_of_apart he h
    have hsame : ∀ a ∈ [] ++ (earlier ++ x :: later).flatMap (·.entries),
        ∀ b ∈ [] ++ (earlier ++ x :: later).flatMap (·.entries), a.1.same b.1 →
        (join (earlier ++ later)).entries.hasKey a.1 =
          (join (earlier ++ later)).entries.hasKey b.1 := by
      intro a ha b hb hab
      rw [List.nil_append] at ha hb
      rcases mem_flatMap_insert ha with ha | ha
      · rcases mem_flatMap_insert hb with hb | hb
        · rw [hown a ha, hown b hb]
        · obtain ⟨r, hr, hb⟩ := List.mem_flatMap.mp hb
          rw [(h r hr a ha b hb).1] at hab
          cases hab
      · rcases mem_flatMap_insert hb with hb | hb
        · obtain ⟨r, hr, ha⟩ := List.mem_flatMap.mp ha
          rw [(h r hr b hb a ha).2] at hab
          cases hab
        · rw [hother a ha, hother b hb]
    have hfilter : ((earlier ++ x :: later).flatMap (·.entries)).filter
          (fun e => (join (earlier ++ later)).entries.hasKey e.1) =
        (earlier ++ later).flatMap (·.entries) := by
      have hx : x.entries.filter (fun e => (join (earlier ++ later)).entries.hasKey e.1) = [] :=
        List.filter_eq_nil_iff.mpr fun e he => by simp [hown e he]
      have hself := List.filter_eq_self.mpr hother
      rw [List.flatMap_append, List.filter_append] at hself
      rw [List.flatMap_append, List.flatMap_cons, List.filter_append, List.filter_append, hx,
        List.nil_append, hself, List.flatMap_append]
    calc
      _ = (Mapping.insertAll [] ((earlier ++ x :: later).flatMap (·.entries))).filter
          (fun e => (join (earlier ++ later)).entries.hasKey e.1) := by
        rw [entries_join (earlier ++ x :: later)]
      _ = Mapping.insertAll [] ((earlier ++ later).flatMap (·.entries)) := by
        rw [Mapping.filter_insertAll hsame, hfilter, List.filter_nil]
      _ = (join (earlier ++ later)).entries := (entries_join _).symm

theorem find?_join {Q : Value → Bool} (h : ∀ r ∈ earlier ++ later, x.Apart r)
    (hx : ∀ e ∈ x.entries, Q e.1 = false) :
    (join (earlier ++ x :: later)).entries.find? (Q ·.1) =
      (join (earlier ++ later)).entries.find? (Q ·.1) := by
  rw [← (keeps_join h).entries_filter, ← List.head?_filter, ← List.head?_filter,
    List.filter_filter]
  congr 1
  refine List.filter_congr fun e he => ?_
  rw [Bool.eq_iff_iff, Bool.and_eq_true, iff_self_and]
  intro hQ
  rw [entries_join] at he
  rcases Mapping.key_of_mem_insertAll he with ⟨_, hnil, _⟩ | ⟨e', he', heq⟩
  · cases hnil
  · rw [← heq]
    rcases mem_flatMap_insert he' with he' | he'
    · rw [← heq, hx e' he'] at hQ
      cases hQ
    · exact hasKey_join he'

end Recovered

def isNamed (name : String) : Value → Bool
  | .string s => s = name
  | _ => false

def isTriggerKey : Value → Bool
  | .string s => s = "on"
  | .bool b => b
  | _ => false

theorem isNamed_iff {name : String} {key : Value} : isNamed name key ↔ key = .string name := by
  cases key <;> simp [isNamed]

theorem isTriggerKey_iff {key : Value} :
    isTriggerKey key ↔ key = .string "on" ∨ key = .bool true := by
  cases key <;> simp [isTriggerKey]

theorem lookup?_eq_find? (name : String) (m : Mapping) :
    Value.lookup? name m = (m.find? (isNamed name ·.1)).map (·.2) := by
  induction m with
  | nil => rfl
  | cons e rest ih =>
    obtain ⟨k, v⟩ := e
    cases k with
    | string s =>
      by_cases hs : s = name <;> simp [Value.lookup?, isNamed, hs, ih]
    | null | bool | number | sequence | mapping | tagged => exact ih

theorem triggerSection?_eq_find? (m : Mapping) :
    triggerSection? m = (m.find? (isTriggerKey ·.1)).map (·.2) := by
  induction m with
  | nil => rfl
  | cons e rest ih =>
    obtain ⟨k, v⟩ := e
    cases k with
    | string s =>
      by_cases hs : s = "on"
      · simp [triggerSection?, isTriggerKey, hs]
      · simp [triggerSection?, isTriggerKey, hs, ih]
    | bool b => cases b <;> simp [triggerSection?, isTriggerKey, ih]
    | null | number | sequence | mapping | tagged => exact ih

def sectionParts (read : Reader) (lines : List (List Char)) : List Recovered :=
  (blocks 0 lines).map (recoverSection read)

def jobParts (read : Reader) (indent : Nat) (lines : List (List Char)) : List Recovered :=
  (blocks indent lines).map (recoverJob read indent)

section Levels

variable {read : Reader} {indent : Nat} {before after : List (List Char)} {b : Block}

theorem recoverSections_eq {text : List Char} (h : BlockIn 0 (Text.lines text) before b after) :
    recoverSections read text = .join
      (sectionParts read before ++ recoverSection read b :: sectionParts read after) := by
  rw [recoverSections, h.blocks_eq, List.map_append, List.map_cons]
  rfl

theorem indentation_of_startsBlock {line : List Char} (h : startsBlock indent line) :
    isContentLine line ∧ Text.indentation line = indent := by
  simp only [startsBlock, Bool.and_eq_true, decide_eq_true_eq] at h
  exact h.1.1

theorem recoverJobs_eq {text : List Char}
    (h : BlockIn indent (sectionBody text) before b after)
    (hindent : ∀ line ∈ before.find? isContentLine, Text.indentation line = indent) :
    recoverJobs read text = .join
      (jobParts read indent before ++ recoverJob read indent b :: jobParts read indent after) := by
  obtain ⟨hcontent, hfirst⟩ := indentation_of_startsBlock h.first
  obtain ⟨line, hline, heq⟩ : ∃ line, (sectionBody text).find? isContentLine = some line ∧
      Text.indentation line = indent := by
    rw [h.lines_eq, List.append_assoc, List.find?_append]
    cases hbefore : before.find? isContentLine with
    | some line => exact ⟨line, rfl, hindent line hbefore⟩
    | none => exact ⟨b.first, by simp [Block.lines, hcontent], hfirst⟩
  simp only [recoverJobs, hline, heq]
  rw [h.blocks_eq, List.map_append, List.map_cons]
  rfl

end Levels

theorem isNamed_eq_false {r : Recovered} {name : String} (h : ¬r.Produces (.string name)) :
    ∀ key, r.Produces key → isNamed name key = false := by
  intro key hkey
  rw [Bool.eq_false_iff]
  intro hnamed
  obtain rfl := isNamed_iff.mp hnamed
  exact h hkey

theorem isTriggerKey_eq_false {r : Recovered} (hon : ¬r.Produces (.string "on"))
    (htrue : ¬r.Produces (.bool true)) : ∀ key, r.Produces key → isTriggerKey key = false := by
  intro key hkey
  rw [Bool.eq_false_iff]
  intro htrigger
  obtain rfl | rfl := isTriggerKey_iff.mp htrigger
  · exact hon hkey
  · exact htrue hkey

section Documents

variable {read : Reader} {text₁ text₂ : String} {before after : List (List Char)} {b₁ b₂ : Block}

section Versions

variable (h₁ : BlockIn 0 (Text.lines text₁.toList) before b₁ after)
  (h₂ : BlockIn 0 (Text.lines text₂.toList) before b₂ after)
  (hapart₁ : ∀ r ∈ sectionParts read before ++ sectionParts read after,
    (recoverSection read b₁).Apart r)
  (hapart₂ : ∀ r ∈ sectionParts read before ++ sectionParts read after,
    (recoverSection read b₂).Apart r)

include h₁ h₂ hapart₁ hapart₂

theorem find?_recoverSections {Q : Value → Bool}
    (hQ₁ : ∀ key, (recoverSection read b₁).Produces key → Q key = false)
    (hQ₂ : ∀ key, (recoverSection read b₂).Produces key → Q key = false) :
    (recoverSections read text₁.toList).entries.find? (Q ·.1) =
      (recoverSections read text₂.toList).entries.find? (Q ·.1) := by
  rw [recoverSections_eq h₁, recoverSections_eq h₂,
    Recovered.find?_join hapart₁ fun e he => hQ₁ e.1 ⟨e, he, rfl⟩,
    Recovered.find?_join hapart₂ fun e he => hQ₂ e.1 ⟨e, he, rfl⟩]

theorem lookup?_recoverSections {name : String}
    (hname₁ : ¬(recoverSection read b₁).Produces (.string name))
    (hname₂ : ¬(recoverSection read b₂).Produces (.string name)) :
    Value.lookup? name (recoverSections read text₁.toList).entries =
      Value.lookup? name (recoverSections read text₂.toList).entries := by
  rw [lookup?_eq_find?, lookup?_eq_find?, find?_recoverSections h₁ h₂ hapart₁ hapart₂
    (isNamed_eq_false hname₁) (isNamed_eq_false hname₂)]

theorem triggerSection?_recoverSections
    (hon₁ : ¬(recoverSection read b₁).Produces (.string "on"))
    (hon₂ : ¬(recoverSection read b₂).Produces (.string "on"))
    (htrue₁ : ¬(recoverSection read b₁).Produces (.bool true))
    (htrue₂ : ¬(recoverSection read b₂).Produces (.bool true)) :
    triggerSection? (recoverSections read text₁.toList).entries =
      triggerSection? (recoverSections read text₂.toList).entries := by
  rw [triggerSection?_eq_find?, triggerSection?_eq_find?, find?_recoverSections h₁ h₂ hapart₁
    hapart₂ (isTriggerKey_eq_false hon₁ htrue₁) (isTriggerKey_eq_false hon₂ htrue₂)]

end Versions

section OfYaml

variable (earlier : List Issue) (m : Mapping)

theorem name_ofYaml_mapping :
    (Document.ofYaml earlier (.mapping m)).name = (Value.lookup? "name" m).bind Value.scalar? := rfl

theorem triggers_ofYaml_mapping : (Document.ofYaml earlier (.mapping m)).triggers =
    ((triggerSection? m).map Trigger.listOfYaml).getD [] := rfl

theorem concurrency_ofYaml_mapping : (Document.ofYaml earlier (.mapping m)).concurrency =
    (Value.lookup? "concurrency" m).bind Concurrency.ofYaml? := rfl

theorem jobs_ofYaml_mapping :
    (Document.ofYaml earlier (.mapping m)).jobs = (jobsOfYaml (Value.lookup? "jobs" m)).1 := rfl

end OfYaml

theorem parseWith_of_error {e : Yaml.Error} {text : String} (h : read text = .error e) :
    Document.parseWith read text = .ofYaml
      (.unreadable :: (recoverSections read text.toList).issues)
      (.mapping (recoverSections read text.toList).entries) := by
  rw [Document.parseWith, h]

theorem prefix_diagnostics {e : Yaml.Error} {text : String} (h : read text = .error e) :
    (Issue.unreadable :: (recoverSections read text.toList).issues).map Issue.message <+:
      (Document.parseWith read text).diagnostics := by
  rw [parseWith_of_error h]
  change _ <+: (_ ++ _ : List Issue).map Issue.message
  rw [List.map_append]
  exact List.prefix_append ..

end Documents

/-- Another version of a section, or of a job in a malformed jobs section, leaves what is recovered
from the others as it is. What a document takes from a key that neither version produces does not
change either. -/
theorem recovery_isolates (read : Reader) :
    (∀ (text₁ text₂ : String) (before after : List (List Char)) (b₁ b₂ : Block)
      (e₁ e₂ : Yaml.Error), read text₁ = .error e₁ → read text₂ = .error e₂ →
      BlockIn 0 (Text.lines text₁.toList) before b₁ after →
      BlockIn 0 (Text.lines text₂.toList) before b₂ after →
      (∀ r ∈ sectionParts read before ++ sectionParts read after,
        (recoverSection read b₁).Apart r ∧ (recoverSection read b₂).Apart r) →
      (recoverSections read text₁.toList).Keeps (recoverSection read b₁)
        (sectionParts read before) (sectionParts read after) ∧
      (recoverSections read text₂.toList).Keeps (recoverSection read b₂)
        (sectionParts read before) (sectionParts read after) ∧
      (Issue.unreadable :: (recoverSections read text₁.toList).issues).map Issue.message <+:
        (Document.parseWith read text₁).diagnostics ∧
      (Issue.unreadable :: (recoverSections read text₂.toList).issues).map Issue.message <+:
        (Document.parseWith read text₂).diagnostics ∧
      (¬(recoverSection read b₁).Produces (.string "name") →
        ¬(recoverSection read b₂).Produces (.string "name") →
        (Document.parseWith read text₁).name = (Document.parseWith read text₂).name) ∧
      (¬(recoverSection read b₁).Produces (.string "on") →
        ¬(recoverSection read b₂).Produces (.string "on") →
        ¬(recoverSection read b₁).Produces (.bool true) →
        ¬(recoverSection read b₂).Produces (.bool true) →
        (Document.parseWith read text₁).triggers = (Document.parseWith read text₂).triggers) ∧
      (¬(recoverSection read b₁).Produces (.string "concurrency") →
        ¬(recoverSection read b₂).Produces (.string "concurrency") →
        (Document.parseWith read text₁).concurrency =
          (Document.parseWith read text₂).concurrency) ∧
      (¬(recoverSection read b₁).Produces (.string "jobs") →
        ¬(recoverSection read b₂).Produces (.string "jobs") →
        (Document.parseWith read text₁).jobs = (Document.parseWith read text₂).jobs)) ∧
    ∀ (text₁ text₂ : List Char) (indent : Nat) (before after : List (List Char)) (b₁ b₂ : Block),
      BlockIn indent (sectionBody text₁) before b₁ after →
      BlockIn indent (sectionBody text₂) before b₂ after →
      (∀ line ∈ before.find? isContentLine, Text.indentation line = indent) →
      (∀ r ∈ jobParts read indent before ++ jobParts read indent after,
        (recoverJob read indent b₁).Apart r ∧ (recoverJob read indent b₂).Apart r) →
      (recoverJobs read text₁).Keeps (recoverJob read indent b₁)
        (jobParts read indent before) (jobParts read indent after) ∧
      (recoverJobs read text₂).Keeps (recoverJob read indent b₂)
        (jobParts read indent before) (jobParts read indent after) := by
  constructor
  · intro text₁ text₂ before after b₁ b₂ e₁ e₂ hread₁ hread₂ h₁ h₂ hapart
    have hapart₁ := fun r hr => (hapart r hr).1
    have hapart₂ := fun r hr => (hapart r hr).2
    refine ⟨?_, ?_, prefix_diagnostics hread₁, prefix_diagnostics hread₂, ?_, ?_, ?_, ?_⟩
    · rw [recoverSections_eq h₁]
      exact Recovered.keeps_join hapart₁
    · rw [recoverSections_eq h₂]
      exact Recovered.keeps_join hapart₂
    · intro hname₁ hname₂
      rw [parseWith_of_error hread₁, parseWith_of_error hread₂, name_ofYaml_mapping,
        name_ofYaml_mapping, lookup?_recoverSections h₁ h₂ hapart₁ hapart₂ hname₁ hname₂]
    · intro hon₁ hon₂ htrue₁ htrue₂
      rw [parseWith_of_error hread₁, parseWith_of_error hread₂, triggers_ofYaml_mapping,
        triggers_ofYaml_mapping,
        triggerSection?_recoverSections h₁ h₂ hapart₁ hapart₂ hon₁ hon₂ htrue₁ htrue₂]
    · intro hname₁ hname₂
      rw [parseWith_of_error hread₁, parseWith_of_error hread₂, concurrency_ofYaml_mapping,
        concurrency_ofYaml_mapping, lookup?_recoverSections h₁ h₂ hapart₁ hapart₂ hname₁ hname₂]
    · intro hname₁ hname₂
      rw [parseWith_of_error hread₁, parseWith_of_error hread₂, jobs_ofYaml_mapping,
        jobs_ofYaml_mapping, lookup?_recoverSections h₁ h₂ hapart₁ hapart₂ hname₁ hname₂]
  · intro text₁ text₂ indent before after b₁ b₂ h₁ h₂ hindent hapart
    constructor
    · rw [recoverJobs_eq h₁ hindent]
      exact Recovered.keeps_join fun r hr => (hapart r hr).1
    · rw [recoverJobs_eq h₂ hindent]
      exact Recovered.keeps_join fun r hr => (hapart r hr).2

def sampleReader : Reader := fun s =>
  if s = "name: CI\n" then .ok (.mapping [(.string "name", .string "CI")])
  else if s = "a:\n  uses: b\n" then
    .ok (.mapping [(.string "a", .mapping [(.string "uses", .string "b")])])
  else .error .unexpectedEnd

theorem recovery_isolates_sampleReader :
    (Document.parseWith sampleReader "name: CI\non: [push\n").name =
      (Document.parseWith sampleReader "name: CI\non: \x7bpush\n").name ∧
    (recoverJobs sampleReader "jobs:\n  a:\n    uses: b\n  c: [\n".toList).Keeps
      (.ofIssue (.jobSkipped "c"))
      (jobParts sampleReader 2 ["  a:".toList, "    uses: b".toList])
      (jobParts sampleReader 2 []) := by
  have hsection₁ : recoverSection sampleReader ⟨"on: [push".toList, []⟩ =
      .ofIssue (.sectionSkipped "on") := rfl
  have hsection₂ : recoverSection sampleReader ⟨"on: \x7bpush".toList, []⟩ =
      .ofIssue (.sectionSkipped "on") := rfl
  have hjob₁ : recoverJob sampleReader 2 ⟨"  c: [".toList, []⟩ = .ofIssue (.jobSkipped "c") := by
    cbv
  have hjob₂ : recoverJob sampleReader 2 ⟨"  c: \x7b".toList, []⟩ =
      .ofIssue (.jobSkipped "c") := by cbv
  have hapart : ∀ (i : Issue) (r : Recovered), (Recovered.ofIssue i).Apart r := by
    intro i r e he
    cases he
  have hproduces : ∀ (i : Issue) (key : Value), ¬(Recovered.ofIssue i).Produces key := by
    rintro i key ⟨e, he, _⟩
    cases he
  obtain ⟨hsections, hjobs⟩ := recovery_isolates sampleReader
  have hdocuments := hsections "name: CI\non: [push\n" "name: CI\non: \x7bpush\n"
    ["name: CI".toList] [] ⟨"on: [push".toList, []⟩ ⟨"on: \x7bpush".toList, []⟩ .unexpectedEnd
    .unexpectedEnd rfl rfl ⟨by decide, by decide, by simp, by simp⟩
    ⟨by decide, by decide, by simp, by simp⟩
    (fun r _ => ⟨hsection₁ ▸ hapart _ r, hsection₂ ▸ hapart _ r⟩)
  have hmappings := hjobs "jobs:\n  a:\n    uses: b\n  c: [\n".toList
    "jobs:\n  a:\n    uses: b\n  c: \x7b\n".toList 2 ["  a:".toList, "    uses: b".toList] []
    ⟨"  c: [".toList, []⟩ ⟨"  c: \x7b".toList, []⟩ ⟨by decide, by decide, by simp, by simp⟩
    ⟨by decide, by decide, by simp, by simp⟩ (by decide)
    (fun r _ => ⟨hjob₁ ▸ hapart _ r, hjob₂ ▸ hapart _ r⟩)
  obtain ⟨_, _, _, _, hname, _⟩ := hdocuments
  exact ⟨hname (hsection₁ ▸ hproduces _ _) (hsection₂ ▸ hproduces _ _), hjob₁ ▸ hmappings.1⟩

end WorkflowAudit.Workflow
