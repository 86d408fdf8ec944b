import WorkflowAudit.Proofs.Lint.MatrixLaws
import WorkflowAudit.Proofs.Workflow.OrderLaws
import WorkflowAudit.Proofs.Yaml.ExactLaws

namespace WorkflowAudit.Lint

open Workflow (Document Event DistinctDimensions DistinctEvents OneTriggerKey eventsLayout
  matrixLayout workflowLayout)
open Yaml (Layout Mapping Value)

theorem Engine.evaluate_congr {rules : List Rule} {d e : Document} (file : String)
    (h : ∀ r ∈ rules, r.apply d = r.apply e) :
    (mk rules).evaluate d file = (mk rules).evaluate e file := by
  induction rules with
  | nil => rfl
  | cons r rules ih =>
    obtain ⟨hr, hrules⟩ := List.forall_mem_cons.mp h
    rw [evaluate_cons, evaluate_cons, Rule.evaluate, Rule.evaluate, hr, ih hrules]

/-- Two documents with the same jobs, and the same first trigger of every event. -/
structure LookAlike (d e : Document) : Prop where
  concurrency : d.concurrency = e.concurrency
  jobs : d.jobs = e.jobs
  retentionDeclared : d.retentionDeclared = e.retentionDeclared
  trigger? : ∀ event, d.trigger? event = e.trigger? event

namespace LookAlike

variable {d e : Document}

theorem hasTrigger (h : LookAlike d e) (event : Event) : d.hasTrigger event = e.hasTrigger event :=
  congrArg _ (h.trigger? event)

theorem steps (h : LookAlike d e) : d.steps = e.steps := by
  rw [Document.steps, Document.steps, h.jobs]

theorem noConcurrency (h : LookAlike d e) : Rules.noConcurrency d = Rules.noConcurrency e := by
  have hgroup : d.hasConcurrencyGroup = e.hasConcurrencyGroup := by
    rw [Document.hasConcurrencyGroup, Document.hasConcurrencyGroup, h.concurrency, h.jobs]
  rw [Rules.noConcurrency, Rules.noConcurrency, h.hasTrigger, h.hasTrigger, hgroup]

theorem expensiveRunner (h : LookAlike d e) :
    Rules.expensiveRunner d = Rules.expensiveRunner e := by
  have hall : Rules.runsOnAllBranches d = Rules.runsOnAllBranches e := by
    funext jobs
    rw [Rules.runsOnAllBranches, Rules.runsOnAllBranches, h.trigger?, h.hasTrigger]
  have hfamily : Rules.expensiveRunnerOf d = Rules.expensiveRunnerOf e := by
    funext f
    rw [Rules.expensiveRunnerOf, Rules.expensiveRunnerOf, h.jobs, hall]
  rw [Rules.expensiveRunner, Rules.expensiveRunner, hfamily]

theorem apply_eq (h : LookAlike d e) : ∀ r ∈ Engine.builtinRules, r.apply d = r.apply e := by
  have hdetect : ∀ {id summary : String} {detect : Document → List Detection},
      detect d = detect e →
        (Rule.ofDetections id summary detect).apply d =
          (Rule.ofDetections id summary detect).apply e :=
    fun heq => congrArg Verdict.detected heq
  simp only [Engine.builtinRules, List.forall_mem_cons]
  refine ⟨hdetect ?_, hdetect h.noConcurrency, hdetect ?_, ?_, hdetect ?_, hdetect ?_, hdetect ?_,
    hdetect ?_, hdetect ?_, hdetect ?_, hdetect h.expensiveRunner, List.forall_mem_nil _⟩
  · rw [Rules.pushAllBranches, Rules.pushAllBranches, h.trigger?]
  · rw [Rules.matrixNoFailFast, Rules.matrixNoFailFast, h.jobs]
  · rw [Rules.largeMatrix, Rules.largeMatrix, h.jobs]
  · rw [Rules.frequentSchedule, Rules.frequentSchedule, h.trigger?]
  · rw [Rules.noTimeout, Rules.noTimeout, h.jobs]
  · rw [Rules.artifactNoRetention, Rules.artifactNoRetention, h.retentionDeclared, h.steps]
  · rw [Rules.oldCheckout, Rules.oldCheckout, h.steps]
  · rw [Rules.noCache, Rules.noCache, h.steps]
  · rw [Rules.pullRequestAllEvents, Rules.pullRequestAllEvents, h.trigger?]

theorem evaluate_builtin (h : LookAlike d e) (file : String) :
    Engine.builtin.evaluate d file = Engine.builtin.evaluate e file :=
  Engine.evaluate_congr file h.apply_eq

end LookAlike

def Reordered (l : Layout) (text text' : String) : Prop :=
  ∃ m n, Yaml.read text = .ok (.mapping m) ∧ Yaml.read text' = .ok (.mapping n) ∧
    l.Rearranged (.mapping m) (.mapping n)

section Reordered

variable {text text' : String} {root : Value} {eventsMove : Mapping → Prop}

theorem parse_of_read (h : Yaml.read text = .ok root) :
    Document.parse text = Document.ofYaml [] root := by
  rw [Document.parse, Document.parseWith, h]

theorem Reordered.parse_eq
    (h : Reordered (workflowLayout DistinctDimensions eventsMove) text text') :
    ∃ m n, (workflowLayout DistinctDimensions eventsMove).Versions (.mapping m) (.mapping n) ∧
      Document.parse text = Document.ofYaml [] (.mapping m) ∧
      Document.parse text' = { Document.ofYaml [] (.mapping m) with
        triggers := Document.triggersOfEntries n } := by
  obtain ⟨m, n, hm, hn, hmn⟩ := h
  have hversions := Layout.Versions.mk (Yaml.read_regular hm) hmn
  refine ⟨m, n, hversions, parse_of_read hm, ?_⟩
  rw [← Document.ofYaml_eq hversions, parse_of_read hn]

theorem Reordered.lookAlike
    (h : Reordered (workflowLayout DistinctDimensions DistinctEvents) text text') :
    LookAlike (Document.parse text) (Document.parse text') := by
  obtain ⟨m, n, hversions, htext, htext'⟩ := h.parse_eq
  rw [htext, htext']
  exact ⟨rfl, rfl, rfl, Document.find?_triggersOfEntries hversions fun _ hm => hm⟩

end Reordered

/-- The order of entries makes no difference to a document, nor to what is found in it. -/
theorem parse_reordered (text text' file : String) :
    (Reordered (workflowLayout DistinctDimensions fun _ => False) text text' →
      Document.parse text = Document.parse text') ∧
    (Reordered (workflowLayout DistinctDimensions fun _ => True) text text' →
      (Document.parse text).triggers.Perm (Document.parse text').triggers ∧
        Document.parse text' =
          { Document.parse text with triggers := (Document.parse text').triggers }) ∧
    (Reordered (workflowLayout DistinctDimensions DistinctEvents) text text' →
      builtinFindings text file = builtinFindings text' file) := by
  refine ⟨fun h => ?_, fun h => ?_, fun h => ?_⟩
  · obtain ⟨m, n, hversions, htext, htext'⟩ := h.parse_eq
    rw [htext, htext', ← Document.triggersOfEntries_eq hversions fun _ => id,
      ← Document.triggers_ofYaml []]
  · obtain ⟨m, n, hversions, htext, htext'⟩ := h.parse_eq
    rw [htext, htext']
    exact ⟨Document.triggersOfEntries_perm hversions, rfl⟩
  · rw [builtinFindings, builtinFindings, h.lookAlike.evaluate_builtin]

def matrixRoot (events dimensions : Mapping) : Mapping :=
  [(.string "on", .mapping events), (.string "jobs", .mapping [(.string "t",
    .mapping [(.string "strategy", .mapping [(.string "matrix", .mapping dimensions)])])])]

theorem rearranged_matrixRoot {matrixMoves eventsMove : Mapping → Prop}
    {events events' dimensions dimensions' m : Mapping}
    (hevents : (eventsLayout eventsMove).Rearranged (.mapping events) (.mapping events'))
    (hdimensions :
      (matrixLayout matrixMoves).Rearranged (.mapping dimensions) (.mapping dimensions'))
    (hm : (matrixRoot events' dimensions').Perm m) :
    (workflowLayout matrixMoves eventsMove).Rearranged
      (.mapping (matrixRoot events dimensions)) (.mapping m) := by
  have hone : OneTriggerKey (matrixRoot events dimensions) := by
    simp [OneTriggerKey, matrixRoot, Workflow.isTriggerKey]
  refine .mapping ⟨matrixRoot events' dimensions',
    .cons ⟨rfl, hevents⟩ (.cons ⟨rfl, ?_⟩ .nil), hm, .inl hone⟩
  apply Layout.rearranged_singleton
  apply Layout.rearranged_singleton
  exact Layout.rearranged_singleton hdimensions

def dimension (key : Value) (values : List String) : Value × Value :=
  (key, .sequence (values.map .string))

def pushToMain : Value × Value :=
  (.string "push", .mapping [dimension (.string "branches") ["main"]])

def linesAt (indentation : String) (lines : List String) : String :=
  String.join (lines.map (indentation ++ · ++ "\n"))

def jobText (dimensions : List String) : String :=
  "jobs:\n  t:\n    strategy:\n      matrix:\n" ++ linesAt "        " dimensions

def eventText (events : List String) : String := "on:\n" ++ linesAt "  " events

def pushText : String := "push:\n    branches: [main]"

def plainEvents : Mapping := [pushToMain, (.string "pull_request", .null)]

def plainDimensions : Mapping := [dimension (.string "os") ["a"], dimension (.string "node") ["b"]]

def plainText : String :=
  eventText [pushText, "pull_request:"] ++ jobText ["os: [a]", "node: [b]"]

def jobFirstText : String :=
  jobText ["node: [b]", "os: [a]"] ++ eventText [pushText, "pull_request:"]

def reversedText : String :=
  jobText ["node: [b]", "os: [a]"] ++ eventText ["pull_request:", pushText]

theorem read_plainText :
    Yaml.read plainText = .ok (.mapping (matrixRoot plainEvents plainDimensions)) :=
  Yaml.read_eq_of_readsExactly (by decide +kernel)

theorem reordered_jobFirstText :
    Reordered (workflowLayout DistinctDimensions fun _ => False) plainText jobFirstText :=
  ⟨_, (matrixRoot plainEvents plainDimensions.reverse).reverse, read_plainText,
    Yaml.read_eq_of_readsExactly (by decide +kernel),
    rearranged_matrixRoot (Layout.rearranged_refl _ _)
      (Layout.rearranged_of_perm (List.reverse_perm _).symm (by decide))
      (List.reverse_perm _).symm⟩

theorem reordered_reversedText {eventsMove : Mapping → Prop} (h : eventsMove plainEvents) :
    Reordered (workflowLayout DistinctDimensions eventsMove) plainText reversedText :=
  ⟨_, (matrixRoot plainEvents.reverse plainDimensions.reverse).reverse, read_plainText,
    Yaml.read_eq_of_readsExactly (by decide +kernel),
    rearranged_matrixRoot (Layout.rearranged_of_perm (List.reverse_perm _).symm h)
      (Layout.rearranged_of_perm (List.reverse_perm _).symm (by decide))
      (List.reverse_perm _).symm⟩

theorem parse_reordered_plainText :
    Document.parse plainText = Document.parse jobFirstText ∧
      (Document.parse plainText).triggers.Perm (Document.parse reversedText).triggers ∧
      builtinFindings plainText "ci.yml" = builtinFindings reversedText "ci.yml" :=
  ⟨(parse_reordered plainText jobFirstText "ci.yml").1 reordered_jobFirstText,
    ((parse_reordered plainText reversedText "ci.yml").2.1 (reordered_reversedText trivial)).1,
    (parse_reordered plainText reversedText "ci.yml").2.2
      (reordered_reversedText (by decide))⟩

def taggedDimensions : Mapping :=
  [dimension (.string "os") ["a"], dimension (.tagged "x" (.string "os")) ["b", "c"]]

def taggedEvents : Mapping := [pushToMain, (.tagged "x" (.string "push"), .null)]

/-- Of two dimensions of one name the last one counts, and of two triggers the first. -/
theorem not_parse_reordered :
    (∃ text text', Reordered (workflowLayout (fun _ => True) fun _ => False) text text' ∧
      Document.parse text ≠ Document.parse text') ∧
    ∃ text text', Reordered (workflowLayout DistinctDimensions fun _ => True) text text' ∧
      builtinFindings text "ci.yml" ≠ builtinFindings text' "ci.yml" := by
  constructor
  · have hread : Yaml.read (eventText ["push:"] ++ jobText ["os: [a]", "!x os: [b, c]"]) =
        .ok (.mapping (matrixRoot [(.string "push", .null)] taggedDimensions)) :=
      Yaml.read_eq_of_readsExactly (by decide +kernel)
    have hread' : Yaml.read (eventText ["push:"] ++ jobText ["!x os: [b, c]", "os: [a]"]) =
        .ok (.mapping (matrixRoot [(.string "push", .null)] taggedDimensions.reverse)) :=
      Yaml.read_eq_of_readsExactly (by decide +kernel)
    refine ⟨_, _, ⟨_, _, hread, hread', ?_⟩, ?_⟩
    · exact rearranged_matrixRoot (Layout.rearranged_refl _ _)
        (Layout.rearranged_of_perm (List.reverse_perm _).symm trivial) (.refl _)
    · rw [parse_of_read hread, parse_of_read hread']
      decide +kernel
  · have hread : Yaml.read (eventText [pushText, "!x push:"] ++ jobText ["os: [a]"]) =
        .ok (.mapping (matrixRoot taggedEvents [dimension (.string "os") ["a"]])) :=
      Yaml.read_eq_of_readsExactly (by decide +kernel)
    have hread' : Yaml.read (eventText ["!x push:", pushText] ++ jobText ["os: [a]"]) =
        .ok (.mapping (matrixRoot taggedEvents.reverse [dimension (.string "os") ["a"]])) :=
      Yaml.read_eq_of_readsExactly (by decide +kernel)
    refine ⟨_, _, ⟨_, _, hread, hread', ?_⟩, ?_⟩
    · exact rearranged_matrixRoot (Layout.rearranged_of_perm (List.reverse_perm _).symm trivial)
        (Layout.rearranged_refl _ _) (.refl _)
    · rw [builtinFindings, builtinFindings, parse_of_read hread, parse_of_read hread']
      decide +kernel

end WorkflowAudit.Lint
