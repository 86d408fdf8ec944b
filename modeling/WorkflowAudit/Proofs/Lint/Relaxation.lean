import WorkflowAudit.Proofs.KeyMapLaws
import WorkflowAudit.Proofs.Lint.Offences

/-! Edits that take evidence of a restriction out of a document, and what they leave of the answers
that rules ask for: no restriction is new, and no runner or step is worse off. -/

namespace WorkflowAudit.Lint

open Rules (RunnerFamily)
open Workflow (Document Filters Job Step Trigger)

inductive FiltersEdit : Filters → Filters → Prop
  | branches (f : Filters) : FiltersEdit f { f with branches := none }
  | paths (f : Filters) : FiltersEdit f { f with paths := none }
  | pathsIgnore (f : Filters) : FiltersEdit f { f with pathsIgnore := none }
  | types (f : Filters) : FiltersEdit f { f with types := none }
  | branch {f : Filters} {before after : List String} {name : String} :
    f.branches = some (before ++ name :: after) →
    FiltersEdit f { f with branches := some (before ++ after) }

inductive StepEdit : Step → Step → Prop
  | cacheParam {key : String} (s : Step) : key = "cache" ∨ "-cache".toList <:+ key.toList →
    StepEdit s { s with params := s.params.filter (·.1 ≠ key) }

inductive JobEdit : Job → Job → Prop
  | condition (j : Job) : JobEdit j { j with condition := none }
  | timeout (j : Job) : JobEdit j { j with timeout := none }
  | failFast (j : Job) : JobEdit j { j with failFast := none }
  | concurrency (j : Job) : JobEdit j { j with concurrency := none }
  | selfHosted {j : Job} {before after : List String} {label : String} :
    j.runsOn = before ++ label :: after → label.toList.map Char.toLower = "self-hosted".toList →
    JobEdit j { j with runsOn := before ++ after }
  | step {j : Job} {before after : List Step} {s t : Step} :
    j.steps = before ++ s :: after → StepEdit s t →
    JobEdit j { j with steps := before ++ t :: after }

/-- One restriction is taken out of a document. -/
inductive Relaxes : Document → Document → Prop
  | trigger {d : Document} {before after : List Trigger} {t : Trigger} {f : Filters} :
    d.triggers = before ++ t :: after → FiltersEdit t.filters f →
    Relaxes d { d with triggers := before ++ { t with filters := f } :: after }
  | job {d : Document} {before after : List Job} {j k : Job} :
    d.jobs = before ++ j :: after → JobEdit j k →
    Relaxes d { d with jobs := before ++ k :: after }
  | concurrency (d : Document) : Relaxes d { d with concurrency := none }
  | retention (d : Document) : Relaxes d { d with retentionDeclared := false }

structure LooserFilters (f g : Filters) : Prop where
  restricts : g.restrictsBranchesOrPaths → f.restrictsBranchesOrPaths
  protects : g.namesProtectedBranch → f.namesProtectedBranch
  types : g.types.isSome → f.types.isSome

structure LooserTrigger (t u : Trigger) : Prop where
  event_eq : u.event = t.event
  crons_eq : u.crons = t.crons
  filters : LooserFilters t.filters u.filters

structure LooserStep (s t : Step) : Prop where
  uses_eq : t.uses = s.uses
  cache : Rules.providesCache t → Rules.providesCache s
  install : Rules.installsPackages s → Rules.installsPackages t ∨ Rules.providesCache s

structure LooserJob (j k : Job) : Prop where
  matrix_eq : k.matrix = j.matrix
  uses_eq : k.uses = j.uses
  condition : Rules.isRestricted k → Rules.isRestricted j
  timeout : j.timeout = none → k.timeout = none
  failFast : j.failFast = none → k.failFast = none
  concurrency : j.concurrency = none → k.concurrency = none
  runner : ∀ f, Rules.runsOnFamily j f → Rules.runsOnFamily k f
  steps : List.Forall₂ LooserStep j.steps k.steps

structure Looser (d e : Document) : Prop where
  triggers : List.Forall₂ LooserTrigger d.triggers e.triggers
  jobs : List.Forall₂ LooserJob d.jobs e.jobs
  concurrency : d.concurrency = none → e.concurrency = none
  retention : e.retentionDeclared → d.retentionDeclared

theorem forall₂_replace {α : Type} {R : α → α → Prop} (hrefl : ∀ a, R a a) {before after : List α}
    {a b : α} (h : R a b) : List.Forall₂ R (before ++ a :: after) (before ++ b :: after) := by
  induction before with
  | nil => exact .cons h (List.forall₂_same.mpr fun c _ => hrefl c)
  | cons c before ih => exact .cons (hrefl c) ih

theorem LooserFilters.refl (f : Filters) : LooserFilters f f := ⟨id, id, id⟩

theorem LooserTrigger.refl (t : Trigger) : LooserTrigger t t := ⟨rfl, rfl, .refl _⟩

theorem LooserStep.refl (s : Step) : LooserStep s s := ⟨rfl, id, .inl⟩

theorem LooserJob.refl (j : Job) : LooserJob j j :=
  ⟨rfl, rfl, id, id, id, id, fun _ => id, List.forall₂_same.mpr fun s _ => .refl s⟩

theorem Looser.refl (d : Document) : Looser d d :=
  ⟨List.forall₂_same.mpr fun t _ => .refl t, List.forall₂_same.mpr fun j _ => .refl j, id, id⟩

theorem FiltersEdit.looser {f g : Filters} (h : FiltersEdit f g) : LooserFilters f g := by
  cases h with
  | branches | paths | pathsIgnore | types =>
    constructor <;> simp [Filters.restrictsBranchesOrPaths, Filters.namesProtectedBranch] <;> grind
  | branch hbranches =>
    constructor
    · simp [Filters.restrictsBranchesOrPaths, hbranches]
    · simp only [Filters.namesProtectedBranch, hbranches, List.any_append, List.any_cons,
        Bool.or_eq_true]
      grind
    · exact id

def isOffChar (c : Char) : Bool := Text.isBlank c || "false".toList.contains c

theorem foldCase_of_isOffChar {c : Char} (h : isOffChar c) : Text.foldCase c = c := by
  have hne : c ≠ 'ſ' ∧ c ≠ '\u212A' := by
    constructor <;> rintro rfl <;> revert h <;> decide
  have hletters : "false".toList.all (!·.isUpper) = true := by decide
  have hupper : ¬c.isUpper := by
    intro hupper
    have hrange : 65 ≤ c.toNat ∧ c.toNat ≤ 90 := by
      simpa [Char.isUpper, UInt32.le_iff_toNat_le] using hupper
    simp only [isOffChar, Text.isBlank, Bool.or_eq_true, Bool.and_eq_true, decide_eq_true_eq,
      beq_iff_eq, List.contains_iff_mem] at h
    rcases h with h | h
    · omega
    · have hlower := List.all_eq_true.mp hletters c h
      rw [hupper] at hlower
      cases hlower
  rw [Text.foldCase, if_neg hne.1, if_neg hne.2]
  exact Text.toLower_of_not_isUpper hupper

theorem isOffChar_of_map_foldCase {part : List Char} {w : String}
    (h : part.map Text.foldCase = w.toList) (hpart : ∀ c ∈ part, isOffChar c) :
    w.toList.all isOffChar := by
  have hsame : part.map Text.foldCase = part.map id :=
    List.map_congr_left fun c hc => foldCase_of_isOffChar (hpart c hc)
  rw [← h, hsame, List.map_id]
  exact List.all_eq_true.mpr hpart

theorem Spells.head_isOffChar {parts : List (List String)} {part : List Char}
    (h : Spells parts part) (hpart : ∀ c ∈ part, isOffChar c) :
    ∃ options ∈ parts.head?, ∃ w ∈ options, w.toList.all isOffChar := by
  cases h with
  | last hw hfold => exact ⟨_, rfl, _, hw, isOffChar_of_map_foldCase hfold hpart⟩
  | more hw hfold =>
    refine ⟨_, rfl, _, hw, isOffChar_of_map_foldCase hfold fun c hc => hpart c ?_⟩
    simp [hc]

theorem not_isOffChar_installCommands :
    ∀ parts ∈ installCommands, ∀ options ∈ parts.head?, ∀ w ∈ options,
      ¬w.toList.all isOffChar := by
  decide

theorem not_installs_of_isOffChar {s : List Char} (hs : ∀ c ∈ s, isOffChar c) : ¬Installs s := by
  intro h
  cases h with
  | command hparts hcommand =>
    obtain ⟨before, part, after, rfl, hspells, -⟩ := hcommand
    obtain ⟨options, hoptions, w, hw, hoff⟩ :=
      hspells.head_isOffChar fun c hc => hs c (by simp [hc])
    exact not_isOffChar_installCommands _ hparts options hoptions w hw hoff
  | @yarn before lead word trail after hsplit hstart hlead hword =>
    have hoff := isOffChar_of_map_foldCase hword fun c hc => hs c (by simp [hsplit, hc])
    exact absurd hoff (by decide)
  | @mvn before word gap goal after hsplit hstart hword =>
    have hoff := isOffChar_of_map_foldCase hword fun c hc => hs c (by simp [hsplit, hc])
    exact absurd hoff (by decide)

theorem mem_dropWhile_of_not {p : Char → Bool} {s : List Char} {c : Char} (h : c ∈ s)
    (hc : ¬p c) : c ∈ s.dropWhile p := by
  rw [← List.takeWhile_append_dropWhile (p := p) (l := s), List.mem_append] at h
  exact h.resolve_left fun htake => hc (List.all_eq_true.mp List.all_takeWhile c htake)

theorem mem_trim_of_not_isBlank {s : List Char} {c : Char} (h : c ∈ s) (hc : ¬Text.isBlank c) :
    c ∈ Text.trim s := by
  rw [Text.trim, Text.trimEnd, List.mem_reverse]
  exact mem_dropWhile_of_not (List.mem_reverse.mpr (mem_dropWhile_of_not h hc)) hc

theorem turnsCacheOn_of_isInstall {key value : String}
    (hkey : key = "cache" ∨ "-cache".toList <:+ key.toList) (h : Rules.isInstall value) :
    Rules.turnsCacheOn key value := by
  have hoff : ¬∀ c ∈ Text.trim value.toList, "false".toList.contains c := by
    intro htrim
    refine not_installs_of_isOffChar (fun c hc => ?_) (isInstall_iff.mp h)
    by_cases hblank : Text.isBlank c
    · simp [isOffChar, hblank]
    · rw [isOffChar, htrim c (mem_trim_of_not_isBlank hc hblank), Bool.or_true]
  refine turnsCacheOn_iff.mpr ⟨hkey, fun hnil => hoff ?_, fun hfalse => hoff ?_⟩
  · simp [hnil]
  · rw [hfalse]
    exact fun c hc => List.contains_iff_mem.mpr hc

theorem StepEdit.looser {s t : Step} (h : StepEdit s t) : LooserStep s t := by
  cases h with
  | @cacheParam key s hkey =>
    refine ⟨rfl, fun h => ?_, fun h => ?_⟩
    · simp only [Rules.providesCache, Bool.or_eq_true, List.any_eq_true] at h ⊢
      rcases h with h | ⟨e, he, hon⟩
      · exact .inl h
      · exact .inr ⟨e, (KeyMap.mem_entries_filter.mp he).1, hon⟩
    · simp only [Rules.installsPackages, Bool.or_eq_true, List.any_eq_true] at h ⊢
      rcases h with h | ⟨value, hvalue, hinstall⟩
      · exact .inl (.inl h)
      · obtain ⟨e, he, rfl⟩ := List.mem_map.mp hvalue
        by_cases heq : e.1 = key
        · right
          simp only [Rules.providesCache, Bool.or_eq_true, List.any_eq_true]
          exact .inr ⟨e, he, turnsCacheOn_of_isInstall (heq ▸ hkey) hinstall⟩
        · have hkept : e ∈ (s.params.filter fun e => decide (e.1 ≠ key)).entries :=
            KeyMap.mem_entries_filter.mpr ⟨he, decide_eq_true heq⟩
          exact .inl (.inr ⟨e.2, List.mem_map_of_mem hkept, hinstall⟩)

theorem JobEdit.looser {j k : Job} (h : JobEdit j k) : LooserJob j k := by
  cases h with
  | condition => exact { LooserJob.refl j with condition := by simp [Rules.isRestricted] }
  | timeout => exact { LooserJob.refl j with timeout := fun _ => rfl }
  | failFast => exact { LooserJob.refl j with failFast := fun _ => rfl }
  | concurrency => exact { LooserJob.refl j with concurrency := fun _ => rfl }
  | selfHosted hrunsOn hlabel =>
    refine { LooserJob.refl j with runner := fun f h => ?_ }
    -- A job with the label was on no runner of the family.
    refine absurd hlabel ((runsOnFamily_iff.mp h).1 _ ?_)
    simp [hrunsOn]
  | step hsteps hedit =>
    exact { LooserJob.refl j with steps := hsteps ▸ forall₂_replace LooserStep.refl hedit.looser }

theorem Relaxes.looser {d e : Document} (h : Relaxes d e) : Looser d e := by
  cases h with
  | trigger htriggers hedit =>
    exact { Looser.refl d with
      triggers := htriggers ▸ forall₂_replace LooserTrigger.refl ⟨rfl, rfl, hedit.looser⟩ }
  | job hjobs hedit =>
    exact { Looser.refl d with jobs := hjobs ▸ forall₂_replace LooserJob.refl hedit.looser }
  | concurrency => exact { Looser.refl d with concurrency := fun _ => rfl }
  | retention => exact { Looser.refl d with retention := by simp }

end WorkflowAudit.Lint
