import Mathlib
import WorkflowAudit.Proofs.Yaml.ReadLaws

/-! Values that differ in the order of entries, where a layout leaves the order free. -/

namespace WorkflowAudit.Yaml

section Options

variable {α β : Type} {R : α → α → Prop} {S : β → β → Prop} {x y : Option α} {f g : α → Option β}

theorem rel_bind (h : Option.Rel R x y) (hfg : ∀ {a b}, R a b → Option.Rel S (f a) (g b)) :
    Option.Rel S (x.bind f) (y.bind g) := by
  cases h with
  | none => exact .none
  | some hab => exact hfg hab

theorem bind_eq_of_rel (h : Option.Rel R x y) (hf : ∀ {a b}, R a b → f a = f b) :
    x.bind f = y.bind f := by
  cases h with
  | none => rfl
  | some hab => exact hf hab

theorem getD_eq_of_rel {f : α → β} (h : Option.Rel R x y) (hf : ∀ {a b}, R a b → f a = f b)
    (d : α) : f (x.getD d) = f (y.getD d) := by
  cases h with
  | none => rfl
  | some hab => exact hf hab

theorem rel_getD_map {f : α → β} {d : β} (h : Option.Rel R x y) (hd : S d d)
    (hf : ∀ {a b}, R a b → S (f a) (f b)) : S ((x.map f).getD d) ((y.map f).getD d) := by
  cases h with
  | none => exact hd
  | some hab => exact hf hab

theorem eq_of_rel (h : Option.Rel R x y) (hR : ∀ {a b}, R a b → a = b) : x = y := by
  cases h with
  | none => rfl
  | some hab => exact congrArg some (hR hab)

theorem isSome_eq_of_rel (h : Option.Rel R x y) : x.isSome = y.isSome := by
  cases h with
  | none => rfl
  | some => rfl

theorem rel_imp {T : α → α → Prop} (h : Option.Rel R x y)
    (hx : ∀ a ∈ x, ∀ {b}, R a b → T a b) : Option.Rel T x y := by
  cases h with
  | none => exact .none
  | some hab => exact .some (hx _ rfl hab)

end Options

def Entrywise (At : Value → Value → Value → Prop) (m n : Mapping) : Prop :=
  List.Forall₂ (fun e f => e.1 = f.1 ∧ At e.1 e.2 f.2) m n

namespace Entrywise

variable {At : Value → Value → Value → Prop} {m n : Mapping}

theorem keys_eq (h : Entrywise At m n) : m.map (·.1) = n.map (·.1) := by
  have hkeys : List.Forall₂ Eq (m.map (·.1)) (n.map (·.1)) :=
    List.forall₂_map_left_iff.mpr (List.forall₂_map_right_iff.mpr (h.imp fun _ _ he => he.1))
  rwa [List.forall₂_eq_eq_eq] at hkeys

theorem find? (h : Entrywise At m n) (p : Value → Bool) :
    Option.Rel (fun e f => e ∈ m ∧ p e.1 ∧ At e.1 e.2 f.2)
      (m.find? (p ·.1)) (n.find? (p ·.1)) := by
  have hentry : Option.Rel (fun e f => At e.1 e.2 f.2) (m.find? (p ·.1)) (n.find? (p ·.1)) := by
    induction h with
    | nil => exact .none
    | @cons e f m n hef _ ih =>
      rw [List.find?_cons, List.find?_cons, ← hef.1]
      cases p e.1 with
      | true => exact .some hef.2
      | false => exact ih
  exact rel_imp hentry fun e he f hef =>
    ⟨List.mem_of_find?_eq_some he, List.find?_some (p := fun e : Value × Value => p e.1) he, hef⟩

theorem filterMap_eq {α : Type} {read : Value × Value → Option α} (h : Entrywise At m n)
    (hread : ∀ e ∈ m, ∀ {b}, At e.1 e.2 b → read e = read (e.1, b)) :
    m.filterMap read = n.filterMap read := by
  induction h with
  | nil => rfl
  | @cons e f m n hef _ ih =>
    obtain ⟨he, hm⟩ := List.forall_mem_cons.mp hread
    have hef' : read e = read f := by
      rw [he hef.2, hef.1]
    rw [List.filterMap_cons, List.filterMap_cons, hef', ih hm]

end Entrywise

/-- Where the order of entries is free in a value: which mappings may be put in another order, and
what is free in the values of their entries and in the items of sequences. -/
inductive Layout
  | fixed
  | inside (items : Layout) (mayMove : Mapping → Prop) (under : Value → Layout)

namespace Layout

def mapping (mayMove : Mapping → Prop) (under : Value → Layout) : Layout :=
  inside fixed mayMove under

def sequence (items : Layout) : Layout := inside items (fun _ => False) fun _ => fixed

def items : Layout → Layout
  | fixed => fixed
  | inside items _ _ => items

def mayMove : Layout → Mapping → Prop
  | fixed => fun _ => False
  | inside _ mayMove _ => mayMove

def under : Layout → Value → Layout
  | fixed => fun _ => fixed
  | inside _ _ under => under

def MovesEntries (mayMove : Mapping → Prop) (At : Value → Value → Value → Prop) (m n : Mapping) :
    Prop :=
  ∃ edited, List.Forall₂ (fun e f => e.1 = f.1 ∧ At e.1 e.2 f.2) m edited ∧ edited.Perm n ∧
    (mayMove m ∨ edited = n)

inductive Moved (Item : Value → Value → Prop) (mayMove : Mapping → Prop)
    (At : Value → Value → Value → Prop) : Value → Value → Prop
  | same (v : Value) : Moved Item mayMove At v v
  | sequence {vs ws : List Value} : List.Forall₂ Item vs ws →
    Moved Item mayMove At (.sequence vs) (.sequence ws)
  | mapping {m n : Mapping} : MovesEntries mayMove At m n →
    Moved Item mayMove At (.mapping m) (.mapping n)
  | tagged (tag : String) {v w : Value} : Moved Item mayMove At v w →
    Moved Item mayMove At (.tagged tag v) (.tagged tag w)

/-- The second value is the first one with entries in another order where the layout allows it. -/
def Rearranged : Layout → Value → Value → Prop
  | fixed => Eq
  | inside items mayMove under => Moved items.Rearranged mayMove fun key => (under key).Rearranged

def Moves (l : Layout) (m n : Mapping) : Prop :=
  MovesEntries l.mayMove (fun key => (l.under key).Rearranged) m n

structure Versions (l : Layout) (v w : Value) : Prop where
  regular : v.Regular
  rearranged : l.Rearranged v w

theorem rearranged_refl (l : Layout) (v : Value) : l.Rearranged v v := by
  cases l with
  | fixed => rfl
  | inside items mayMove under => exact .same v

variable {l : Layout} {m n : Mapping} {v w : Value}

theorem moves_refl (l : Layout) (m : Mapping) : l.Moves m m :=
  ⟨m, List.forall₂_same.mpr fun e _ => ⟨rfl, rearranged_refl _ e.2⟩, .refl m, .inr rfl⟩

theorem rearranged_of_perm {mayMove : Mapping → Prop} {under : Value → Layout} (h : m.Perm n)
    (hm : mayMove m) : (Layout.mapping mayMove under).Rearranged (.mapping m) (.mapping n) :=
  .mapping ⟨m, List.forall₂_same.mpr fun e _ => ⟨rfl, rearranged_refl _ e.2⟩, h, .inl hm⟩

theorem rearranged_singleton {mayMove : Mapping → Prop} {under : Value → Layout} {key : Value}
    (h : (under key).Rearranged v w) :
    (Layout.mapping mayMove under).Rearranged (.mapping [(key, v)]) (.mapping [(key, w)]) :=
  .mapping ⟨[(key, w)], .cons ⟨rfl, h⟩ .nil, .refl _, .inr rfl⟩

theorem find?_eq_of_perm (h : m.Perm n) {p : Value → Bool}
    (hp : (m.map (·.1)).Pairwise fun a b => ¬(p a ∧ p b)) :
    m.find? (p ·.1) = n.find? (p ·.1) := by
  have : Std.Symm fun a b : Value × Value => ¬(p a.1 ∧ p b.1) := ⟨fun _ _ h hp => h hp.symm⟩
  refine List.find?_eq_find?_of_perm h fun e he f hf => ?_
  by_contra hne
  exact (List.pairwise_map.mp hp).forall he.1 hf.1 hne ⟨he.2, hf.2⟩

theorem Moves.exists_entrywise (h : l.Moves m n) : ∃ edited,
    Entrywise (fun key => (l.under key).Rearranged) m edited ∧ edited.Perm n ∧
      (l.mayMove m ∨ edited = n) :=
  h

theorem Moves.find? (h : l.Moves m n) {p : Value → Bool}
    (hp : l.mayMove m → (m.map (·.1)).Pairwise fun a b => ¬(p a ∧ p b)) :
    Option.Rel (fun e f => e ∈ m ∧ p e.1 ∧ (l.under e.1).Rearranged e.2 f.2)
      (m.find? (p ·.1)) (n.find? (p ·.1)) := by
  obtain ⟨edited, hedit, hperm, hmove⟩ := h.exists_entrywise
  have hfind : edited.find? (p ·.1) = n.find? (p ·.1) := by
    rcases hmove with hmove | rfl
    · exact find?_eq_of_perm hperm (hedit.keys_eq ▸ hp hmove)
    · rfl
  rw [← hfind]
  exact hedit.find? p

theorem Moves.filterMap {α : Type} (read : Value × Value → Option α) (h : l.Moves m n)
    (hm : ∀ e ∈ m, e.2.Regular)
    (hread : ∀ {key a b}, (l.under key).Versions a b → read (key, a) = read (key, b)) :
    (m.filterMap read).Perm (n.filterMap read) ∧
      (l.mayMove m ∨ m.filterMap read = n.filterMap read) := by
  obtain ⟨edited, hedit, hperm, hmove⟩ := h.exists_entrywise
  have heq : m.filterMap read = edited.filterMap read :=
    hedit.filterMap_eq fun e he _ hat => hread ⟨hm e he, hat⟩
  rw [heq]
  exact ⟨hperm.filterMap read, hmove.imp id fun h => congrArg _ h⟩

theorem Moves.perm_of_fixed {mayMove : Mapping → Prop}
    (h : (Layout.mapping mayMove fun _ => fixed).Moves m n) : m.Perm n ∧ (mayMove m ∨ m = n) := by
  obtain ⟨edited, hedit, hperm, hmove⟩ := h
  have heq : List.Forall₂ Eq m edited := hedit.imp fun _ _ he => Prod.ext he.1 he.2
  rw [List.forall₂_eq_eq_eq] at heq
  subst heq
  exact ⟨hperm, hmove⟩

namespace Rearranged

theorem mapping_cases {mayMove : Mapping → Prop} {under : Value → Layout}
    (h : (Layout.mapping mayMove under).Rearranged v w) :
    v = w ∨ (∃ m n, v = .mapping m ∧ w = .mapping n ∧ (Layout.mapping mayMove under).Moves m n) ∨
      ∃ tag v' w', v = .tagged tag v' ∧ w = .tagged tag w' := by
  cases h with
  | same v => exact .inl rfl
  | sequence h =>
    have hitems : List.Forall₂ Eq _ _ := h
    rw [List.forall₂_eq_eq_eq] at hitems
    exact .inl (congrArg _ hitems)
  | mapping h => exact .inr (.inl ⟨_, _, rfl, rfl, h⟩)
  | tagged => exact .inr (.inr ⟨_, _, _, rfl, rfl⟩)

theorem asMapping? (h : l.Rearranged v w) : Option.Rel l.Moves v.asMapping? w.asMapping? := by
  have hsame : ∀ u : Value, Option.Rel l.Moves u.asMapping? u.asMapping? := by
    intro u
    cases u.asMapping? with
    | none => exact .none
    | some m => exact .some (moves_refl l m)
  cases l with
  | fixed =>
    cases h
    exact hsame v
  | inside items mayMove under =>
    induction h with
    | same v => exact hsame v
    | sequence => exact .none
    | mapping h => exact .some h
    | tagged tag _ ih => exact ih

theorem isMapping_eq (h : l.Rearranged v w) : v.isMapping = w.isMapping :=
  isSome_eq_of_rel h.asMapping?

theorem asSequence? (h : l.Rearranged v w) :
    Option.Rel (List.Forall₂ l.items.Rearranged) v.asSequence? w.asSequence? := by
  have hsame : ∀ u : Value,
      Option.Rel (List.Forall₂ l.items.Rearranged) u.asSequence? u.asSequence? := by
    intro u
    cases u.asSequence? with
    | none => exact .none
    | some vs => exact .some (List.forall₂_same.mpr fun v _ => rearranged_refl _ v)
  cases l with
  | fixed =>
    cases h
    exact hsame v
  | inside items mayMove under =>
    induction h with
    | same v => exact hsame v
    | sequence h => exact .some h
    | mapping => exact .none
    | tagged tag _ ih => exact ih

end Rearranged

theorem forall_regular_of_asSequence? (hv : v.Regular) :
    ∀ vs ∈ v.asSequence?, ∀ u ∈ vs, u.Regular := by
  intro vs hvs
  have huntagged := Value.inherited_regular.untagged hv
  rw [Value.asSequence?] at hvs
  split at hvs
  · rename_i items heq
    cases hvs
    cases heq ▸ huntagged with
    | sequence h => exact h
  · cases hvs

theorem Versions.asSequence? (h : l.Versions v w) :
    Option.Rel (List.Forall₂ l.items.Versions) v.asSequence? w.asSequence? := by
  refine rel_imp h.rearranged.asSequence? fun vs hvs ws hitems => ?_
  have hregular := forall_regular_of_asSequence? h.regular vs hvs
  exact (List.forall₂_and_left _ _ |>.mpr ⟨hregular, hitems⟩).imp fun _ _ h => ⟨h.1, h.2⟩

end Layout

end WorkflowAudit.Yaml
