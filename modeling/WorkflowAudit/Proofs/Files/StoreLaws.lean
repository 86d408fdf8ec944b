import WorkflowAudit.Proofs.DialogueLaws
import WorkflowAudit.Proofs.Files.PathLaws
import WorkflowAudit.Proofs.KeyMapLaws

namespace WorkflowAudit.Files

open Glob (extend here)
open WorkflowAudit.Files.Path (descend pieces rewritten route start)

namespace Tree

/-- Names lead down to what is at their end, each of them one of the directory before. -/
inductive Leads : Tree → List String → Tree → Prop
  | here {t : Tree} : Leads t [] t
  | down {children : List (String × Tree)} {name : String} {child t : Tree} {names : List String} :
    (name, child) ∈ children → Leads child names t → Leads (.directory children) (name :: names) t

inductive WellNamed : Tree → Prop
  | file {bytes : ByteArray} : WellNamed (.file bytes)
  | directory {children : List (String × Tree)} : (children.map (·.1)).Nodup →
    (∀ e ∈ children, IsName e.1) → (∀ e ∈ children, WellNamed e.2) → WellNamed (.directory children)

theorem Leads.isName {t inner : Tree} {names : List String} (h : Leads t names inner)
    (ht : WellNamed t) : ∀ name ∈ names, IsName name := by
  induction h with
  | here => simp
  | down hchild _ ih =>
    cases ht with
    | directory _ hnames hchildren =>
      exact List.forall_mem_cons.mpr ⟨hnames _ hchild, ih (hchildren _ hchild)⟩

section Walk

variable {place place' : List Tree} {names : List String}

theorem walk_cons (place : List Tree) (name : String) (rest : List String) :
    walk place (name :: rest) = (walk place [name]).bind (walk · rest) := by
  match place with
  | [] => rfl
  | .file _ :: _ => rfl
  | .directory children :: outer =>
    simp only [walk]
    split
    · rfl
    · split
      · rfl
      · split
        · rfl
        · split <;> rfl

theorem walk_append (place : List Tree) (first rest : List String) :
    walk place (first ++ rest) = (walk place first).bind (walk · rest) := by
  induction first generalizing place with
  | nil => simp [walk, Except.bind]
  | cons name first ih =>
    rw [List.cons_append, walk_cons, walk_cons place name first]
    cases walk place [name] with
    | error => rfl
    | ok place => exact ih place

theorem exists_of_walk_append {first rest : List String}
    (h : walk place (first ++ rest) = .ok place') :
    ∃ next, walk place first = .ok next ∧ walk next rest = .ok place' := by
  rw [walk_append] at h
  cases hfirst : walk place first with
  | error e =>
    rw [hfirst] at h
    cases h
  | ok next =>
    rw [hfirst] at h
    exact ⟨next, rfl, h⟩

theorem exists_of_walk_cons {name : String} {rest : List String}
    (h : walk place (name :: rest) = .ok place') :
    ∃ children outer, place = .directory children :: outer := by
  match place with
  | [] => cases h
  | .file _ :: _ => cases h
  | .directory children :: outer => exact ⟨children, outer, rfl⟩

theorem walk_blank (hblank : ∀ name ∈ names, name = "" ∨ name = here) :
    walk place names = .ok place' → place' = place := by
  induction names with
  | nil => exact fun h => (Except.ok.inj h).symm
  | cons name names ih =>
    obtain ⟨hname, hnames⟩ := List.forall_mem_cons.mp hblank
    intro h
    obtain ⟨children, outer, rfl⟩ := exists_of_walk_cons h
    rw [walk, if_pos (by simpa [here] using hname)] at h
    exact ih hnames h

theorem Leads.walk {t inner : Tree} (h : Leads t names inner) (ht : WellNamed t)
    (outer : List Tree) : ∃ outer', walk (t :: outer) names = .ok (inner :: outer') := by
  induction h generalizing outer with
  | here => exact ⟨outer, rfl⟩
  | @down children name child _ _ hchild _ ih =>
    cases ht with
    | directory hdistinct hnames hchildren =>
      have hname := hnames _ hchild
      have hlookup : children.lookup name = some child :=
        KeyMap.lookup_of_mem (List.pairwise_map.mp hdistinct) hchild
      rw [Tree.walk, if_neg (by simp [hname.ne_empty, hname.ne_here]), if_neg hname.ne_up,
        if_neg (Nat.not_lt.mpr hname.size), hlookup]
      exact ih (hchildren _ hchild) _

end Walk

end Tree

namespace Store

variable {s : Store} {path base name : String} {names : List String} {t inner : Tree}

theorem steps_eq (s : Store) (path : String) : s.steps path =
    (if path.startsWith "/" then [] else s.working) ++ pieces path := by
  simp only [steps, pieces]
  split <;> rfl

theorem steps_root (s : Store) : s.steps "/" = ["", ""] := by
  rw [steps_eq, if_pos (Path.startsWith_slash_iff.mpr rfl)]
  rfl

theorem steps_here (s : Store) : s.steps here = s.working ++ [here] := by
  rw [steps_eq, if_neg (by rw [Path.startsWith_slash_iff]; decide)]
  rfl

theorem find_eq_ok_iff : s.find path = .ok t ↔ path ≠ "" ∧ '\x00' ∉ path.toList ∧
    ∃ outer, Tree.walk [s.root] (s.steps path) = .ok (t :: outer) := by
  rw [find]
  by_cases hempty : path = ""
  · simp [hempty]
  by_cases hzero : '\x00' ∈ path.toList
  · simp [hempty, hzero]
  rw [if_neg (by simpa using hempty), if_neg (by simpa using hzero)]
  cases hwalk : Tree.walk [s.root] (s.steps path) with
  | error e => simp
  | ok place => cases place <;> simp [hempty, hzero]

theorem exists_steps_extend (s : Store) (path : String) (hname : '/' ∉ name.toList) :
    ∃ front blank, s.steps path = front ++ blank ∧ s.steps (extend path name) = front ++ [name] ∧
      ∀ piece ∈ blank, piece = "" ∨ piece = here := by
  rw [steps_eq, steps_eq, Path.startsWith_extend path hname]
  obtain ⟨front, blank, hpath, hextend, hblank⟩ : ∃ front blank, pieces path = front ++ blank ∧
      pieces (extend path name) = front ++ [name] ∧ ∀ piece ∈ blank, piece = "" ∨ piece = here := by
    by_cases hhere : path = here
    · refine ⟨[], [here], by rw [hhere]; rfl, ?_, by simp⟩
      rw [hhere, Path.extend_here, Path.pieces_of_not_mem hname]
      rfl
    by_cases hempty : path = ""
    · refine ⟨[], [""], by rw [hempty]; rfl, ?_, by simp⟩
      rw [hempty, Path.extend_empty, Path.pieces_of_not_mem hname]
      rfl
    · obtain ⟨front, blank, -, hpath, hextend, hblank⟩ :=
        Path.exists_pieces_extend hempty hhere hname
      exact ⟨front, blank, hpath, hextend, fun piece hpiece => .inl (hblank piece hpiece)⟩
  exact ⟨_, blank, by rw [hpath, List.append_assoc], by rw [hextend, List.append_assoc], hblank⟩

def resolve (names : List String) (step : String) : List String :=
  if step = "" || step = "." then names
  else if step = ".." then names.dropLast
  else names ++ [step]

theorem plainSteps_eq (s : Store) (path : String) :
    s.plainSteps path = (s.steps path).foldl resolve [] := rfl

theorem foldl_resolve_blank {blank : List String}
    (hblank : ∀ piece ∈ blank, piece = "" ∨ piece = here) (names : List String) :
    blank.foldl resolve names = names := by
  induction blank with
  | nil => rfl
  | cons piece blank ih =>
    obtain ⟨hpiece, hblank⟩ := List.forall_mem_cons.mp hblank
    rw [List.foldl_cons, resolve, if_pos (by simpa [here] using hpiece)]
    exact ih hblank

theorem plainSteps_descend (hnames : ∀ name ∈ names, '/' ∉ name.toList) :
    s.plainSteps (descend path names) = names.foldl resolve (s.plainSteps path) := by
  induction names generalizing path with
  | nil => rfl
  | cons name names ih =>
    obtain ⟨hname, hnames⟩ := List.forall_mem_cons.mp hnames
    obtain ⟨front, blank, hpath, hextend, hblank⟩ := exists_steps_extend s path hname
    have hstep : s.plainSteps (extend path name) = resolve (s.plainSteps path) name := by
      rw [plainSteps_eq, plainSteps_eq, hpath, hextend, List.foldl_append, List.foldl_append,
        foldl_resolve_blank hblank]
      rfl
    rw [descend, List.foldl_cons, ← descend, ih hnames, hstep, List.foldl_cons]

theorem walk_descend {place place' : List Tree} (hnames : ∀ name ∈ names, '/' ∉ name.toList)
    (hpath : Tree.walk [s.root] (s.steps path) = .ok place)
    (h : Tree.walk place names = .ok place') :
    Tree.walk [s.root] (s.steps (descend path names)) = .ok place' := by
  induction names generalizing path place with
  | nil => exact (Except.ok.inj h) ▸ hpath
  | cons name names ih =>
    obtain ⟨hname, hnames⟩ := List.forall_mem_cons.mp hnames
    obtain ⟨front, blank, hsteps, hextend, hblank⟩ := exists_steps_extend s path hname
    obtain ⟨before, hbefore, hafter⟩ := Tree.exists_of_walk_append (hsteps ▸ hpath)
    obtain rfl := Tree.walk_blank hblank hafter
    have hcons : Tree.walk place ([name] ++ names) = .ok place' := h
    obtain ⟨next, hnext, hrest⟩ := Tree.exists_of_walk_append hcons
    refine ih hnames ?_ hrest
    rw [hextend, Tree.walk_append, hbefore]
    exact hnext

theorem find_descend (hbase : s.find base = .ok t) (ht : t.WellNamed) (h : t.Leads names inner) :
    s.find (descend base names) = .ok inner := by
  obtain ⟨hne, hzero, outer, hwalk⟩ := find_eq_ok_iff.mp hbase
  have hnames := h.isName ht
  have hslash : ∀ name ∈ names, '/' ∉ name.toList := fun name hname => (hnames name hname).slash
  obtain ⟨outer', hdown⟩ := h.walk ht outer
  refine find_eq_ok_iff.mpr ⟨Path.descend_ne_empty hne hnames, fun hmem => ?_, outer',
    walk_descend hslash hwalk hdown⟩
  rcases Path.mem_of_mem_descend (by decide) hslash hmem with hmem | ⟨name, hname, hmem⟩
  · exact hzero hmem
  · exact (hnames name hname).zero hmem

section Routes

theorem not_mem_of_mem_route (h : name ∈ route path) : '/' ∉ name.toList :=
  Path.not_mem_of_mem_pieces (Path.mem_pieces_of_mem_route h)

theorem plainSteps_rewritten (s : Store) (path : String) :
    s.plainSteps (rewritten path) = s.plainSteps path := by
  rw [rewritten, plainSteps_descend fun name => not_mem_of_mem_route, plainSteps_eq, plainSteps_eq,
    start, route, steps_eq s path]
  by_cases hroot : path.startsWith "/"
  · obtain ⟨rest, -, hrest⟩ := Path.pieces_eq_of_startsWith hroot
    rw [if_pos hroot, if_pos hroot, if_pos hroot, hrest, steps_root]
    rfl
  · rw [if_neg hroot, if_neg hroot, if_neg hroot, steps_here, List.foldl_append, List.foldl_append,
      foldl_resolve_blank (by simp : ∀ piece ∈ [here], piece = "" ∨ piece = here)]

theorem exists_walk_start {place : List Tree} (h : Tree.walk [s.root] (s.steps path) = .ok place) :
    ∃ first, Tree.walk [s.root] (s.steps (start path)) = .ok first ∧
      Tree.walk first (route path) = .ok place := by
  rw [steps_eq] at h
  rw [start, route]
  by_cases hroot : path.startsWith "/"
  · obtain ⟨rest, -, hrest⟩ := Path.pieces_eq_of_startsWith hroot
    rw [if_pos hroot, List.nil_append, hrest] at h
    obtain ⟨children, outer, hdirectory⟩ := Tree.exists_of_walk_cons h
    rw [if_pos hroot, if_pos hroot, hrest, steps_root, hdirectory]
    rw [hdirectory] at h
    exact ⟨_, rfl, h⟩
  · rw [if_neg hroot] at h
    obtain ⟨first, hfirst, hrest⟩ := Tree.exists_of_walk_append h
    obtain ⟨piece, rest, hpieces⟩ := List.exists_cons_of_ne_nil (Path.pieces_ne_nil path)
    obtain ⟨children, outer, rfl⟩ := Tree.exists_of_walk_cons (hpieces ▸ hrest)
    rw [if_neg hroot, if_neg hroot, steps_here, Tree.walk_append, hfirst]
    exact ⟨_, rfl, hrest⟩

theorem find_rewritten (h : s.find path = .ok t) (hne : rewritten path ≠ "") :
    s.find (rewritten path) = .ok t := by
  obtain ⟨-, hzero, outer, hwalk⟩ := find_eq_ok_iff.mp h
  obtain ⟨first, hfirst, hroute⟩ := exists_walk_start hwalk
  refine find_eq_ok_iff.mpr ⟨hne, fun hmem => ?_, outer,
    walk_descend (fun name => not_mem_of_mem_route) hfirst hroute⟩
  rcases Path.mem_of_mem_descend (by decide) (fun name => not_mem_of_mem_route) hmem with
    hmem | ⟨name, hname, hmem⟩
  · rw [start] at hmem
    revert hmem
    split <;> decide
  · exact hzero (Path.mem_of_mem_pieces (Path.mem_pieces_of_mem_route hname) hmem)

end Routes

theorem answer_layout (s : Store) (path : String) :
    answer (.layout path) s = ((s.find path).toOption.map Tree.layout, s) := by
  simp only [answer]
  cases s.find path <;> rfl

/-- Another spelling of a path to a directory: names lead on from it to what they lead to in the
directory. -/
structure Spells (s : Store) (base path : String) (t : Tree) : Prop where
  place : s.plainSteps base = s.plainSteps path
  leads : ∀ names inner, t.Leads names inner → s.find (descend base names) = .ok inner

theorem spells_self (h : s.find path = .ok t) (ht : t.WellNamed) : s.Spells path path t :=
  ⟨rfl, fun _ _ => find_descend h ht⟩

theorem spells_rewritten (h : s.find path = .ok t) (ht : t.WellNamed)
    (hne : rewritten path ≠ "") :
    s.Spells (rewritten path) path t :=
  ⟨plainSteps_rewritten s path, fun _ _ => find_descend (find_rewritten h hne) ht⟩

end Store

def Question.IsLayout : Question → Prop
  | .layout _ => True
  | _ => False

theorem runWith_of_asksOnly {α : Type} {d : Dialogue α} (h : Dialogue.AsksOnly Question.IsLayout d)
    (s : Store) :
    d.runWith Store.answer s = (d.answeredBy fun q => (Store.answer q s).1, s) := by
  induction h with
  | done => rfl
  | @ask q next hq _ ih =>
    have hsame : Store.answer q s = ((Store.answer q s).1, s) := by
      cases q with
      | layout path => exact Prod.ext rfl (by rw [Store.answer_layout])
      | read | makeDirectory | write => cases hq
    calc (Dialogue.ask q next).runWith Store.answer s
      _ = (next (Store.answer q s).1).runWith Store.answer (Store.answer q s).2 := rfl
      _ = (next (Store.answer q s).1).runWith Store.answer s := by rw [hsame]
      _ = _ := ih _

end WorkflowAudit.Files
