import WorkflowAudit.Files.Glob
import WorkflowAudit.Files.Tree
import WorkflowAudit.Proofs.Text.PartLaws

namespace WorkflowAudit.Files

namespace Path

def Component.key (c : Component) : Nat ×ₗ String := toLex (c.rank, c.text)

theorem Component.key_injective : Function.Injective Component.key := by
  intro a b h
  obtain ⟨hrank, htext⟩ := Prod.mk.inj (toLex.injective h)
  cases a <;> cases b <;> simp_all [Component.rank, Component.text]

theorem Component.isLe_iff {a b : Component} : a.isLe b ↔ a.key ≤ b.key := by
  simp [Component.isLe, Component.key, Prod.Lex.le_iff]

theorem isLeSteps_iff {as bs : List Component} :
    isLeSteps as bs ↔ as.map Component.key ≤ bs.map Component.key := by
  induction as generalizing bs with
  | nil => simp [isLeSteps, ← not_lt]
  | cons a as ih =>
    cases bs with
    | nil => simp [isLeSteps, ← not_lt]
    | cons b bs =>
      rw [isLeSteps, List.map_cons, List.map_cons, ← not_lt, List.cons_lt_cons_iff]
      by_cases hab : a = b
      · simp [hab, ih]
      · have hkey : b.key ≠ a.key := fun h => hab (Component.key_injective h).symm
        simp [hab, hkey, Component.isLe_iff]

theorem Component.isLe_name_iff {a b : String} : (Component.name a).isLe (.name b) ↔ a ≤ b := by
  simp only [isLe, rank, text, Nat.lt_irrefl, decide_false, decide_true, Bool.false_or,
    Bool.true_and]
  exact decide_eq_true_iff

theorem isLeSteps_map_name {as bs : List String} :
    isLeSteps (as.map .name) (bs.map .name) ↔ as ≤ bs := by
  induction as generalizing bs with
  | nil => simp [isLeSteps, ← not_lt]
  | cons a as ih =>
    cases bs with
    | nil => simp [isLeSteps, ← not_lt]
    | cons b bs =>
      rw [List.map_cons, List.map_cons, isLeSteps, ← not_lt, List.cons_lt_cons_iff]
      by_cases hab : a = b
      · simp [hab, ih]
      · rw [if_neg (by simpa using hab), Component.isLe_name_iff]
        simp only [Ne.symm hab, false_and, or_false, not_lt]

theorem isLeSteps_append_left (steps as bs : List Component) :
    isLeSteps (steps ++ as) (steps ++ bs) = isLeSteps as bs := by
  induction steps with
  | nil => rfl
  | cons a steps ih => rw [List.cons_append, List.cons_append, isLeSteps, if_pos rfl, ih]

section Order

variable {a b c : String}

theorem isLe_total (a b : String) : isLe a b || isLe b a := by
  rw [Bool.or_eq_true, isLe, isLe, isLeSteps_iff, isLeSteps_iff]
  exact le_total _ _

theorem isLe_trans (hab : isLe a b) (hbc : isLe b c) : isLe a c :=
  isLeSteps_iff.mpr (le_trans (isLeSteps_iff.mp hab) (isLeSteps_iff.mp hbc))

theorem components_eq_of_isLe (hab : isLe a b) (hba : isLe b a) : components a = components b :=
  List.map_injective_iff.mpr Component.key_injective
    (le_antisymm (isLeSteps_iff.mp hab) (isLeSteps_iff.mp hba))

end Order

def Precedes (a b : String) : Prop := isLe a b ∧ components a ≠ components b

section Repeated

variable {paths : List String}

theorem dropRepeated_sublist (paths : List String) : (dropRepeated paths).Sublist paths := by
  fun_induction dropRepeated paths with
  | case1 a b rest hsame ih => exact ih.trans (.cons_cons a (List.sublist_cons_self b rest))
  | case2 a b rest _ ih => exact ih.cons_cons a
  | case3 => exact List.Sublist.refl _

theorem exists_mem_dropRepeated (paths : List String) :
    ∀ p ∈ paths, ∃ q ∈ dropRepeated paths, components q = components p := by
  fun_induction dropRepeated paths with
  | case1 a b rest hsame ih =>
    rw [List.forall_mem_cons] at ih ⊢
    exact ⟨ih.1, List.forall_mem_cons.mpr ⟨hsame ▸ ih.1, ih.2⟩⟩
  | case2 a b rest _ ih =>
    refine List.forall_mem_cons.mpr ⟨⟨a, List.mem_cons_self, rfl⟩, fun p hp => ?_⟩
    obtain ⟨q, hq, heq⟩ := ih p hp
    exact ⟨q, List.mem_cons_of_mem a hq, heq⟩
  | case3 => exact fun p hp => ⟨p, hp, rfl⟩

theorem pairwise_dropRepeated (h : paths.Pairwise (isLe · ·)) :
    (dropRepeated paths).Pairwise Precedes := by
  fun_induction dropRepeated paths with
  | case1 a b rest hsame ih =>
    exact ih (h.sublist (.cons_cons a (List.sublist_cons_self b rest)))
  | case2 a b rest hdiffer ih =>
    obtain ⟨ha, hrest⟩ := List.pairwise_cons.mp h
    refine List.pairwise_cons.mpr ⟨fun c hc => ?_, ih hrest⟩
    have hc := (dropRepeated_sublist _).subset hc
    refine ⟨ha c hc, fun hac => hdiffer ?_⟩
    -- Anything past `b` with the steps of `a` would put `b` before `a` as well.
    have hbc : isLe b c := by
      rcases List.mem_cons.mp hc with rfl | hc
      · exact isLeSteps_iff.mpr le_rfl
      · exact (List.pairwise_cons.mp hrest).1 c hc
    refine components_eq_of_isLe (ha b List.mem_cons_self) ?_
    rwa [isLe, hac]
  | case3 l hl =>
    cases l with
    | nil => exact .nil
    | cons a rest =>
      cases rest with
      | nil => exact List.pairwise_singleton _ _
      | cons b rest => exact absurd rfl (hl a b rest)

theorem pairwise_sorted (paths : List String) : (sorted paths).Pairwise Precedes :=
  pairwise_dropRepeated
    (List.pairwise_mergeSort (fun a b c => isLe_trans (a := a) (b := b) (c := c)) isLe_total paths)

theorem mem_of_mem_sorted {p : String} (h : p ∈ sorted paths) : p ∈ paths :=
  List.mem_mergeSort.mp ((dropRepeated_sublist _).subset h)

theorem mem_sorted_iff (h : ∀ p ∈ paths, ∀ q ∈ paths, components p = components q → p = q)
    {p : String} : p ∈ sorted paths ↔ p ∈ paths := by
  refine ⟨mem_of_mem_sorted, fun hp => ?_⟩
  obtain ⟨q, hq, heq⟩ := exists_mem_dropRepeated _ p (List.mem_mergeSort.mpr hp)
  exact h q (mem_of_mem_sorted hq) p hp heq ▸ hq

end Repeated

def pieces (path : String) : List String := (Text.splitOn '/' path.toList).map String.ofList

theorem pieces_ne_nil (path : String) : pieces path ≠ [] := by
  simp [pieces, Text.splitOn_ne_nil]

theorem pieces_slash (front back : String) :
    pieces (front ++ "/" ++ back) = pieces front ++ pieces back := by
  simp [pieces, Text.splitOn_append]

theorem pieces_of_not_mem {name : String} (h : '/' ∉ name.toList) : pieces name = [name] := by
  simp [pieces, Text.splitOn_of_not_mem h]

theorem not_mem_of_mem_pieces {path piece : String} (h : piece ∈ pieces path) :
    '/' ∉ piece.toList := by
  obtain ⟨s, hs, rfl⟩ := List.mem_map.mp h
  obtain ⟨-, -, -, hslash, -⟩ := Text.mem_splitOn_iff.mp hs
  simpa using hslash

theorem startsWith_slash_iff {path : String} :
    path.startsWith "/" ↔ path.toList.head? = some '/' := by
  rw [String.startsWith_string_iff]
  cases path.toList <;> simp [eq_comm]

theorem endsWith_slash_iff {path : String} :
    path.endsWith "/" ↔ ∃ front, path = front ++ "/" := by
  rw [String.endsWith_eq_endsWith_toSlice, String.Slice.endsWith_string_iff, String.copy_toSlice]
  constructor
  · rintro ⟨s, hs⟩
    exact ⟨String.ofList s, String.toList_injective (by simp [← hs])⟩
  · rintro ⟨front, rfl⟩
    exact ⟨front.toList, by simp⟩

end Path

structure IsName (name : String) : Prop where
  ne_empty : name ≠ ""
  ne_here : name ≠ "."
  ne_up : name ≠ ".."
  slash : '/' ∉ name.toList
  zero : '\x00' ∉ name.toList
  size : name.utf8ByteSize ≤ Tree.nameLimit

structure IsWay (names : List String) : Prop where
  ne_nil : names ≠ []
  isName : ∀ name ∈ names, IsName name

instance : DecidablePred IsName := fun name =>
  decidable_of_iff (name ≠ "" ∧ name ≠ "." ∧ name ≠ ".." ∧ '/' ∉ name.toList ∧
      '\x00' ∉ name.toList ∧ name.utf8ByteSize ≤ Tree.nameLimit)
    ⟨fun ⟨hempty, hhere, hup, hslash, hzero, hsize⟩ => ⟨hempty, hhere, hup, hslash, hzero, hsize⟩,
      fun h => ⟨h.ne_empty, h.ne_here, h.ne_up, h.slash, h.zero, h.size⟩⟩

namespace Path

open Glob (extend here)

section Extend

variable {path name : String}

theorem extend_here (name : String) : extend here name = name := if_pos rfl

theorem extend_empty (name : String) : extend "" name = name := by
  simp [extend, here, join]

theorem exists_extend_eq (hpath : path ≠ "") (hhere : path ≠ here) (hname : '/' ∉ name.toList) :
    ∃ front, (path = front ∨ path = front ++ "/") ∧ extend path name = front ++ "/" ++ name := by
  have hslash : name.startsWith "/" = false := by
    rw [← Bool.not_eq_true, startsWith_slash_iff]
    exact fun hhead => hname (List.mem_of_head? hhead)
  have hempty : path.isEmpty = false := by simpa using hpath
  rw [extend, if_neg hhere, join, hslash, hempty]
  by_cases hend : path.endsWith "/"
  · obtain ⟨front, rfl⟩ := endsWith_slash_iff.mp hend
    exact ⟨front, .inr rfl, by simp [hend]⟩
  · exact ⟨path, .inl rfl, by simp [hend]⟩

theorem startsWith_extend (path : String) (hname : '/' ∉ name.toList) :
    (extend path name).startsWith "/" = path.startsWith "/" := by
  have hhead : name.toList.head? ≠ some '/' := fun hhead => hname (List.mem_of_head? hhead)
  rw [Bool.eq_iff_iff, startsWith_slash_iff, startsWith_slash_iff]
  by_cases hhere : path = here
  · rw [hhere, extend_here]
    exact iff_of_false hhead (by decide)
  by_cases hempty : path = ""
  · rw [hempty, extend_empty]
    exact iff_of_false hhead (by simp)
  obtain ⟨front, hfront, heq⟩ := exists_extend_eq hempty hhere hname
  rw [heq]
  rcases hfront with rfl | rfl
  · have hne : path.toList ≠ [] := fun hnil => hempty (String.toList_eq_nil_iff.mp hnil)
    obtain ⟨c, s, hs⟩ := List.exists_cons_of_ne_nil hne
    simp [hs]
  · cases hs : front.toList <;> simp [hs]

theorem slash_mem_extend (hpath : path ≠ "") (hhere : path ≠ here) (hname : '/' ∉ name.toList) :
    '/' ∈ (extend path name).toList := by
  obtain ⟨front, -, heq⟩ := exists_extend_eq hpath hhere hname
  simp [heq]

theorem extend_ne_here (hpath : path ≠ "") (hname : '/' ∉ name.toList)
    (h : path = here → name ≠ here) : extend path name ≠ here := by
  by_cases hhere : path = here
  · rw [hhere, extend_here]
    exact h hhere
  · intro heq
    have hmem := slash_mem_extend hpath hhere hname
    rw [heq] at hmem
    revert hmem
    decide

theorem extend_ne_empty (hpath : path ≠ "") (hname : '/' ∉ name.toList)
    (h : path = here → name ≠ "") : extend path name ≠ "" := by
  by_cases hhere : path = here
  · rw [hhere, extend_here]
    exact h hhere
  · intro heq
    have hmem := slash_mem_extend hpath hhere hname
    rw [heq] at hmem
    cases hmem

theorem exists_pieces_extend (hpath : path ≠ "") (hhere : path ≠ here)
    (hname : '/' ∉ name.toList) : ∃ front blank, front ≠ [] ∧ pieces path = front ++ blank ∧
      pieces (extend path name) = front ++ [name] ∧ ∀ piece ∈ blank, piece = "" := by
  obtain ⟨front, hfront, heq⟩ := exists_extend_eq hpath hhere hname
  have hextend : pieces (extend path name) = pieces front ++ [name] := by
    rw [heq, pieces_slash, pieces_of_not_mem hname]
  rcases hfront with rfl | rfl
  · exact ⟨pieces path, [], pieces_ne_nil path, by simp, hextend, by simp⟩
  · refine ⟨pieces front, [""], pieces_ne_nil front, ?_, hextend, by simp⟩
    rw [← String.append_empty (s := front ++ "/"), pieces_slash]
    rfl

theorem eq_empty_of_pieces_eq (h : pieces path = [""]) : path = "" := by
  obtain ⟨s, hs, hempty⟩ : ∃ s, Text.splitOn '/' path.toList = [s] ∧ String.ofList s = "" := by
    simpa [pieces, List.map_eq_singleton_iff] using h
  obtain ⟨hpath, -⟩ := Text.splitOn_eq_cons_iff.mp hs
  apply String.toList_injective
  rw [hpath, ← hempty]
  simp

end Extend

section Components

variable {base path name : String} {names : List String}

def startStep : List String → List Component
  | "" :: _ :: _ => [.root]
  | "." :: _ => [.here]
  | _ => []

def step? (piece : String) : Option Component :=
  if piece = "" || piece = "." then none else if piece = ".." then some .up else some (.name piece)

theorem components_eq (path : String) :
    components path = startStep (pieces path) ++ (pieces path).filterMap step? := rfl

theorem step?_name (hname : IsName name) : step? name = some (.name name) := by
  simp [step?, hname.ne_empty, hname.ne_here, hname.ne_up]

theorem startStep_cons (piece : String) (rest : List String) : startStep (piece :: rest) =
    if piece = "" ∧ rest ≠ [] then [.root] else if piece = "." then [.here] else [] := by
  cases rest <;> simp only [startStep] <;> split <;> simp_all

theorem startStep_append {front back back' : List String} (hfront : front ≠ [])
    (hback : front = [""] → back ≠ []) (hback' : back' ≠ []) :
    startStep (front ++ back) = startStep (front ++ back') := by
  obtain ⟨piece, rest, rfl⟩ := List.exists_cons_of_ne_nil hfront
  have hroot : piece = "" ∧ rest ++ back ≠ [] ↔ piece = "" ∧ rest ++ back' ≠ [] := by
    refine and_congr_right fun hpiece => iff_of_true (fun hnil => ?_) (by simp [hback'])
    obtain ⟨rfl, hnone⟩ := List.append_eq_nil_iff.mp hnil
    exact hback (by rw [hpiece]) hnone
  simp only [List.cons_append, startStep_cons, hroot]

theorem components_extend_here (hname : IsName name) :
    components (extend here name) = [.name name] := by
  have hstart : startStep [name] = [] := by simp [startStep_cons, hname.ne_here]
  rw [extend_here, components_eq, pieces_of_not_mem hname.slash, hstart]
  simp [step?_name hname]

theorem components_extend (hpath : path ≠ "") (hhere : path ≠ here) (hname : IsName name) :
    components (extend path name) = components path ++ [.name name] := by
  obtain ⟨front, blank, hfront, hpieces, hextend, hblank⟩ :=
    exists_pieces_extend hpath hhere hname.slash
  have hskip : blank.filterMap step? = [] :=
    List.filterMap_eq_nil_iff.mpr fun piece hpiece => by simp [hblank piece hpiece, step?]
  have hstart : startStep (front ++ blank) = startStep (front ++ [name]) := by
    refine startStep_append hfront (fun hroot hnone => hpath ?_) (by simp)
    exact eq_empty_of_pieces_eq (by rw [hpieces, hroot, hnone, List.append_nil])
  rw [components_eq, components_eq, hpieces, hextend, hstart, List.filterMap_append,
    List.filterMap_append, hskip, List.append_nil]
  simp [step?_name hname]

def descend (base : String) (names : List String) : String := names.foldl extend base

theorem components_descend (hbase : base ≠ "") (hhere : base ≠ here)
    (hnames : ∀ name ∈ names, IsName name) :
    components (descend base names) = components base ++ names.map .name := by
  induction names generalizing base with
  | nil => simp [descend]
  | cons name names ih =>
    obtain ⟨hname, hnames⟩ := List.forall_mem_cons.mp hnames
    have hslash := hname.slash
    have hne := ih (extend_ne_empty hbase hslash (absurd · hhere))
      (extend_ne_here hbase hslash (absurd · hhere)) hnames
    rw [descend, List.foldl_cons, ← descend, hne, components_extend hbase hhere hname]
    simp

theorem exists_components_descend (hbase : base ≠ "") : ∃ front : List Component, ∀ names,
    IsWay names → components (descend base names) = front ++ names.map .name := by
  by_cases hhere : base = here
  · refine ⟨[], fun names hway => ?_⟩
    obtain ⟨name, names, rfl⟩ := List.exists_cons_of_ne_nil hway.ne_nil
    obtain ⟨hname, hnames⟩ := List.forall_mem_cons.mp hway.isName
    rw [descend, List.foldl_cons, ← descend, hhere,
      components_descend (extend_ne_empty (by decide) hname.slash fun _ => hname.ne_empty)
        (extend_ne_here (by decide) hname.slash fun _ => hname.ne_here) hnames,
      components_extend_here hname]
    rfl
  · exact ⟨components base, fun names hway => components_descend hbase hhere hway.isName⟩

variable {names' : List String}

theorem components_descend_inj (hbase : base ≠ "") (hnames : IsWay names)
    (hnames' : IsWay names') :
    components (descend base names) = components (descend base names') ↔ names = names' := by
  obtain ⟨front, hfront⟩ := exists_components_descend hbase
  rw [hfront names hnames, hfront names' hnames', List.append_cancel_left_eq]
  exact (List.map_injective_iff.mpr fun _ _ => Component.name.inj).eq_iff

theorem precedes_descend_iff (hbase : base ≠ "") (hnames : IsWay names) (hnames' : IsWay names') :
    Precedes (descend base names) (descend base names') ↔ names < names' := by
  have hinj := components_descend_inj hbase hnames hnames'
  obtain ⟨front, hfront⟩ := exists_components_descend hbase
  rw [Precedes, ne_eq, hinj, isLe, hfront names hnames, hfront names' hnames',
    isLeSteps_append_left, isLeSteps_map_name, lt_iff_le_and_ne]

end Components

section Routes

variable {path base name : String} {names : List String} {c : Char}

def start (path : String) : String := if path.startsWith "/" then "/" else here

def route (path : String) : List String :=
  if path.startsWith "/" then (pieces path).tail else pieces path

def rewritten (path : String) : String := descend (start path) (route path)

def startsEmpty : List String → Bool
  | "" :: _ => true
  | "." :: rest => startsEmpty rest
  | _ => false

/-- From the working directory such a path comes to an empty name at once, as `./` and `.//w` do. -/
def LosesWay (path : String) : Prop := path.toList.head? ≠ some '/' ∧ startsEmpty (pieces path)

instance : DecidablePred LosesWay := fun path =>
  inferInstanceAs (Decidable (path.toList.head? ≠ some '/' ∧ startsEmpty (pieces path)))

theorem pieces_eq_of_startsWith (h : path.startsWith "/") :
    ∃ rest ≠ [], pieces path = "" :: rest := by
  obtain ⟨s, hs⟩ := List.head?_eq_some_iff.mp (startsWith_slash_iff.mp h)
  have hpath : path = "" ++ "/" ++ String.ofList s := String.toList_injective (by simp [hs])
  exact ⟨pieces (String.ofList s), pieces_ne_nil _, by rw [hpath, pieces_slash]; rfl⟩

theorem startsWith_of_pieces_eq {rest : List String} (h : pieces path = "" :: rest)
    (hpath : path ≠ "") : path.startsWith "/" := by
  obtain ⟨first, later, hsplit, hfirst, -⟩ := List.map_eq_cons_iff.mp h
  obtain rfl : first = [] := by simpa using hfirst
  obtain ⟨hs, -⟩ := Text.splitOn_eq_cons_iff.mp hsplit
  cases later with
  | nil => exact absurd (String.toList_eq_nil_iff.mp (by simpa using hs)) hpath
  | cons piece later => rw [startsWith_slash_iff, hs]; rfl

theorem mem_of_mem_pieces {piece : String} (h : piece ∈ pieces path) (hc : c ∈ piece.toList) :
    c ∈ path.toList := by
  obtain ⟨s, hs, rfl⟩ := List.mem_map.mp h
  obtain ⟨before, after, heq, -⟩ := Text.mem_splitOn_iff.mp hs
  rw [heq]
  exact List.mem_append_left _ (List.mem_append_right _ (by simpa using hc))

theorem mem_pieces_of_mem_route {piece : String} (h : piece ∈ route path) :
    piece ∈ pieces path := by
  rw [route] at h
  split at h
  · exact List.mem_of_mem_tail h
  · exact h

theorem mem_of_mem_extend (hc : c ≠ '/') (hname : '/' ∉ name.toList)
    (h : c ∈ (extend path name).toList) : c ∈ path.toList ∨ c ∈ name.toList := by
  by_cases hhere : path = here
  · rw [hhere, extend_here] at h
    exact .inr h
  by_cases hempty : path = ""
  · rw [hempty, extend_empty] at h
    exact .inr h
  obtain ⟨front, hfront, heq⟩ := exists_extend_eq hempty hhere hname
  rw [heq] at h
  rcases hfront with rfl | rfl <;> simpa [hc] using h

theorem mem_of_mem_descend (hc : c ≠ '/') (hnames : ∀ name ∈ names, '/' ∉ name.toList)
    (h : c ∈ (descend base names).toList) : c ∈ base.toList ∨ ∃ name ∈ names, c ∈ name.toList := by
  induction names generalizing base with
  | nil => exact .inl h
  | cons name names ih =>
    obtain ⟨hname, hnames⟩ := List.forall_mem_cons.mp hnames
    rw [List.exists_mem_cons_iff]
    rcases ih hnames h with hbase | hrest
    · rcases mem_of_mem_extend hc hname hbase with hbase | hname
      · exact .inl hbase
      · exact .inr (.inl hname)
    · exact .inr (.inr hrest)

theorem descend_ne_empty (hbase : base ≠ "") (hnames : ∀ name ∈ names, IsName name) :
    descend base names ≠ "" := by
  induction names generalizing base with
  | nil => exact hbase
  | cons name names ih =>
    obtain ⟨hname, hnames⟩ := List.forall_mem_cons.mp hnames
    exact ih (extend_ne_empty hbase hname.slash fun _ => hname.ne_empty) hnames

end Routes

end Path

end WorkflowAudit.Files
