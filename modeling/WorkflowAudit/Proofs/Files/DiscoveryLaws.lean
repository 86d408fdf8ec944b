import WorkflowAudit.Hosting.Service
import WorkflowAudit.Proofs.Files.GlobLaws

namespace WorkflowAudit.Files

open Hosting (isDefinitionFile)
open WorkflowAudit.Files.Glob (Part isPlain)
open WorkflowAudit.Files.Path (LosesWay descend pieces rewritten)

def EndsAsDefinition (name : String) : Prop :=
  ".yml".toList <:+ name.toList ∨ ".yaml".toList <:+ name.toList

def Tree.HasDefinition (t : Tree) (names : List String) : Prop :=
  t.HasFile names ∧ ∃ last, names.getLast? = some last ∧ EndsAsDefinition last

/-- A file is found as what it is. Below a directory are found, by one spelling of its path, the
files that end as definitions, in the strict order of the names that lead to them. -/
def DiscoversExactly (s : Store) (path : String) : Tree → Prop
  | .file _ => (discover path).runWith Store.answer s = (.ok [path], s)
  | .directory children => ∃ (base : String) (listed : List (List String)),
      s.Spells base path (.directory children) ∧
      (discover path).runWith Store.answer s = (.ok (listed.map (descend base)), s) ∧
      listed.Pairwise (· < ·) ∧
      ∀ names, names ∈ listed ↔ (Tree.directory children).HasDefinition names

def ListsSelected (Selected : String → Prop) (s : Store) (path : String) (t : Tree) : Prop :=
  ∃ (base : String) (files : List String), s.Spells base path t ∧
    (discover path).runWith Store.answer s = (.ok files, s) ∧
    ∀ names last, t.HasFile names → names.getLast? = some last →
      (descend base names ∈ files ↔ Selected last)

section Discovery

variable {s : Store} {path : String} {t : Tree} {children : List (String × Tree)}

theorem asksOnly_findFiles (patterns : List (List Part)) :
    Dialogue.AsksOnly Question.IsLayout (findFiles patterns) := by
  refine (Dialogue.AsksOnly.forEach (fun parts => ?_) patterns).bind fun _ => .done
  dsimp only
  split
  · exact .done
  · exact .ask trivial fun layout => by cases layout <;> exact .done

theorem asksOnly_discover (path : String) :
    Dialogue.AsksOnly Question.IsLayout (discover path) := by
  refine .ask trivial fun layout => ?_
  match layout with
  | none => exact .done
  | some .file => exact .done
  | some (.directory _) =>
    dsimp only
    split
    · exact .done
    · exact (asksOnly_findFiles _).bind fun _ => .done

theorem runWith_discover_of_file {bytes : ByteArray} (h : s.find path = .ok (.file bytes)) :
    (discover path).runWith Store.answer s = (.ok [path], s) := by
  rw [runWith_of_asksOnly (asksOnly_discover path), discover, Dialogue.answeredBy,
    Store.answer_layout, h]
  rfl

def partsBelow (path extension : String) : List Part :=
  (pieces path).map .literal ++ [.deep, .wild (Glob.endingIn ('.' :: extension.toList))]

theorem mapM_parts?_eq (hplain : ∀ c ∈ path.toList, isPlain c) :
    (["yml", "yaml"].mapM fun extension => Glob.parts? (patternBelow path extension)) =
      some (["yml", "yaml"].map (partsBelow path)) := by
  have hextensions : ∀ extension ∈ ["yml", "yaml"],
      extension.toList.all isPlain ∧ '/' ∉ extension.toList := by decide
  refine mapM_eq_some fun extension hextension => ?_
  obtain ⟨hextension, hslash⟩ := hextensions extension hextension
  exact Glob.parts?_patternBelow hplain (List.all_eq_true.mp hextension) hslash

def findByPattern (parts : List Part) : Dialogue (List String) :=
  let (start, parts) := patternStart parts
  match Glob.literalStart start parts with
  | none => .done []
  | some (base, parts) => .ask (.layout base) fun
    | none => .done []
    | some layout => .done (Glob.filePaths (Glob.expand parts ⟨base, layout, []⟩))

theorem findFiles_eq (patterns : List (List Part)) : findFiles patterns =
    (Dialogue.forEach findByPattern patterns).bind fun l => .done l.flatten := rfl

theorem mem_findByPattern_iff (h : s.find path = .ok t) {extension p : String} :
    p ∈ (findByPattern (partsBelow path extension)).answeredBy (fun q => (Store.answer q s).1) ↔
      ¬LosesWay path ∧ ∃ names last, t.HasFile names ∧ names.getLast? = some last ∧
        '.' :: extension.toList <:+ last.toList ∧
        p = descend (rewritten path) names := by
  obtain ⟨hpath, -⟩ := Store.find_eq_ok_iff.mp h
  have hrest : ∀ name more, [.deep, .wild (Glob.endingIn ('.' :: extension.toList))] ≠
      Part.literal name :: more := by simp
  have hstart := Glob.literalStart_route hrest path
  rw [findByPattern, partsBelow, Glob.patternStart_literals hpath]
  dsimp only
  by_cases hlost : LosesWay path
  · rw [if_pos hlost] at hstart
    rw [hstart]
    exact iff_of_false List.not_mem_nil fun hway => hway.1 hlost
  · rw [if_neg hlost] at hstart
    obtain ⟨hbase, hne⟩ := hstart
    rw [hbase, and_iff_right hlost]
    dsimp only
    rw [Dialogue.answeredBy, Store.answer_layout, Store.find_rewritten h hne]
    exact Glob.mem_filePaths_iff

def foundBelow (s : Store) (path : String) : List String :=
  (findFiles (["yml", "yaml"].map (partsBelow path))).answeredBy fun q => (Store.answer q s).1

theorem mem_foundBelow_iff (h : s.find path = .ok t) {p : String} : p ∈ foundBelow s path ↔
    ¬LosesWay path ∧ ∃ names, t.HasDefinition names ∧ p = descend (rewritten path) names := by
  rw [foundBelow, findFiles_eq, Dialogue.answeredBy_bind, Dialogue.answeredBy_forEach,
    Dialogue.answeredBy]
  simp only [List.map_cons, List.map_nil, List.flatten_cons, List.flatten_nil, List.append_nil,
    List.mem_append, mem_findByPattern_iff h]
  rw [← and_or_left]
  refine and_congr_right fun _ => ?_
  constructor
  · rintro (⟨names, last, hfile, hlast, hends, hp⟩ | ⟨names, last, hfile, hlast, hends, hp⟩)
    · exact ⟨names, ⟨hfile, last, hlast, .inl hends⟩, hp⟩
    · exact ⟨names, ⟨hfile, last, hlast, .inr hends⟩, hp⟩
  · rintro ⟨names, ⟨hfile, last, hlast, hends | hends⟩, hp⟩
    · exact .inl ⟨names, last, hfile, hlast, hends, hp⟩
    · exact .inr ⟨names, last, hfile, hlast, hends, hp⟩

theorem runWith_discover_of_directory {patterns : List (List Part)}
    (h : s.find path = .ok (.directory children))
    (hparts : (["yml", "yaml"].mapM fun extension => Glob.parts? (patternBelow path extension)) =
      some patterns) :
    (discover path).runWith Store.answer s =
      (.ok (Path.sorted ((findFiles patterns).answeredBy fun q => (Store.answer q s).1)), s) := by
  rw [runWith_of_asksOnly (asksOnly_discover path), discover, Dialogue.answeredBy,
    Store.answer_layout, h, hparts]
  dsimp only [Except.toOption, Option.map_some, Tree.layout]
  rw [Dialogue.answeredBy_bind]
  rfl

section Listed

variable (h : s.find path = .ok t) (ht : t.WellNamed) (hbase : rewritten path ≠ "")
  {names : List String}

include ht

theorem Tree.HasFile.isWay {last : String} (hfile : t.HasFile names)
    (hlast : names.getLast? = some last) : IsWay names := by
  obtain ⟨bytes, hleads⟩ := hfile
  refine ⟨?_, hleads.isName ht⟩
  rintro rfl
  cases hlast

theorem Tree.HasDefinition.isWay (hnames : t.HasDefinition names) : IsWay names := by
  obtain ⟨hfile, last, hlast, -⟩ := hnames
  exact hfile.isWay ht hlast

include h hbase

theorem mem_sorted_foundBelow_iff {p : String} :
    p ∈ Path.sorted (foundBelow s path) ↔ p ∈ foundBelow s path := by
  refine Path.mem_sorted_iff fun p hp q hq heq => ?_
  obtain ⟨-, names, hnames, rfl⟩ := (mem_foundBelow_iff h).mp hp
  obtain ⟨-, names', hnames', rfl⟩ := (mem_foundBelow_iff h).mp hq
  rw [(Path.components_descend_inj hbase (hnames.isWay ht) (hnames'.isWay ht)).mp heq]

theorem descend_mem_sorted_foundBelow_iff (hway : ¬LosesWay path) (hnames : IsWay names) :
    descend (rewritten path) names ∈ Path.sorted (foundBelow s path) ↔ t.HasDefinition names := by
  rw [mem_sorted_foundBelow_iff h ht hbase, mem_foundBelow_iff h, and_iff_right hway]
  constructor
  · rintro ⟨names', hnames', hp⟩
    obtain rfl :=
      (Path.components_descend_inj hbase hnames (hnames'.isWay ht)).mp (congrArg _ hp)
    exact hnames'
  · exact fun hdefinition => ⟨names, hdefinition, rfl⟩

theorem exists_listed (hway : ¬LosesWay path) : ∃ listed : List (List String),
    Path.sorted (foundBelow s path) = listed.map (descend (rewritten path)) ∧
      listed.Pairwise (· < ·) ∧ ∀ names, names ∈ listed ↔ t.HasDefinition names := by
  let pathTo (names : { names // t.HasDefinition names }) : String := descend (rewritten path) names
  obtain ⟨l, hl⟩ : Path.sorted (foundBelow s path) ∈ Set.range (List.map pathTo) := by
    rw [Set.range_list_map]
    intro p hp
    obtain ⟨-, names, hnames, rfl⟩ := (mem_foundBelow_iff h).mp (Path.mem_of_mem_sorted hp)
    exact ⟨⟨names, hnames⟩, rfl⟩
  refine ⟨l.map Subtype.val, by rw [List.map_map, ← hl]; rfl, ?_,
    fun names => ⟨fun hmem => ?_, fun hnames => ?_⟩⟩
  · have hpairs := Path.pairwise_sorted (foundBelow s path)
    rw [← hl, List.pairwise_map] at hpairs
    exact List.pairwise_map.mpr (hpairs.imp fun {names names'} =>
      (Path.precedes_descend_iff hbase (names.2.isWay ht) (names'.2.isWay ht)).mp)
  · obtain ⟨names, -, rfl⟩ := List.mem_map.mp hmem
    exact names.2
  · have hmem := (descend_mem_sorted_foundBelow_iff h ht hbase hway (hnames.isWay ht)).mpr hnames
    rw [← hl] at hmem
    obtain ⟨names', hmem', hp⟩ := List.mem_map.mp hmem
    refine List.mem_map.mpr ⟨names', hmem', ?_⟩
    exact (Path.components_descend_inj hbase (names'.2.isWay ht) (hnames.isWay ht)).mp
      (congrArg _ hp)

end Listed

theorem rewritten_ne_empty (hway : ¬LosesWay path) : rewritten path ≠ "" := by
  have hrest : ∀ name more, [] ≠ Part.literal name :: more := by simp
  have hstart := Glob.literalStart_route hrest path
  rw [if_neg hway] at hstart
  exact hstart.2

end Discovery

theorem discoversExactly_of_isPlain (s : Store) (path : String) (t : Tree) (h : s.find path = .ok t)
    (ht : t.WellNamed)
    (hpath : (∃ bytes, t = .file bytes) ∨ (∀ c ∈ path.toList, isPlain c) ∧ ¬LosesWay path) :
    DiscoversExactly s path t := by
  cases t with
  | file bytes => exact runWith_discover_of_file h
  | directory children =>
    obtain ⟨hplain, hway⟩ := hpath.resolve_left fun ⟨_, hfile⟩ => nomatch hfile
    have hbase := rewritten_ne_empty hway
    obtain ⟨listed, heq, hsorted, hlisted⟩ := exists_listed h ht hbase hway
    refine ⟨rewritten path, listed, Store.spells_rewritten h ht hbase, ?_, hsorted, hlisted⟩
    rw [runWith_discover_of_directory h (mapM_parts?_eq hplain), ← heq, foundBelow]

def storeOf (name : String) (t : Tree) : Store := { root := .directory [(name, t)], working := [] }

theorem find_here_storeOf (name : String) (t : Tree) :
    (storeOf name t).find Glob.here = .ok (.directory [(name, t)]) :=
  Store.find_eq_ok_iff.mpr ⟨by decide, by decide, [], by rw [Store.steps_here]; rfl⟩

theorem find_storeOf {name : String} {t : Tree} (hname : IsName name) (ht : t.WellNamed) :
    (storeOf name t).find name = .ok t := by
  have hroot : (Tree.directory [(name, t)]).WellNamed :=
    .directory (List.nodup_singleton name) (by simpa using hname) (by simpa using ht)
  have h := Store.find_descend (find_here_storeOf name t) hroot
    (.down (List.mem_singleton_self _) .here)
  rwa [descend, List.foldl_cons, Path.extend_here] at h

def sampleTree : Tree :=
  .directory [("n", .directory [("b.yaml", .file "on: push\n".toUTF8)]), ("d.md", .file ⟨#[]⟩)]

theorem wellNamed_sampleTree : sampleTree.WellNamed := by
  refine .directory (by decide) (by decide) ?_
  simp only [List.forall_mem_cons, List.not_mem_nil, false_imp_iff, implies_true, and_true]
  refine ⟨.directory (by decide) (by decide) ?_, .file⟩
  simpa using .file

theorem discoversExactly_sampleTree : ∃ (base : String) (listed : List (List String)),
    (discover "w").runWith Store.answer (storeOf "w" sampleTree) =
      (.ok (listed.map (descend base)), storeOf "w" sampleTree) ∧ ["n", "b.yaml"] ∈ listed := by
  obtain ⟨base, listed, -, hrun, -, hlisted⟩ := discoversExactly_of_isPlain (storeOf "w" sampleTree)
    "w" sampleTree (find_storeOf (by decide) wellNamed_sampleTree) wellNamed_sampleTree
    (.inr ⟨List.all_eq_true.mp (by decide), by decide⟩)
  have hfile : sampleTree.HasFile ["n", "b.yaml"] :=
    ⟨_, .down List.mem_cons_self (.down List.mem_cons_self .here)⟩
  exact ⟨base, listed, hrun, (hlisted _).mpr ⟨hfile, "b.yaml", rfl, .inr (by decide)⟩⟩

def bracketTree : Tree := .directory [("ci.yml", .file "on: push\n".toUTF8)]

theorem wellNamed_bracketTree : bracketTree.WellNamed :=
  .directory (by decide) (by decide) (by simpa using .file)

theorem hasDefinition_bracketTree : bracketTree.HasDefinition ["ci.yml"] :=
  ⟨⟨_, .down (List.mem_singleton_self _) .here⟩, "ci.yml", rfl, .inl (by decide)⟩

def bracketParts (extension : String) : List Part :=
  [.wild [.char 'a', .oneOf [.one 'b']], .deep, .wild (Glob.endingIn ('.' :: extension.toList))]

theorem mapM_parts?_bracketParts :
    (["yml", "yaml"].mapM fun extension => Glob.parts? (patternBelow "a[b]" extension)) =
      some (["yml", "yaml"].map bracketParts) := by
  decide +kernel

theorem findByPattern_bracketParts (extension : String) :
    (findByPattern (bracketParts extension)).answeredBy
      (fun q => (Store.answer q (storeOf "a[b]" bracketTree)).1) = [] := by
  rw [findByPattern, bracketParts]
  dsimp only [patternStart, Glob.literalStart]
  rw [Dialogue.answeredBy, Store.answer_layout, find_here_storeOf]
  rfl

/-- A directory whose name holds brackets is taken for a pattern, under which nothing is found. -/
theorem not_discoversExactly_bracketTree : ¬∀ (s : Store) (path : String) (t : Tree),
    s.find path = .ok t → t.WellNamed → DiscoversExactly s path t := by
  intro h
  have hfind := find_storeOf (by decide : IsName "a[b]") wellNamed_bracketTree
  obtain ⟨base, listed, -, hrun, -, hlisted⟩ := h _ _ _ hfind wellNamed_bracketTree
  have hmem : ["ci.yml"] ∈ listed := (hlisted _).mpr hasDefinition_bracketTree
  rw [runWith_discover_of_directory hfind mapM_parts?_bracketParts, findFiles_eq,
    Dialogue.answeredBy_bind, Dialogue.answeredBy_forEach] at hrun
  simp only [List.map_cons, List.map_nil, findByPattern_bracketParts] at hrun
  have hnil : listed.map (descend base) = [] := by
    rw [← Except.ok.inj (congrArg Prod.fst hrun), List.eq_nil_iff_forall_not_mem]
    exact fun p hp => List.not_mem_nil (Path.mem_of_mem_sorted hp)
  rw [List.map_eq_nil_iff.mp hnil] at hmem
  cases hmem

theorem isDefinitionFile_iff {name : String} : isDefinitionFile name ↔
    EndsAsDefinition (String.ofList (name.toList.map Char.toLower)) := by
  simp [isDefinitionFile, Text.endsLowered, EndsAsDefinition]

theorem isDefinitionFile_of_endsAsDefinition {name : String} (h : EndsAsDefinition name) :
    isDefinitionFile name := by
  have hyml : ".yml".toList.map Char.toLower = ".yml".toList := by decide
  have hyaml : ".yaml".toList.map Char.toLower = ".yaml".toList := by decide
  have hlowered : (String.ofList (name.toList.map Char.toLower)).toList =
      name.toList.map Char.toLower := String.toList_ofList
  rw [isDefinitionFile_iff, EndsAsDefinition, hlowered, ← hyml, ← hyaml]
  exact h.imp (·.map Char.toLower) (·.map Char.toLower)

/-- Of the definition files those are listed whose names end so without capital letters, and none if
the way to them is lost. -/
theorem listsSelected_endsAsDefinition (s : Store) (path : String) (children : List (String × Tree))
    (h : s.find path = .ok (.directory children)) (ht : (Tree.directory children).WellNamed)
    (hplain : ∀ c ∈ path.toList, isPlain c) :
    ListsSelected (fun name => ¬LosesWay path ∧ EndsAsDefinition name) s path
        (.directory children) ∧
      ∀ name, (EndsAsDefinition name → isDefinitionFile name) ∧
        (isDefinitionFile name ↔
          EndsAsDefinition (String.ofList (name.toList.map Char.toLower))) := by
  refine ⟨?_, fun name => ⟨isDefinitionFile_of_endsAsDefinition, isDefinitionFile_iff⟩⟩
  have hrun := runWith_discover_of_directory h (mapM_parts?_eq hplain)
  by_cases hway : LosesWay path
  · refine ⟨path, _, Store.spells_self h ht, hrun, fun names last _ _ => ?_⟩
    refine iff_of_false (fun hmem => ?_) fun hselected => hselected.1 hway
    exact ((mem_foundBelow_iff h).mp (Path.mem_of_mem_sorted hmem)).1 hway
  · have hbase := rewritten_ne_empty hway
    refine ⟨rewritten path, _, Store.spells_rewritten h ht hbase, hrun,
      fun names last hfile hlast => ?_⟩
    refine (descend_mem_sorted_foundBelow_iff h ht hbase hway (hfile.isWay ht hlast)).trans ?_
    constructor
    · rintro ⟨-, last', hlast', hends⟩
      obtain rfl := Option.some.inj (hlast.symm.trans hlast')
      exact ⟨hway, hends⟩
    · rintro ⟨-, hends⟩
      exact ⟨hfile, last, hlast, hends⟩

theorem listsSelected_sampleTree : ∃ (base : String) (files : List String),
    (discover "w").runWith Store.answer (storeOf "w" sampleTree) =
      (.ok files, storeOf "w" sampleTree) ∧
    descend base ["n", "b.yaml"] ∈ files ∧ descend base ["d.md"] ∉ files := by
  obtain ⟨⟨base, files, -, hrun, hfiles⟩, -⟩ :=
    listsSelected_endsAsDefinition (storeOf "w" sampleTree) "w" _
      (find_storeOf (by decide) wellNamed_sampleTree) wellNamed_sampleTree
      (List.all_eq_true.mp (by decide))
  refine ⟨base, files, hrun, (hfiles _ "b.yaml" ?_ rfl).mpr ⟨by decide, .inr (by decide)⟩, ?_⟩
  · exact ⟨_, .down List.mem_cons_self (.down List.mem_cons_self .here)⟩
  · intro hmem
    have hfile : sampleTree.HasFile ["d.md"] :=
      ⟨_, .down (List.mem_cons_of_mem _ List.mem_cons_self) .here⟩
    have hends := ((hfiles _ "d.md" hfile rfl).mp hmem).2
    revert hends
    rw [EndsAsDefinition]
    decide

def capitalTree : Tree := .directory [("CI.YML", .file "on: push\n".toUTF8)]

theorem wellNamed_capitalTree : capitalTree.WellNamed :=
  .directory (by decide) (by decide) (by simpa using .file)

theorem not_hasDefinition_capitalTree (names : List String) :
    ¬capitalTree.HasDefinition names := by
  rintro ⟨hfile, last, hlast, hends⟩
  obtain ⟨e, he, rest, rfl, hrest⟩ := Tree.hasFile_directory_iff.mp hfile
  obtain rfl := List.mem_singleton.mp he
  obtain rfl := Tree.hasFile_file_iff.mp hrest
  obtain rfl := Option.some.inj hlast
  revert hends
  rw [EndsAsDefinition]
  decide

/-- A file whose ending is written in capital letters is a definition file of a service, but is not
listed. -/
theorem not_listsSelected_isDefinitionFile : ¬∀ (s : Store) (path : String)
    (children : List (String × Tree)), s.find path = .ok (.directory children) →
      (Tree.directory children).WellNamed → (∀ c ∈ path.toList, isPlain c) →
      ListsSelected (isDefinitionFile ·) s path (.directory children) := by
  intro h
  have hfind := find_storeOf (by decide : IsName "w") wellNamed_capitalTree
  have hplain : ∀ c ∈ "w".toList, isPlain c := List.all_eq_true.mp (by decide)
  obtain ⟨base, files, -, hrun, hfiles⟩ := h _ "w" _ hfind wellNamed_capitalTree hplain
  have hfile : capitalTree.HasFile ["CI.YML"] := ⟨_, .down (List.mem_singleton_self _) .here⟩
  have hmem := (hfiles ["CI.YML"] "CI.YML" hfile rfl).mpr (by decide)
  rw [runWith_discover_of_directory hfind (mapM_parts?_eq hplain)] at hrun
  rw [← Except.ok.inj (congrArg Prod.fst hrun)] at hmem
  obtain ⟨-, names, hdefinition, -⟩ :=
    (mem_foundBelow_iff hfind).mp (Path.mem_of_mem_sorted hmem)
  exact not_hasDefinition_capitalTree names hdefinition

end WorkflowAudit.Files
