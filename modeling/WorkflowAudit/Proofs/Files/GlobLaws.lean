import WorkflowAudit.Files.Discovery
import WorkflowAudit.Proofs.Files.StoreLaws
import WorkflowAudit.Proofs.TraversalLaws

/-! Patterns for the files below a directory whose path has no character with a meaning of its own:
what their parts are, where they start, and which places they lead to. -/

namespace WorkflowAudit.Files

open WorkflowAudit.Files.Path (LosesWay descend pieces rewritten route start startsEmpty)

namespace Tree

def HasFile (t : Tree) (names : List String) : Prop := ∃ bytes, t.Leads names (.file bytes)

variable {children : List (String × Tree)} {bytes : ByteArray} {t : Tree} {names : List String}

theorem hasFile_file_iff : (Tree.file bytes).HasFile names ↔ names = [] := by
  constructor
  · rintro ⟨_, h⟩
    cases h
    rfl
  · rintro rfl
    exact ⟨bytes, .here⟩

theorem hasFile_directory_iff : (Tree.directory children).HasFile names ↔
    ∃ e ∈ children, ∃ rest, names = e.1 :: rest ∧ e.2.HasFile rest := by
  constructor
  · rintro ⟨bytes, h⟩
    cases h with
    | down hchild hrest => exact ⟨_, hchild, _, rfl, bytes, hrest⟩
  · rintro ⟨e, he, rest, rfl, bytes, hrest⟩
    exact ⟨bytes, .down he hrest⟩

theorem hasFile_nil_iff : t.HasFile [] ↔ t.layout = .file := by
  cases t with
  | file bytes => exact iff_of_true (hasFile_file_iff.mpr rfl) rfl
  | directory children => simp [hasFile_directory_iff, layout]

end Tree

namespace Glob

variable {s ending rest : List Char} {c : Char} {path : String} {names : List String}

def isPlain (c : Char) : Bool := c ≠ '*' && c ≠ '?' && c ≠ '['

theorem tokensFrom_cons (hc : isPlain c) (fuel : Nat) (before : Option Char) :
    tokensFrom (fuel + 1) before (c :: rest) =
      (tokensFrom fuel (some c) rest).map (.char c :: ·) := by
  simp only [isPlain, Bool.and_eq_true, decide_eq_true_eq] at hc
  obtain ⟨⟨hstar, hquestion⟩, hbracket⟩ := hc
  rw [tokensFrom]
  · rw [Option.bind_eq_bind, Option.map_eq_bind]
    rfl
  · rintro _ rfl
    exact absurd rfl hstar
  · rintro rfl
    exact absurd rfl hstar
  · rintro rfl
    exact absurd rfl hquestion
  · rintro rfl
    exact absurd rfl hbracket

theorem tokensFrom_append (hs : ∀ c ∈ s, isPlain c) (fuel : Nat) (before : Option Char) :
    tokensFrom (fuel + s.length) before (s ++ rest) =
      (tokensFrom fuel (s.getLast?.or before) rest).map (s.map .char ++ ·) := by
  induction s generalizing before with
  | nil => simp
  | cons c s ih =>
    obtain ⟨hc, hs⟩ := List.forall_mem_cons.mp hs
    rw [List.length_cons, ← Nat.add_assoc, List.cons_append, tokensFrom_cons hc, ih hs,
      Option.map_map]
    cases hlast : s.getLast? <;> simp [List.getLast?_cons, hlast, Function.comp_def]

theorem tokens?_of_isPlain (hs : ∀ c ∈ s, isPlain c) : tokens? s = some (s.map .char) := by
  have h : tokensFrom (1 + s.length) none (s ++ []) = _ := tokensFrom_append hs 1 none
  rw [List.append_nil] at h
  rw [tokens?, Nat.add_comm, h]
  simp [tokensFrom]

def endingIn (ending : List Char) : List Token := .anyRun :: ending.map .char

theorem isMatch_chars : isMatch (ending.map .char) s ↔ s = ending := by
  induction ending generalizing s with
  | nil => cases s <;> simp [isMatch]
  | cons c ending ih => cases s <;> simp [isMatch, ih]

theorem someRest_iff {isRight : List Char → Bool} :
    isMatch.someRest isRight s ↔ ∃ t, t <:+ s ∧ isRight t := by
  induction s with
  | nil => simp [isMatch.someRest]
  | cons c s ih =>
    simp only [isMatch.someRest, Bool.or_eq_true, ih, List.suffix_cons_iff, or_and_right, exists_or,
      exists_eq_left]

theorem isMatch_endingIn : isMatch (endingIn ending) s ↔ ending <:+ s := by
  rw [endingIn, isMatch, someRest_iff]
  simp [isMatch_chars]

theorem tokensFrom_star (hending : ∀ c ∈ ending, isPlain c) (fuel : Nat) (before : Option Char) :
    tokensFrom (fuel + 1 + ending.length + 1) before ('*' :: ending) = some (endingIn ending) := by
  have h : tokensFrom (fuel + 1 + ending.length) (some '*') (ending ++ []) = _ :=
    tokensFrom_append hending (fuel + 1) (some '*')
  rw [List.append_nil] at h
  rw [tokensFrom, h]
  · simp [tokensFrom, endingIn]
  · rintro rest rfl
    exact absurd (hending '*' List.mem_cons_self) (by decide)

theorem tokens?_star (hending : ∀ c ∈ ending, isPlain c) :
    tokens? ('*' :: ending) = some (endingIn ending) := by
  rw [tokens?, List.length_cons, show ending.length + 1 + 1 = 0 + 1 + ending.length + 1 by omega,
    tokensFrom_star hending]

theorem isSome_tokens?_below (hs : ∀ c ∈ s, isPlain c) (hending : ∀ c ∈ ending, isPlain c) :
    (tokens? (s ++ '/' :: '*' :: '*' :: '/' :: '*' :: ending)).isSome := by
  have hdeep : tokensFrom (2 + 1 + ending.length + 1 + 1) (some '/')
      ('*' :: '*' :: '/' :: '*' :: ending) = some (.anyDirectories :: endingIn ending) := by
    rw [tokensFrom, if_pos (by simp), List.drop_one, List.tail_cons, tokensFrom_star hending]
    rfl
  have hslash : ∀ c ∈ s ++ ['/'], isPlain c :=
    List.forall_mem_append.mpr ⟨hs, List.forall_mem_singleton.mpr (by decide)⟩
  have hlength : (s ++ '/' :: '*' :: '*' :: '/' :: '*' :: ending).length + 1 =
      2 + 1 + ending.length + 1 + 1 + (s ++ ['/']).length := by
    simp only [List.length_append, List.length_cons, List.length_nil]
    omega
  have hbefore : (s ++ ['/']).getLast?.or none = some '/' := by simp
  have hsplit : s ++ '/' :: '*' :: '*' :: '/' :: '*' :: ending =
      s ++ ['/'] ++ '*' :: '*' :: '/' :: '*' :: ending := by simp
  rw [tokens?, hlength, hsplit, tokensFrom_append hslash, hbefore, hdeep]
  rfl

namespace Part

theorem ofTokens_chars (s : List Char) : ofTokens (s.map .char) = .literal (String.ofList s) := by
  have hcontains : (s.map Token.char).contains .anyDirectories = false := by simp
  rw [ofTokens, if_neg (by rw [hcontains]; decide), List.mapM_map, mapM_eq_some (g := id)]
  · rw [List.map_id]
  · exact fun _ _ => rfl

theorem ofTokens_endingIn (ending : List Char) :
    ofTokens (endingIn ending) = .wild (endingIn ending) := by
  have hcontains : (endingIn ending).contains .anyDirectories = false := by simp [endingIn]
  rw [ofTokens, if_neg (by rw [hcontains]; decide)]
  rfl

end Part

theorem parts?_patternBelow {extension : String} (hpath : ∀ c ∈ path.toList, isPlain c)
    (hplain : ∀ c ∈ extension.toList, isPlain c) (hslash : '/' ∉ extension.toList) :
    parts? (patternBelow path extension) =
      some ((pieces path).map .literal ++ [.deep, .wild (endingIn ('.' :: extension.toList))]) := by
  have hending : ∀ c ∈ '.' :: extension.toList, isPlain c :=
    List.forall_mem_cons.mpr ⟨by decide, hplain⟩
  have hpattern : (patternBelow path extension).toList =
      path.toList ++ '/' :: '*' :: '*' :: '/' :: '*' :: '.' :: extension.toList := by
    simp [patternBelow]
  obtain ⟨tokens, htokens⟩ := Option.isSome_iff_exists.mp (isSome_tokens?_below hpath hending)
  have hsplit : Text.splitOn '/' (patternBelow path extension).toList =
      Text.splitOn '/' path.toList ++ [['*', '*'], '*' :: '.' :: extension.toList] := by
    have hdeep : '*' :: '*' :: '/' :: '*' :: '.' :: extension.toList =
        ['*', '*'] ++ '/' :: '*' :: '.' :: extension.toList := rfl
    have hstar : '/' ∉ '*' :: '.' :: extension.toList := by simp [hslash]
    rw [hpattern, Text.splitOn_append, hdeep, Text.splitOn_append, Text.splitOn_of_not_mem hstar]
    rfl
  have hpieces : (Text.splitOn '/' path.toList).mapM tokens? =
      some ((Text.splitOn '/' path.toList).map (·.map .char)) := by
    refine mapM_eq_some fun piece hpiece => tokens?_of_isPlain fun c hc => hpath c ?_
    obtain ⟨before, after, heq, -⟩ := Text.mem_splitOn_iff.mp hpiece
    rw [heq]
    exact List.mem_append_left _ (List.mem_append_right _ hc)
  have hlast : [['*', '*'], '*' :: '.' :: extension.toList].mapM tokens? =
      some [[.anyDirectories], endingIn ('.' :: extension.toList)] := by
    rw [List.mapM_cons, List.mapM_cons, tokens?_star hending]
    rfl
  have hend : (Text.splitOn '/' path.toList ++
      [['*', '*'], '*' :: '.' :: extension.toList]).getLast? ≠ some [] := by simp
  have hliterals : ((Text.splitOn '/' path.toList).map (·.map .char)).map Part.ofTokens =
      (pieces path).map .literal := by
    rw [pieces, List.map_map, List.map_map]
    exact List.map_congr_left fun piece _ => Part.ofTokens_chars piece
  rw [parts?, hsplit, hpattern, htokens]
  simp only [Option.bind_eq_bind, Option.bind_some, if_neg hend]
  rw [List.mapM_append, hpieces, hlast]
  simp only [Option.bind_eq_bind, Option.bind_some, Option.pure_def, Option.map_some,
    List.map_append, hliterals, List.map_cons, Part.ofTokens_endingIn]
  rfl

theorem patternStart_literals (hpath : path ≠ "") (rest : List Part) :
    patternStart ((pieces path).map .literal ++ rest) =
      (start path, (route path).map .literal ++ rest) := by
  by_cases hroot : path.startsWith "/"
  · obtain ⟨names, -, hnames⟩ := Path.pieces_eq_of_startsWith hroot
    rw [start, route, if_pos hroot, if_pos hroot, hnames]
    rfl
  · rw [start, route, if_neg hroot, if_neg hroot]
    obtain ⟨piece, names, hnames⟩ := List.exists_cons_of_ne_nil (Path.pieces_ne_nil path)
    have hpiece : piece ≠ "" := by
      rintro rfl
      exact hroot (Path.startsWith_of_pieces_eq hnames hpath)
    rw [hnames, List.map_cons, List.cons_append, patternStart]
    rintro more heq
    exact hpiece (Part.literal.inj (List.cons.inj heq).1)

section Starts

variable {rest : List Part} (hrest : ∀ name more, rest ≠ .literal name :: more)

include hrest

theorem literalStart_rest (path : String) : literalStart path rest = some (path, rest) := by
  rw [literalStart]
  exact fun name more => hrest name more

theorem literalStart_of_ne (hpath : path ≠ "") (hhere : path ≠ here)
    (hnames : ∀ name ∈ names, '/' ∉ name.toList) :
    literalStart path (names.map .literal ++ rest) = some (descend path names, rest) ∧
      descend path names ≠ "" := by
  induction names generalizing path with
  | nil => exact ⟨literalStart_rest hrest path, hpath⟩
  | cons name names ih =>
    obtain ⟨hname, hnames⟩ := List.forall_mem_cons.mp hnames
    have hne := Path.extend_ne_empty hpath hname (absurd · hhere)
    rw [List.map_cons, List.cons_append, literalStart, if_neg (by simpa using hne)]
    exact ih hne (Path.extend_ne_here hpath hname (absurd · hhere)) hnames

theorem literalStart_here (hnames : ∀ name ∈ names, '/' ∉ name.toList) :
    if startsEmpty names then literalStart here (names.map .literal ++ rest) = none
    else literalStart here (names.map .literal ++ rest) = some (descend here names, rest) ∧
      descend here names ≠ "" := by
  induction names with
  | nil => exact ⟨literalStart_rest hrest here, by decide⟩
  | cons name names ih =>
    obtain ⟨hname, hnames⟩ := List.forall_mem_cons.mp hnames
    rw [List.map_cons, List.cons_append, literalStart, Path.extend_here]
    by_cases hempty : name = ""
    · rw [hempty]
      rfl
    by_cases hhere : name = here
    · have hstart : startsEmpty (here :: names) = startsEmpty names := rfl
      have hne : here.isEmpty = false := by decide
      simp only [hhere, hstart, hne, Bool.false_eq_true, if_false]
      exact ih hnames
    · have hstart : startsEmpty (name :: names) = false := by
        unfold startsEmpty
        split <;> simp_all [here]
      have hne : name.isEmpty = false := by simpa using hempty
      simp only [hstart, hne, Bool.false_eq_true, if_false]
      exact literalStart_of_ne hrest hempty hhere hnames

theorem literalStart_route (path : String) :
    if LosesWay path then literalStart (start path) ((route path).map .literal ++ rest) = none
    else literalStart (start path) ((route path).map .literal ++ rest) =
        some (rewritten path, rest) ∧ rewritten path ≠ "" := by
  have hslash : ∀ name ∈ pieces path, '/' ∉ name.toList :=
    fun _ => Path.not_mem_of_mem_pieces
  by_cases hroot : path.startsWith "/"
  · rw [if_neg fun hlost => hlost.1 (Path.startsWith_slash_iff.mp hroot), rewritten, start, route,
      if_pos hroot, if_pos hroot]
    exact literalStart_of_ne hrest (by decide) (by decide)
      fun name hname => hslash name (List.mem_of_mem_tail hname)
  · have hlost : LosesWay path ↔ startsEmpty (pieces path) :=
      and_iff_right fun hhead => hroot (Path.startsWith_slash_iff.mpr hhead)
    rw [rewritten, start, route, if_neg hroot, if_neg hroot, if_congr hlost rfl rfl]
    exact literalStart_here hrest hslash

end Starts

section Below

def ListsFile (places : List (String × Place)) (name path : String) : Prop :=
  ∃ q, (name, q) ∈ places ∧ q.layout = .file ∧ q.path = path

theorem listsFile_append {first rest : List (String × Place)} {name path : String} :
    ListsFile (first ++ rest) name path ↔ ListsFile first name path ∨ ListsFile rest name path := by
  simp only [ListsFile, List.mem_append, or_and_right, exists_or]

theorem listsFile_singleton {q : Place} {n name path : String} :
    ListsFile [(n, q)] name path ↔ n = name ∧ q.layout = .file ∧ q.path = path := by
  constructor
  · rintro ⟨_, hmem, hfile, hpath⟩
    obtain ⟨rfl, rfl⟩ := Prod.mk.inj (List.mem_singleton.mp hmem)
    exact ⟨rfl, hfile, hpath⟩
  · rintro ⟨rfl, hfile, hpath⟩
    exact ⟨q, List.mem_singleton_self _, hfile, hpath⟩

theorem exists_hasFile_cons_iff {child : Tree} {n name path p : String} :
    (∃ rest, child.HasFile rest ∧ (n :: rest).getLast? = some name ∧ p = descend path (n :: rest)) ↔
      (n = name ∧ child.layout = .file ∧ extend path n = p) ∨
        ∃ names, child.HasFile names ∧ names.getLast? = some name ∧
          p = descend (extend path n) names := by
  constructor
  · rintro ⟨rest, hfile, hlast, rfl⟩
    cases rest with
    | nil => exact .inl ⟨by simpa using hlast, Tree.hasFile_nil_iff.mp hfile, rfl⟩
    | cons m rest => exact .inr ⟨m :: rest, hfile, by simpa using hlast, rfl⟩
  · rintro (⟨rfl, hfile, rfl⟩ | ⟨names, hfile, hlast, rfl⟩)
    · exact ⟨[], Tree.hasFile_nil_iff.mpr hfile, rfl, rfl⟩
    · exact ⟨names, hfile, by simp [List.getLast?_cons, hlast], rfl⟩

mutual

theorem listsFile_below_iff : ∀ (t : Tree) (path : String) (around : List Layout) (name p : String),
    ListsFile (below path around t.layout) name p ↔
      ∃ names, t.HasFile names ∧ names.getLast? = some name ∧ p = descend path names
  | .file bytes, path, around, name, p => by
    simp [Tree.layout, below, ListsFile, Tree.hasFile_file_iff]
  | .directory children, path, around, name, p => by
    rw [Tree.layout, below, listsFile_belowChildren_iff children]
    simp only [Tree.hasFile_directory_iff]
    constructor
    · rintro ⟨e, he, rest, hfile, hlast, hp⟩
      exact ⟨e.1 :: rest, ⟨e, he, rest, rfl, hfile⟩, hlast, hp⟩
    · rintro ⟨_, ⟨e, he, rest, rfl, hfile⟩, hlast, hp⟩
      exact ⟨e, he, rest, hfile, hlast, hp⟩

theorem listsFile_belowChildren_iff : ∀ (children : List (String × Tree)) (path : String)
    (around : List Layout) (name p : String),
    ListsFile (belowChildren path around (Tree.layoutOfChildren children)) name p ↔
      ∃ e ∈ children, ∃ rest, e.2.HasFile rest ∧ (e.1 :: rest).getLast? = some name ∧
        p = descend path (e.1 :: rest)
  | [], path, around, name, p => by simp [Tree.layoutOfChildren, belowChildren, ListsFile]
  | (n, child) :: children, path, around, name, p => by
    rw [Tree.layoutOfChildren, belowChildren, ← List.singleton_append, List.append_assoc,
      listsFile_append, listsFile_append, listsFile_singleton, listsFile_below_iff child,
      listsFile_belowChildren_iff children, List.exists_mem_cons_iff, exists_hasFile_cons_iff,
      or_assoc]

end

def filePaths (places : List Place) : List String :=
  (places.filter fun p =>
    match p.layout with
    | .file => true
    | .directory _ => false).map (·.path)

theorem mem_filePaths_iff {t : Tree} {base p : String} {ending : List Char} :
    p ∈ filePaths (expand [.deep, .wild (endingIn ending)] ⟨base, t.layout, []⟩) ↔
      ∃ names last, t.HasFile names ∧ names.getLast? = some last ∧ ending <:+ last.toList ∧
        p = descend base names := by
  have hplaces : p ∈ filePaths (expand [.deep, .wild (endingIn ending)] ⟨base, t.layout, []⟩) ↔
      ∃ name, ListsFile (below base [] t.layout) name p ∧ ending <:+ name.toList := by
    have hfile : ∀ q : Place, (match q.layout with
        | .file => true
        | .directory _ => false) = true ↔ q.layout = .file := by
      intro q
      cases q.layout <;> simp
    simp only [filePaths, expand, expand.expandDeep, List.mem_map, List.mem_filter,
      List.mem_flatMap, List.mem_singleton, Part.accepts, isMatch_endingIn, hfile]
    constructor
    · rintro ⟨q, ⟨⟨⟨name, q'⟩, ⟨hmem, hending⟩, rfl⟩, hlayout⟩, hp⟩
      exact ⟨name, ⟨q, hmem, hlayout, hp⟩, hending⟩
    · rintro ⟨name, ⟨q, hmem, hlayout, hp⟩, hending⟩
      exact ⟨q, ⟨⟨⟨name, q⟩, ⟨hmem, hending⟩, rfl⟩, hlayout⟩, hp⟩
  rw [hplaces]
  simp only [listsFile_below_iff]
  constructor
  · rintro ⟨last, ⟨names, hfile, hlast, hp⟩, hending⟩
    exact ⟨names, last, hfile, hlast, hending, hp⟩
  · rintro ⟨names, last, hfile, hlast, hending, hp⟩
    exact ⟨last, ⟨names, hfile, hlast, hp⟩, hending⟩

end Below

end Glob

end WorkflowAudit.Files
