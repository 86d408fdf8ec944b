import WorkflowAudit.Proofs.Http.PathLaws

/-! How an address is read, and what it addresses: the bytes its path stands for. A text behind a
slash at the end of an address is read as the way on from there, unless a mark before it has ended
the path. -/

namespace WorkflowAudit.Http

open Text (splitOn)

namespace Url

variable {text : String} {u : Url} {s t scheme behind slashes place path rest : List Char}

def resource (u : Url) : List UInt8 := percentDecode u.path.toList

section Read

def counts (c : Char) : Bool := c ≠ '\t' && c ≠ '\n' && c ≠ '\r'

def isControl (c : Char) : Bool := c.toNat ≤ 0x20

def isSchemeChar (c : Char) : Bool := c.isAlphanum || c = '+' || c = '-' || c = '.'

def isPlaceChar (c : Char) : Bool := !isSlash c && c ≠ '?' && c ≠ '#'

def isPathChar (c : Char) : Bool := c ≠ '?' && c ≠ '#'

def asSlash (c : Char) : Char := if c = '\\' then '/' else c

def counted (s : List Char) : List Char :=
  ((s.dropWhile isControl).reverse.dropWhile isControl).reverse.filter counts

def steps (path : List Char) : List (List Char) := splitOn '/' ((path.map asSlash).drop 1)

def segmentsOf (path : List Char) : List String :=
  (resolve [] (steps path)).map fun step => String.ofList (encode isEscapedInPath step)

structure HasScheme (s scheme behind : List Char) : Prop where
  eq : s = scheme ++ ':' :: behind
  isScheme : ∀ c ∈ scheme, isSchemeChar c
  startsAlpha : (scheme.head?.map Char.isAlpha).getD false

/-- Behind its scheme an address has the place of the service, the path, and the query with the
fragment. -/
structure IsDivided (behind slashes place path rest : List Char) : Prop where
  eq : behind = slashes ++ (place ++ (path ++ rest))
  isSlashes : ∀ c ∈ slashes, isSlash c
  isPlace : ∀ c ∈ place, isPlaceChar c
  place_ne : place ≠ []
  isPath : ∀ c ∈ path, isPathChar c
  path_head : ∀ c ∈ path.head?, isSlash c
  rest_head : ∀ c ∈ rest.head?, isPathChar c = false

theorem isPlaceChar_iff {c : Char} :
    isPlaceChar c = true ↔ isSlash c = false ∧ isPathChar c = true := by
  simp [isPlaceChar, isPathChar, and_assoc]

theorem isPlaceChar_eq_false_iff {c : Char} :
    isPlaceChar c = false ↔ isSlash c = true ∨ isPathChar c = false := by
  rw [← Bool.not_eq_true, isPlaceChar_iff, not_and_or, Bool.not_eq_false, Bool.not_eq_true]

theorem counted_eq (s : List Char) : ((s.dropWhile fun c => c.toNat ≤ 0x20).reverse.dropWhile
    fun c => c.toNat ≤ 0x20).reverse.filter (fun c => c ≠ '\t' && c ≠ '\n' && c ≠ '\r') =
      counted s := rfl

theorem drop_length_takeWhile (p : Char → Bool) (s : List Char) :
    s.drop (s.takeWhile p).length = s.dropWhile p := by
  induction s with
  | nil => rfl
  | cons c s ih => by_cases h : p c <;> simp [h, ih]

theorem exists_hasScheme_of_read (h : read text = .ok u) :
    ∃ scheme behind, HasScheme (counted text.toList) scheme behind := by
  have hscheme (s : List Char) : (s.takeWhile fun c =>
    c.isAlphanum || c = '+' || c = '-' || c = '.') = s.takeWhile isSchemeChar := rfl
  simp only [read, bind, Except.bind, counted_eq, hscheme, drop_length_takeWhile] at h
  cases hbehind : (counted text.toList).dropWhile isSchemeChar with
  | nil =>
    rw [hbehind] at h
    cases h
  | cons c behind =>
    by_cases hc : c = ':'
    · subst hc
      refine ⟨(counted text.toList).takeWhile isSchemeChar, behind, ?_,
        fun c => List.mem_takeWhile_imp, ?_⟩
      · rw [← hbehind, List.takeWhile_append_dropWhile]
      · by_contra hstart
        simp [hbehind, hstart] at h
    · simp [hbehind, hc] at h

theorem HasScheme.map_read (h : HasScheme (counted text.toList) scheme behind) :
    (read text).map (fun u => (u.scheme, u.authority, u.segments)) =
      (authorityOf (String.ofList scheme).toLower
        ((behind.dropWhile isSlash).takeWhile isPlaceChar)).map fun authority =>
          ((String.ofList scheme).toLower, authority, segmentsOf
            (((behind.dropWhile isSlash).dropWhile isPlaceChar).takeWhile isPathChar)) := by
  have hscheme : ((scheme ++ ':' :: behind).takeWhile fun c =>
      c.isAlphanum || c = '+' || c = '-' || c = '.') = scheme :=
    Text.takeWhile_run h.isScheme (by simp)
  have hplace (s : List Char) : (s.takeWhile fun c => !isSlash c && c ≠ '?' && c ≠ '#') =
    s.takeWhile isPlaceChar := rfl
  simp only [Url.read, bind, Except.bind, counted_eq, h.eq, hscheme, List.drop_left, h.startsAlpha,
    if_true, hplace]
  cases authorityOf (String.ofList scheme).toLower
    ((behind.dropWhile isSlash).takeWhile isPlaceChar) <;> rfl

theorem authorityOf_nil (scheme : String) : authorityOf scheme [] = .error .emptyHost := by
  simp [authorityOf]

theorem exists_isDivided (h : (behind.dropWhile isSlash).takeWhile isPlaceChar ≠ []) :
    ∃ slashes place path rest, IsDivided behind slashes place path rest := by
  refine ⟨behind.takeWhile isSlash, (behind.dropWhile isSlash).takeWhile isPlaceChar,
    ((behind.dropWhile isSlash).dropWhile isPlaceChar).takeWhile isPathChar,
    ((behind.dropWhile isSlash).dropWhile isPlaceChar).dropWhile isPathChar, ?_,
    fun c => List.mem_takeWhile_imp, fun c => List.mem_takeWhile_imp, h,
    fun c => List.mem_takeWhile_imp, fun c hc => ?_, fun c hc => ?_⟩
  · simp only [List.takeWhile_append_dropWhile]
  · obtain ⟨hc, hpath⟩ : _ ∧ isPathChar c = true := by
      simpa [List.head?_takeWhile, Option.filter_eq_some_iff] using hc
    have hplace := List.head?_dropWhile_not isPlaceChar (behind.dropWhile isSlash)
    rw [hc] at hplace
    exact (isPlaceChar_eq_false_iff.mp (by simpa using hplace)).resolve_right (by simp [hpath])
  · have := List.head?_dropWhile_not isPathChar
      ((behind.dropWhile isSlash).dropWhile isPlaceChar)
    rw [hc] at this
    simpa using this

namespace IsDivided

theorem dropWhile_slashes (h : IsDivided behind slashes place path rest) :
    behind.dropWhile isSlash = place ++ (path ++ rest) := by
  rw [h.eq]
  refine Text.dropWhile_run h.isSlashes fun c hc => ?_
  rw [List.head?_append_of_ne_nil _ h.place_ne] at hc
  exact (isPlaceChar_iff.mp (h.isPlace c (List.mem_of_mem_head? hc))).1

theorem head_below (h : IsDivided behind slashes place path rest) :
    ∀ c ∈ (path ++ rest).head?, isPlaceChar c = false := by
  intro c hc
  cases path with
  | nil => exact isPlaceChar_eq_false_iff.mpr (.inr (h.rest_head c hc))
  | cons d path => exact isPlaceChar_eq_false_iff.mpr (.inl (h.path_head c hc))

theorem place_eq (h : IsDivided behind slashes place path rest) :
    (behind.dropWhile isSlash).takeWhile isPlaceChar = place := by
  rw [h.dropWhile_slashes]
  exact Text.takeWhile_run h.isPlace h.head_below

theorem path_eq (h : IsDivided behind slashes place path rest) :
    ((behind.dropWhile isSlash).dropWhile isPlaceChar).takeWhile isPathChar = path := by
  rw [h.dropWhile_slashes, Text.dropWhile_run h.isPlace h.head_below]
  exact Text.takeWhile_run h.isPath h.rest_head

theorem append (h : IsDivided behind slashes place path rest) (hrest : rest ≠ []) (t : List Char) :
    IsDivided (behind ++ t) slashes place path (rest ++ t) where
  eq := by simp [h.eq]
  isSlashes := h.isSlashes
  isPlace := h.isPlace
  place_ne := h.place_ne
  isPath := h.isPath
  path_head := h.path_head
  rest_head := by simpa [List.head?_append_of_ne_nil _ hrest] using h.rest_head

theorem append_slash (h : IsDivided behind slashes place path []) (hpath : path ≠ [])
    (t : List Char) :
    IsDivided (behind ++ '/' :: t) slashes place (path ++ '/' :: t.takeWhile isPathChar)
      (t.dropWhile isPathChar) where
  eq := by simp [h.eq]
  isSlashes := h.isSlashes
  isPlace := h.isPlace
  place_ne := h.place_ne
  isPath c hc := by
    rcases List.mem_append.mp hc with hc | hc
    · exact h.isPath c hc
    · rcases List.mem_cons.mp hc with rfl | hc
      · decide
      · exact List.mem_takeWhile_imp hc
  path_head := by simpa [List.head?_append_of_ne_nil _ hpath] using h.path_head
  rest_head c hc := by
    have := List.head?_dropWhile_not isPathChar t
    rw [hc] at this
    simpa using this

end IsDivided

theorem HasScheme.append (h : HasScheme s scheme behind) (t : List Char) :
    HasScheme (s ++ t) scheme (behind ++ t) :=
  ⟨by simp [h.eq], h.isScheme, h.startsAlpha⟩

theorem isPathChar_of_isSchemeChar {c : Char} (h : isSchemeChar c = true) :
    isPathChar c = true := by
  have hquestion : isSchemeChar '?' = false := by decide
  have hhash : isSchemeChar '#' = false := by decide
  simp only [isPathChar, Bool.and_eq_true, decide_eq_true_eq]
  constructor <;> rintro rfl <;> simp_all

theorem isPathChar_of_isSlash {c : Char} (h : isSlash c = true) : isPathChar c = true := by
  have hquestion : isSlash '?' = false := by decide
  have hhash : isSlash '#' = false := by decide
  simp only [isPathChar, Bool.and_eq_true, decide_eq_true_eq]
  constructor <;> rintro rfl <;> simp_all

theorem rest_eq_nil_iff (hs : HasScheme s scheme behind)
    (h : IsDivided behind slashes place path rest) :
    rest = [] ↔ ∀ c ∈ s, isPathChar c := by
  constructor
  · rintro rfl c hc
    rw [hs.eq, h.eq] at hc
    simp only [List.mem_append, List.mem_cons, List.append_nil] at hc
    rcases hc with hc | rfl | hc | hc | hc
    · exact isPathChar_of_isSchemeChar (hs.isScheme c hc)
    · decide
    · exact isPathChar_of_isSlash (h.isSlashes c hc)
    · exact (isPlaceChar_iff.mp (h.isPlace c hc)).2
    · exact h.isPath c hc
  · intro hall
    cases rest with
    | nil => rfl
    | cons c rest =>
      have hmark := h.rest_head c rfl
      rw [hall c (by simp [hs.eq, h.eq])] at hmark
      cases hmark

theorem not_isSlash_of_isAlphanum {c : Char} (h : c.isAlphanum) : isSlash c = false := by
  simp only [isSlash, Bool.or_eq_false_iff, decide_eq_false_iff_not]
  constructor <;> rintro rfl <;> cases h

theorem isControl_of_isAlphanum {c : Char} (h : c.isAlphanum) : isControl c = false := by
  simp only [Char.isAlphanum, Char.isAlpha, Char.isUpper, Char.isLower, Char.isDigit,
    Bool.or_eq_true, Bool.and_eq_true, decide_eq_true_eq, ge_iff_le, UInt32.le_iff_toNat_le] at h
  have hvalue : c.toNat = c.val.toNat := rfl
  have hupper : 'A'.val.toNat = 65 := rfl
  have hlower : 'a'.val.toNat = 97 := rfl
  have hdigit : '0'.val.toNat = 48 := rfl
  simp only [isControl, decide_eq_false_iff_not, hvalue]
  omega

theorem counts_of_isControl_eq_false {c : Char} (h : isControl c = false) : counts c = true := by
  simp only [counts, Bool.and_eq_true, decide_eq_true_eq]
  refine ⟨⟨?_, ?_⟩, ?_⟩ <;> rintro rfl <;> cases h

theorem colon_mem_of_append_eq {front w : List Char} {c : Char}
    (h : front ++ c :: w = scheme ++ ':' :: slashes) (hslashes : ∀ c ∈ slashes, isSlash c)
    (hc : c.isAlphanum) : ':' ∈ w := by
  have hcolon : c ≠ ':' := by
    rintro rfl
    cases hc
  rcases List.append_eq_append_iff.mp h with ⟨z, rfl, hz⟩ | ⟨z, rfl, hz⟩
  · cases z with
    | nil => exact absurd (List.cons.inj hz).1 hcolon
    | cons d z =>
      rw [(List.cons.inj hz).2]
      simp
  · cases z with
    | nil => exact absurd (List.cons.inj hz).1.symm hcolon
    | cons d z =>
      have hslash := hslashes c (by simp [(List.cons.inj hz).2])
      rw [not_isSlash_of_isAlphanum hc] at hslash
      cases hslash

theorem exists_path_eq {front last : List Char} {c : Char} (hs : HasScheme s scheme behind)
    (h : IsDivided behind slashes place path []) (heq : s = front ++ c :: '/' :: last)
    (hc : c.isAlphanum) (hlast : ∀ d ∈ last, d.isAlphanum) :
    ∃ above, path = above ++ '/' :: last := by
  have hdivided : front ++ [c] ++ '/' :: last = scheme ++ ':' :: slashes ++ (place ++ path) := by
    have := heq.symm.trans (hs.eq.trans (by rw [h.eq]))
    simpa using this
  rcases List.append_eq_append_iff.mp hdivided with ⟨w, hbefore, hw⟩ | ⟨w, -, hw⟩
  · have hcolon : ':' ∈ '/' :: last := by
      rw [hw]
      exact List.mem_append_left _
        (colon_mem_of_append_eq (by simpa using hbefore.symm) h.isSlashes hc)
    rcases List.mem_cons.mp hcolon with hcolon | hcolon
    · cases hcolon
    · exact absurd (hlast ':' hcolon) (by decide)
  · rcases List.append_eq_append_iff.mp hw with ⟨above, -, hpath⟩ | ⟨above, hplace, hpath⟩
    · exact ⟨above, hpath⟩
    · cases above with
      | nil => exact ⟨[], hpath.symm⟩
      | cons d above =>
        obtain ⟨rfl, -⟩ := List.cons.inj hpath
        exact absurd (h.isPlace '/' (by simp [hplace])) (by decide)

theorem exists_isDivided_of_read (h : read text = .ok u) :
    ∃ scheme behind slashes place path rest, HasScheme (counted text.toList) scheme behind ∧
      IsDivided behind slashes place path rest ∧ u.scheme = (String.ofList scheme).toLower ∧
      authorityOf u.scheme place = .ok u.authority ∧ u.segments = segmentsOf path := by
  obtain ⟨scheme, behind, hs⟩ := exists_hasScheme_of_read h
  have hmap := hs.map_read
  rw [h, Except.map] at hmap
  cases hauthority : authorityOf (String.ofList scheme).toLower
      ((behind.dropWhile isSlash).takeWhile isPlaceChar) with
  | error e =>
    rw [hauthority] at hmap
    cases hmap
  | ok authority =>
    rw [hauthority, Except.map] at hmap
    simp only [Except.ok.injEq, Prod.mk.injEq] at hmap
    obtain ⟨hscheme, rfl, hsegments⟩ := hmap
    have hplace : (behind.dropWhile isSlash).takeWhile isPlaceChar ≠ [] := by
      intro hnil
      rw [hnil, authorityOf_nil] at hauthority
      cases hauthority
    obtain ⟨slashes, place, path, rest, hd⟩ := exists_isDivided hplace
    rw [hd.place_eq, ← hscheme] at hauthority
    rw [hd.path_eq] at hsegments
    exact ⟨_, _, _, _, _, _, hs, hd, hscheme, hauthority, hsegments⟩

theorem HasScheme.exists_read {authority : String}
    (hs : HasScheme (counted text.toList) scheme behind)
    (h : IsDivided behind slashes place path rest)
    (hauthority : authorityOf (String.ofList scheme).toLower place = .ok authority) :
    ∃ u, read text = .ok u ∧ u.scheme = (String.ofList scheme).toLower ∧
      u.segments = segmentsOf path := by
  have hmap := hs.map_read
  rw [h.place_eq, h.path_eq, hauthority, Except.map] at hmap
  cases hread : read text with
  | error e =>
    rw [hread] at hmap
    cases hmap
  | ok u =>
    rw [hread, Except.map] at hmap
    simp only [Except.ok.injEq, Prod.mk.injEq] at hmap
    exact ⟨u, rfl, hmap.1, hmap.2.2⟩

end Read

section Counted

variable {front last : List Char} {c : Char} {p : Char → Bool}

def opened (s : List Char) : List Char := (s.dropWhile isControl).filter counts

def closed (s : List Char) : List Char := (s.reverse.dropWhile isControl).reverse.filter counts

theorem dropWhile_append_cons (h : p c = false) (s t : List Char) :
    (s ++ c :: t).dropWhile p = s.dropWhile p ++ c :: t := by
  induction s with
  | nil => simp [h]
  | cons d s ih => by_cases hd : p d <;> simp [hd, ih]

theorem mem_dropWhile (hc : c ∈ s) (h : p c = false) : c ∈ s.dropWhile p := by
  obtain ⟨before, after, rfl⟩ := List.append_of_mem hc
  rw [dropWhile_append_cons h]
  simp

theorem counted_append (h : isControl c = false) (s t : List Char) :
    counted (s ++ c :: t) = opened s ++ c :: closed t := by
  rw [counted, dropWhile_append_cons h, List.reverse_append, List.reverse_cons, List.append_assoc,
    List.singleton_append, dropWhile_append_cons h]
  simp [opened, closed, counts_of_isControl_eq_false h]

theorem opened_append (h : isControl c = false) (s t : List Char) :
    opened (s ++ c :: t) = opened s ++ c :: t.filter counts := by
  rw [opened, dropWhile_append_cons h]
  simp [opened, counts_of_isControl_eq_false h]

theorem closed_of_getLast? (h : ∀ c ∈ s.getLast?, isControl c = false) :
    closed s = s.filter counts := by
  rw [← List.head?_reverse] at h
  rw [closed]
  cases hs : s.reverse with
  | nil => simp [List.reverse_eq_nil_iff.mp hs]
  | cons c t =>
    rw [List.dropWhile_cons_of_neg (by simp [h c (by simp [hs])]), ← hs, List.reverse_reverse]

theorem filter_counts_of_isAlphanum (h : ∀ c ∈ s, c.isAlphanum) : s.filter counts = s :=
  List.filter_eq_self.mpr fun c hc =>
    counts_of_isControl_eq_false (isControl_of_isAlphanum (h c hc))

theorem counted_of_last (hc : c.isAlphanum) (hlast : ∀ d ∈ last, d.isAlphanum) :
    counted (front ++ c :: '/' :: last) = opened front ++ c :: '/' :: last := by
  have hclosed : closed ('/' :: last) = '/' :: last := by
    rw [closed_of_getLast?, List.filter_cons_of_pos (by decide), filter_counts_of_isAlphanum hlast]
    intro d hd
    rcases List.mem_cons.mp (List.mem_of_mem_getLast? hd) with rfl | hd
    · decide
    · exact isControl_of_isAlphanum (hlast d hd)
  rw [counted_append (isControl_of_isAlphanum hc), hclosed]

theorem counted_append_slash (hc : c.isAlphanum) (hlast : ∀ d ∈ last, d.isAlphanum)
    (t : List Char) :
    counted (front ++ c :: '/' :: last ++ '/' :: t) =
      counted (front ++ c :: '/' :: last) ++ '/' :: closed t := by
  rw [counted_append (by decide), opened_append (isControl_of_isAlphanum hc),
    List.filter_cons_of_pos (by decide), filter_counts_of_isAlphanum hlast,
    counted_of_last hc hlast]

theorem isControl_of_isPathChar_eq_false (h : isPathChar c = false) : isControl c = false := by
  have hmark : c = '?' ∨ c = '#' := by
    rw [isPathChar, Bool.and_eq_false_iff] at h
    simpa using h
  rcases hmark with rfl | rfl <;> decide

theorem forall_isPathChar_counted :
    (∀ c ∈ counted s, isPathChar c) ↔ ∀ c ∈ s, isPathChar c := by
  constructor
  · intro h c hc
    by_contra hmark
    have hcontrol := isControl_of_isPathChar_eq_false (Bool.eq_false_iff.mpr hmark)
    refine hmark (h c (List.mem_filter.mpr ⟨?_, counts_of_isControl_eq_false hcontrol⟩))
    exact List.mem_reverse.mpr
      (mem_dropWhile (List.mem_reverse.mpr (mem_dropWhile hc hcontrol)) hcontrol)
  · intro h c hc
    have hend := List.mem_reverse.mp (List.mem_filter.mp hc).1
    have hstart := List.mem_reverse.mp ((List.dropWhile_sublist _).mem hend)
    exact h c ((List.dropWhile_sublist _).mem hstart)

end Counted

section Below

variable {front last name : List Char} {c : Char}

theorem toList_joined (first : String) (rest : List String) :
    (Text.joined "/" (first :: rest)).toList =
      first.toList ++ rest.flatMap fun segment => '/' :: segment.toList := by
  induction rest generalizing first with
  | nil => simp [Text.joined]
  | cons second rest ih =>
    rw [Text.joined, String.toList_append, String.toList_append, ih, List.flatMap_cons]
    · simp
    · simp

theorem pathBytes_map_encode (steps : List (List Char)) :
    pathBytes (steps.map (encode isEscapedInPath)) = pathBytes steps := by
  induction steps with
  | nil => rfl
  | cons step steps ih =>
    rw [List.map_cons, pathBytes_cons, pathBytes_cons, percentDecode_encode, ih]

theorem resource_eq (h : u.segments = segmentsOf path) :
    u.resource = pathBytes (resolve [] (steps path)) := by
  have hsteps : resolve [] (steps path) ≠ [] := resolve_ne_nil (Text.splitOn_ne_nil _ _)
  obtain ⟨first, rest, hresolve⟩ := List.exists_cons_of_ne_nil hsteps
  have hpath : u.path.toList = [] ++ '/' :: (encode isEscapedInPath first ++
      (rest.map (encode isEscapedInPath)).flatMap ('/' :: ·)) := by
    rw [Url.path, h, segmentsOf, hresolve, List.map_cons, String.toList_append, toList_joined]
    simp [List.flatMap_map]
  rw [resource, hpath, percentDecode_append_slash, percentDecode_flatMap, percentDecode_encode,
    pathBytes_map_encode, hresolve]
  rfl

theorem steps_append_slash (h : path ≠ []) (t : List Char) :
    steps (path ++ '/' :: t) = steps path ++ splitOn '/' (t.map asSlash) := by
  obtain ⟨c, path, rfl⟩ := List.exists_cons_of_ne_nil h
  simp only [steps, List.cons_append, List.map_cons, List.drop_one, List.tail_cons,
    List.map_append]
  exact Text.splitOn_append _ _

theorem map_asSlash (h : ∀ c ∈ s, isSlash c = false) : s.map asSlash = s := by
  conv => rhs; rw [← List.map_id s]
  refine List.map_congr_left fun c hc => if_neg ?_
  rintro rfl
  exact absurd (h _ hc) (by decide)

theorem splitOn_asSlash (h : ∀ c ∈ s, isSlash c = false) : splitOn '/' (s.map asSlash) = [s] := by
  rw [map_asSlash h, Text.splitOn_of_not_mem]
  intro hslash
  exact absurd (h _ hslash) (by decide)

theorem exists_steps_eq {above : List Char} (hlast : ∀ d ∈ last, isSlash d = false) :
    ∃ earlier, steps (above ++ '/' :: last) = earlier ++ [last] := by
  cases above with
  | nil => exact ⟨[], splitOn_asSlash hlast⟩
  | cons c above => exact ⟨_, by rw [steps_append_slash (List.cons_ne_nil c above),
      splitOn_asSlash hlast]⟩

def nameSteps (name : List Char) : List (List Char) :=
  splitOn '/' (((name.filter counts).takeWhile isPathChar).map asSlash)

structure LeadsTo (s last : List Char) : Prop where
  exists_eq : ∃ front c, s = front ++ c :: '/' :: last ∧ c.isAlphanum
  isAlphanum : ∀ d ∈ last, d.isAlphanum
  isPlain : isDots last = false

namespace LeadsTo

theorem counted_append (h : LeadsTo s last) (hname : ∀ c ∈ name.getLast?, isControl c = false) :
    counted (s ++ '/' :: name) = counted s ++ '/' :: name.filter counts := by
  obtain ⟨⟨front, c, rfl, hc⟩, hlast, -⟩ := h
  rw [counted_append_slash hc hlast, closed_of_getLast? hname]

theorem read_append_of_mark (h : LeadsTo text.toList last) (hread : read text = .ok u)
    (hmark : ¬∀ c ∈ text.toList, isPathChar c) {name : String}
    (hname : ∀ c ∈ name.toList.getLast?, isControl c = false) :
    ∃ u', read (text ++ "/" ++ name) = .ok u' ∧ u'.scheme = u.scheme ∧
      u'.resource = u.resource := by
  obtain ⟨scheme, behind, slashes, place, path, rest, hs, hd, hscheme, hauthority, hsegments⟩ :=
    exists_isDivided_of_read hread
  have hrest : rest ≠ [] := by
    rwa [Ne, rest_eq_nil_iff hs hd, forall_isPathChar_counted]
  have hcounted : counted (text ++ "/" ++ name).toList =
      counted text.toList ++ '/' :: name.toList.filter counts := by
    rw [← h.counted_append hname]
    simp
  have hs' := hs.append ('/' :: name.toList.filter counts)
  rw [← hcounted] at hs'
  obtain ⟨u', hread', hscheme', hsegments'⟩ :=
    hs'.exists_read (hd.append hrest _) (hscheme ▸ hauthority)
  exact ⟨u', hread', hscheme'.trans hscheme.symm,
    (resource_eq hsegments').trans (resource_eq hsegments).symm⟩

theorem exists_front (h : LeadsTo text.toList last) (hread : read text = .ok u)
    (hmark : ∀ c ∈ text.toList, isPathChar c) :
    ∃ front, u.resource = pathBytes (front ++ [last]) ∧
      ∀ {name : String}, (∀ c ∈ name.toList.getLast?, isControl c = false) →
        ∃ u', read (text ++ "/" ++ name) = .ok u' ∧ u'.scheme = u.scheme ∧
          u'.resource = pathBytes (resolve (front ++ [last]).reverse (nameSteps name.toList)) := by
  obtain ⟨scheme, behind, slashes, place, path, rest, hs, hd, hscheme, hauthority, hsegments⟩ :=
    exists_isDivided_of_read hread
  obtain rfl := (rest_eq_nil_iff hs hd).mpr (forall_isPathChar_counted.mpr hmark)
  obtain ⟨before, c, htext, hc⟩ := h.exists_eq
  have hcounted : counted text.toList = opened before ++ c :: '/' :: last := by
    rw [htext, counted_of_last hc h.isAlphanum]
  obtain ⟨above, hpath⟩ := exists_path_eq hs hd hcounted hc h.isAlphanum
  have hne : path ≠ [] := by simp [hpath]
  obtain ⟨earlier, hsteps⟩ : ∃ earlier, steps path = earlier ++ [last] := by
    rw [hpath]
    exact exists_steps_eq fun d hd => not_isSlash_of_isAlphanum (h.isAlphanum d hd)
  obtain ⟨front, hfront⟩ := exists_resolve_append h.isPlain [] earlier
  refine ⟨front, ?_, fun {name} hname => ?_⟩
  · rw [resource_eq hsegments, hsteps, hfront [], resolve, List.reverse_reverse]
  · have happend : counted (text ++ "/" ++ name).toList =
        counted text.toList ++ '/' :: name.toList.filter counts := by
      rw [← h.counted_append hname]
      simp
    have hs' := hs.append ('/' :: name.toList.filter counts)
    rw [← happend] at hs'
    obtain ⟨u', hread', hscheme', hsegments'⟩ :=
      hs'.exists_read (hd.append_slash hne _) (hscheme ▸ hauthority)
    refine ⟨u', hread', hscheme'.trans hscheme.symm, ?_⟩
    rw [resource_eq hsegments', steps_append_slash hne, hsteps, List.append_assoc,
      List.singleton_append, hfront]
    rfl

end LeadsTo

end Below

end Url

end WorkflowAudit.Http
