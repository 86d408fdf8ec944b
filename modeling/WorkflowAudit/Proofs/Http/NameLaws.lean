import WorkflowAudit.Proofs.Http.UrlLaws

namespace WorkflowAudit.Http

open Text (byteCount splitOn)

/-- A text that an address says as it is. -/
structure IsLiteral (s : List Char) : Prop where
  chars : ∀ c ∈ s, c ∉ ['\t', '\n', '\r', '?', '#', '\\']
  escapes : ∀ rest, rest <:+ s → ¬StartsEscape rest

theorem isLiteral_of_notMem {s : List Char}
    (h : ∀ c ∈ s, c ∉ ['\t', '\n', '\r', '?', '#', '\\', '%']) : IsLiteral s where
  chars c hc hmem := h c hc (List.mem_append_left ['%'] hmem)
  escapes := by
    rintro _ hrest ⟨a, b, rest, rfl, -⟩
    exact h '%' (hrest.mem List.mem_cons_self) (by decide)

namespace Url

variable {front : List (List Char)} {last name a b : List Char}

/-- What is left of a name in an address: tabs and line ends do not count, and a mark cuts off what
follows. -/
def kept (name : List Char) : List Char := (name.filter counts).takeWhile isPathChar

/-- The bytes that a name without slashes is read as in an address, if it is no step up. -/
def nameBytes? (name : List Char) : Option (List UInt8) :=
  if isDoubleDot (kept name) then none
  else if isDot (kept name) then some []
  else some (percentDecode (kept name))

theorem nameSteps_eq (name : List Char) :
    nameSteps name = splitOn '/' ((kept name).map asSlash) := rfl

theorem kept_sublist (name : List Char) : (kept name).Sublist name :=
  (List.takeWhile_sublist _).trans List.filter_sublist

theorem nameSteps_of_not_isSlash (h : ∀ c ∈ name, isSlash c = false) :
    nameSteps name = [kept name] :=
  splitOn_asSlash fun c hc => h c ((kept_sublist name).mem hc)

theorem byteCount_map_asSlash (s : List Char) : byteCount (s.map asSlash) = byteCount s := by
  induction s with
  | nil => rfl
  | cons c s ih =>
    have hsize : (asSlash c).utf8Size = c.utf8Size := by
      rw [asSlash]
      split
      case isTrue h =>
        subst h
        rfl
      case isFalse => rfl
    rw [List.map_cons, Text.byteCount_cons, Text.byteCount_cons, ih, hsize]

theorem kept_eq_self_iff :
    kept name = name ↔ ∀ c ∈ name, counts c = true ∧ isPathChar c = true := by
  constructor
  · intro h c hc
    rw [← h] at hc
    have hcounts := (List.mem_filter.mp ((List.takeWhile_sublist _).mem hc)).2
    exact ⟨hcounts, List.mem_takeWhile_imp hc⟩
  · intro h
    rw [kept, List.filter_eq_self.mpr fun c hc => (h c hc).1,
      List.takeWhile_eq_self_iff.mpr fun c hc => (h c hc).2]

theorem map_asSlash_eq_self_iff : name.map asSlash = name ↔ ∀ c ∈ name, c ≠ '\\' := by
  conv => lhs; rhs; rw [← List.map_id name]
  rw [List.map_inj_left]
  refine forall₂_congr fun c _ => ?_
  rw [asSlash]
  split
  case isTrue h => simp [h]
  case isFalse h => simp [h]

theorem notMem_read_iff {c : Char} : c ∉ ['\t', '\n', '\r', '?', '#', '\\'] ↔
    (counts c = true ∧ isPathChar c = true) ∧ c ≠ '\\' := by
  simp [counts, isPathChar, and_assoc]

theorem not_isSlash_iff {c : Char} : isSlash c = false ↔ c ≠ '/' ∧ c ≠ '\\' := by
  simp [isSlash]

theorem resource_of_isLiteral (h : IsLiteral name) (hslash : '/' ∉ name)
    (hdots : isDots name = false) :
    pathBytes (resolve (front ++ [last]).reverse (nameSteps name)) =
      pathBytes (front ++ [last]) ++ utf8 ('/' :: name) := by
  have hkept : kept name = name :=
    kept_eq_self_iff.mpr fun c hc => (notMem_read_iff.mp (h.chars c hc)).1
  have hsteps : nameSteps name = [kept name] := nameSteps_of_not_isSlash fun c hc =>
    not_isSlash_iff.mpr ⟨fun heq => hslash (heq ▸ hc), (notMem_read_iff.mp (h.chars c hc)).2⟩
  rw [hsteps, hkept, resolve_of_plain (by simpa using hdots), List.reverse_reverse,
    pathBytes_append, pathBytes_cons, percentDecode_eq_utf8 h.escapes, pathBytes_nil,
    List.append_nil]
  rfl

/-- Only such a name leads to the place that bears it: what is read as anything else has fewer bytes
or other ones. -/
theorem isLiteral_of_resource
    (h : pathBytes (resolve (front ++ [last]).reverse (nameSteps name)) =
      pathBytes (front ++ [last]) ++ utf8 ('/' :: name)) : IsLiteral name := by
  have hresolve := length_pathBytes_resolve (front ++ [last]).reverse (nameSteps name)
  have hdecode := length_percentDecode_le ((kept name).map asSlash)
  have hpart := byteCount_le_of_sublist (kept_sublist name)
  have hlength := congrArg List.length h
  have hslash : '/'.utf8Size = 1 := rfl
  rw [List.length_append, length_utf8, Text.byteCount_cons, hslash] at hlength
  rw [length_pathBytes_reverse, nameSteps_eq, pathBytes_splitOn, List.length_cons] at hresolve
  rw [byteCount_map_asSlash] at hdecode
  rw [nameSteps_eq] at hlength
  -- Each way of reading a name as something else loses bytes, and none is lost.
  have hkept : kept name = name := eq_of_sublist_of_byteCount_le (kept_sublist name) (by omega)
  have hescapes : ∀ rest, rest <:+ name.map asSlash → ¬StartsEscape rest := by
    intro rest hrest
    refine not_startsEscape_of_byteCount_le ?_ hrest
    rw [byteCount_map_asSlash]
    rw [hkept] at hresolve hlength
    omega
  have hplain : ∀ step ∈ nameSteps name, isDots step = false := by
    have hcount : (nameSteps name).countP isDots = 0 := by
      rw [nameSteps_eq]
      omega
    simpa using List.countP_eq_zero.mp hcount
  have hread : utf8 (name.map asSlash) = utf8 name := by
    rw [resolve_of_plain hplain, List.reverse_reverse, pathBytes_append, nameSteps_eq, hkept,
      pathBytes_splitOn, percentDecode_eq_utf8 hescapes] at h
    exact (List.cons.inj (List.append_cancel_left h)).2
  have hslashes : name.map asSlash = name := utf8_injective hread
  exact ⟨fun c hc => notMem_read_iff.mpr ⟨kept_eq_self_iff.mp hkept c hc,
    map_asSlash_eq_self_iff.mp hslashes c hc⟩, hslashes ▸ hescapes⟩

theorem resource_of_not_isSlash (h : ∀ c ∈ name, isSlash c = false) :
    pathBytes (resolve (front ++ [last]).reverse (nameSteps name)) =
      (nameBytes? name).elim (pathBytes front ++ [0x2F])
        (pathBytes (front ++ [last]) ++ 0x2F :: ·) := by
  rw [nameSteps_of_not_isSlash h, nameBytes?, resolve]
  split
  case isTrue => simp [resolve, percentDecode]
  case isFalse =>
    split
    case isTrue => simp [resolve, percentDecode]
    case isFalse => simp [resolve]

theorem elim_injective (front : List (List Char)) (last : List Char) :
    Function.Injective fun bytes? : Option (List UInt8) =>
      bytes?.elim (pathBytes front ++ [0x2F]) (pathBytes (front ++ [last]) ++ 0x2F :: ·) := by
  intro a b h
  cases a with
  | none =>
    cases b with
    | none => rfl
    | some b =>
      have hlength := congrArg List.length h
      simp at hlength
  | some a =>
    cases b with
    | none =>
      have hlength := congrArg List.length h
      simp at hlength
    | some b => simpa using h

end Url

end WorkflowAudit.Http
