import WorkflowAudit.Proofs.Http.EscapeLaws

namespace WorkflowAudit.Http

open Text (splitOn)

def pathBytes (steps : List (List Char)) : List UInt8 :=
  steps.flatMap fun step => 0x2F :: percentDecode step

namespace Url

section Resolve

variable {done steps : List (List Char)} {step : List Char}

def isDots (step : List Char) : Bool := isDoubleDot step || isDot step

theorem isDots_iff : isDots step = true ↔
    step.map Char.toLower ∈ ["..", ".%2e", "%2e.", "%2e%2e", ".", "%2e"].map String.toList := by
  have hlowered : step.map Char.toLower = (String.ofList step).toLower.toList := by
    simp [String.toLower]
  rw [hlowered, List.mem_map_of_injective fun a b h => String.toList_inj.mp h]
  simp only [isDots, isDoubleDot, isDot, Bool.or_eq_true, List.contains_iff_mem, ← List.mem_append]
  rfl

theorem isDots_nil : isDots [] = false := by
  rw [Bool.eq_false_iff, Ne, isDots_iff]
  decide

theorem resolve_cons_of_plain (h : isDots step = false) :
    resolve done (step :: steps) = resolve (step :: done) steps := by
  obtain ⟨hup, hdot⟩ := Bool.or_eq_false_iff.mp h
  simp [resolve, hup, hdot]

theorem resolve_of_plain (h : ∀ step ∈ steps, isDots step = false) :
    resolve done steps = done.reverse ++ steps := by
  induction steps generalizing done with
  | nil => simp [resolve]
  | cons step steps ih =>
    obtain ⟨hstep, hsteps⟩ := List.forall_mem_cons.mp h
    rw [resolve_cons_of_plain hstep, ih hsteps, List.reverse_cons, List.append_assoc]
    rfl

theorem exists_resolve_append (h : isDots step = false) (done steps : List (List Char)) :
    ∃ front, ∀ more, resolve done (steps ++ step :: more) =
      resolve (front ++ [step]).reverse more := by
  induction steps generalizing done with
  | nil =>
    refine ⟨done.reverse, fun more => ?_⟩
    rw [List.nil_append, resolve_cons_of_plain h, List.reverse_append, List.reverse_reverse]
    rfl
  | cons first steps ih =>
    have hsome (more : List (List Char)) : (steps ++ step :: more).isEmpty = false := by simp
    simp only [List.cons_append, resolve, hsome, Bool.false_eq_true, if_false]
    split
    · exact ih _
    · split
      · exact ih _
      · exact ih _

theorem resolve_ne_nil (h : steps ≠ []) : resolve done steps ≠ [] := by
  induction steps generalizing done with
  | nil => exact absurd rfl h
  | cons step steps ih =>
    cases steps with
    | nil =>
      simp only [resolve, List.isEmpty_nil, if_true]
      split
      · simp
      · split <;> simp
    | cons =>
      rw [resolve]
      split
      · exact ih (List.cons_ne_nil _ _)
      · split
        · exact ih (List.cons_ne_nil _ _)
        · exact ih (List.cons_ne_nil _ _)

end Resolve

end Url

section PathBytes

variable {done steps : List (List Char)} {step s : List Char}

@[simp] theorem pathBytes_nil : pathBytes [] = [] := rfl

@[simp] theorem pathBytes_cons (step : List Char) (steps : List (List Char)) :
    pathBytes (step :: steps) = 0x2F :: (percentDecode step ++ pathBytes steps) := rfl

@[simp] theorem pathBytes_append (done steps : List (List Char)) :
    pathBytes (done ++ steps) = pathBytes done ++ pathBytes steps :=
  List.flatMap_append

theorem percentDecode_flatMap (s : List Char) (steps : List (List Char)) :
    percentDecode (s ++ steps.flatMap ('/' :: ·)) = percentDecode s ++ pathBytes steps := by
  induction steps generalizing s with
  | nil => simp
  | cons step steps ih =>
    rw [List.flatMap_cons, List.cons_append, percentDecode_append_slash, ih, pathBytes_cons]

theorem pathBytes_splitOn (s : List Char) :
    pathBytes (splitOn '/' s) = 0x2F :: percentDecode s := by
  obtain ⟨first, rest, hs⟩ := List.exists_cons_of_ne_nil (Text.splitOn_ne_nil '/' s)
  obtain ⟨rfl, -⟩ := Text.splitOn_eq_cons_iff.mp hs
  rw [hs, percentDecode_flatMap, pathBytes_cons]

theorem length_pathBytes_reverse (steps : List (List Char)) :
    (pathBytes steps.reverse).length = (pathBytes steps).length := by
  induction steps with
  | nil => rfl
  | cons step steps ih =>
    rw [List.reverse_cons, pathBytes_append, List.length_append, ih, pathBytes_cons, pathBytes_cons,
      pathBytes_nil, List.append_nil]
    simp only [List.length_cons, List.length_append]
    omega

theorem length_pathBytes_drop_le (n : Nat) (steps : List (List Char)) :
    (pathBytes (steps.drop n)).length ≤ (pathBytes steps).length := by
  conv => rhs; rw [← List.take_append_drop n steps, pathBytes_append, List.length_append]
  exact Nat.le_add_left _ _

theorem length_percentDecode_pos (h : s ≠ []) : 0 < (percentDecode s).length := by
  induction s using escape_induction with
  | nil => exact absurd rfl h
  | escape s ha hb _ =>
    rw [percentDecode_escape ha hb]
    exact Nat.succ_pos _
  | @plain c s hstart _ =>
    have hpos := c.utf8Size_pos
    rw [percentDecode_cons hstart, List.length_append, String.length_utf8EncodeChar]
    omega

theorem length_pathBytes_resolve (done steps : List (List Char)) :
    (pathBytes (Url.resolve done steps)).length + steps.countP Url.isDots ≤
      (pathBytes done).length + (pathBytes steps).length := by
  induction steps generalizing done with
  | nil => rw [Url.resolve, length_pathBytes_reverse]; exact le_rfl
  | cons step steps ih =>
    cases hdots : Url.isDots step with
    | false =>
      have hrest := ih (step :: done)
      rw [List.countP_cons_of_neg (by simp [hdots]), Url.resolve_cons_of_plain hdots]
      simp only [pathBytes_cons, List.length_cons, List.length_append] at hrest ⊢
      omega
    | true =>
      have hstep : 0 < (percentDecode step).length := by
        refine length_percentDecode_pos fun hnil => ?_
        rw [hnil, Url.isDots_nil] at hdots
        cases hdots
      -- What was passed before stays or gets shorter, but for an empty step at the end.
      have hdone (last : Bool) (l : List (List Char))
          (hl : (pathBytes l).length ≤ (pathBytes done).length) :
          (pathBytes (if last then [] :: l else l)).length ≤ (pathBytes done).length + 1 := by
        cases last with
        | true => simpa [percentDecode] using hl
        | false => exact Nat.le_succ_of_le hl
      have hup := hdone steps.isEmpty _ (length_pathBytes_drop_le 1 done)
      have hstay := hdone steps.isEmpty done le_rfl
      rw [List.countP_cons_of_pos hdots, Url.resolve]
      simp only [pathBytes_cons, List.length_cons, List.length_append]
      split
      case isTrue =>
        have hrest := ih (if steps.isEmpty then [] :: done.drop 1 else done.drop 1)
        omega
      case isFalse =>
        have hdot : Url.isDot step = true := by simpa [Url.isDots, *] using hdots
        have hrest := ih (if steps.isEmpty then [] :: done else done)
        rw [if_pos hdot]
        omega

end PathBytes

end WorkflowAudit.Http
