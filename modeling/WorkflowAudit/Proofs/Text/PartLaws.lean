import Mathlib
import WorkflowAudit.Text.Blank
import WorkflowAudit.Text.Split

namespace WorkflowAudit.Text

variable {s part word : List Char} {separator : Char}

theorem contains_iff : contains s part ↔ part <:+: s := by
  induction s with
  | nil => simp [contains]
  | cons c s ih =>
    simp only [contains, Bool.or_eq_true, List.isPrefixOf_iff_prefix]
    rw [ih, List.infix_cons_iff]

section Runs

variable {p : Char → Bool} {run rest : List Char}

theorem takeWhile_run (hrun : ∀ c ∈ run, p c) (hrest : ∀ c ∈ rest.head?, p c = false) :
    (run ++ rest).takeWhile p = run := by
  rw [List.takeWhile_append_of_pos hrun]
  cases rest with
  | nil => simp
  | cons c rest => simp [hrest c rfl]

theorem dropWhile_run (hrun : ∀ c ∈ run, p c) (hrest : ∀ c ∈ rest.head?, p c = false) :
    (run ++ rest).dropWhile p = rest := by
  rw [List.dropWhile_append_of_pos hrun]
  cases rest with
  | nil => rfl
  | cons c rest => simp [hrest c rfl]

theorem takeWhile_append_trimStart (s : List Char) : s.takeWhile isBlank ++ trimStart s = s :=
  List.takeWhile_append_dropWhile

theorem isBlank_of_trimStart_eq_cons {c : Char} (h : trimStart s = c :: rest) :
    isBlank c = false := by
  have hhead := List.head?_dropWhile_not isBlank s
  rw [← trimStart, h] at hhead
  exact hhead

end Runs

def IsFirstWord (word s : List Char) : Prop :=
  ∃ lead rest, s = lead ++ word ++ rest ∧ (∀ c ∈ lead, isBlank c) ∧ word ≠ [] ∧
    (∀ c ∈ word, isBlank c = false) ∧ ∀ c ∈ rest.head?, isBlank c

theorem firstWord?_eq_some_iff : firstWord? s = some word ↔ IsFirstWord word s := by
  rw [firstWord?]
  constructor
  · intro h
    cases ht : trimStart s with
    | nil =>
      rw [ht] at h
      cases h
    | cons c t =>
      rw [ht] at h
      obtain rfl := Option.some.inj h
      refine ⟨s.takeWhile isBlank, (c :: t).dropWhile fun c => !isBlank c, ?_,
        fun c => List.mem_takeWhile_imp, by simp [isBlank_of_trimStart_eq_cons ht],
        fun d hd => by simpa using List.mem_takeWhile_imp hd, fun d hd => ?_⟩
      · rw [List.append_assoc, List.takeWhile_append_dropWhile, ← ht, takeWhile_append_trimStart]
      · have := List.head?_dropWhile_not (fun c => !isBlank c) (c :: t)
        rw [hd] at this
        simpa using this
  · rintro ⟨lead, rest, rfl, hlead, hne, hword, hrest⟩
    obtain ⟨c, word, rfl⟩ := List.exists_cons_of_ne_nil hne
    have hdrop : trimStart (lead ++ (c :: word) ++ rest) = (c :: word) ++ rest := by
      rw [List.append_assoc]
      exact dropWhile_run hlead (by simpa using hword c List.mem_cons_self)
    rw [hdrop]
    exact congrArg some (takeWhile_run (by simpa using hword) (by simpa using hrest))

theorem splitOn_eq_cons_iff {first : List Char} {rest : List (List Char)} :
    splitOn separator s = first :: rest ↔ s = first ++ rest.flatMap (separator :: ·) ∧
      ∀ piece ∈ first :: rest, separator ∉ piece := by
  induction s generalizing first rest with
  | nil =>
    simp only [splitOn, List.cons.injEq]
    constructor
    · rintro ⟨rfl, rfl⟩
      simp
    · rintro ⟨h, -⟩
      obtain ⟨rfl, hrest⟩ := List.append_eq_nil_iff.mp h.symm
      cases rest with
      | nil => exact ⟨rfl, rfl⟩
      | cons => cases hrest
  | cons c s ih =>
    obtain ⟨piece, pieces, hs⟩ := List.exists_cons_of_ne_nil (splitOn_ne_nil separator s)
    obtain ⟨heq, hpieces⟩ := ih.mp hs
    simp only [splitOn]
    by_cases hc : c = separator
    · rw [if_pos hc, hs]
      constructor
      · intro h
        obtain ⟨rfl, rfl⟩ := List.cons.inj h
        refine ⟨by simp [hc, heq], ?_⟩
        simpa using hpieces
      · rintro ⟨h, hall⟩
        cases first with
        | nil =>
          cases rest with
          | nil => cases h
          | cons p ps =>
            have hs' : splitOn separator s = p :: ps := by
              refine ih.mpr ⟨(List.cons.inj h).2, fun q hq => hall q (List.mem_cons_of_mem _ hq)⟩
            rw [← hs, hs']
        | cons d first =>
          obtain rfl := (List.cons.inj h).1
          exact absurd (hc ▸ List.mem_cons_self) (hall _ List.mem_cons_self)
    · rw [if_neg hc, hs]
      constructor
      · intro h
        obtain ⟨rfl, rfl⟩ := List.cons.inj h
        refine ⟨by simp [heq], ?_⟩
        simpa [Ne.symm hc] using hpieces
      · rintro ⟨h, hall⟩
        cases first with
        | nil =>
          cases rest with
          | nil => cases h
          | cons p ps => exact absurd (List.cons.inj h).1 hc
        | cons d first =>
          obtain ⟨rfl, hrest⟩ := List.cons.inj h
          have hs' : splitOn separator s = first :: rest := by
            refine ih.mpr ⟨hrest, ?_⟩
            simpa [Ne.symm hc] using hall
          obtain ⟨rfl, rfl⟩ := List.cons.inj (hs.symm.trans hs')
          rfl

theorem splitOn_append (s t : List Char) :
    splitOn separator (s ++ separator :: t) = splitOn separator s ++ splitOn separator t := by
  induction s with
  | nil => simp [splitOn]
  | cons c s ih =>
    obtain ⟨piece, pieces, hs⟩ := List.exists_cons_of_ne_nil (splitOn_ne_nil separator s)
    rw [List.cons_append, splitOn, splitOn, ih, hs]
    split <;> rfl

theorem splitOn_of_not_mem (h : separator ∉ s) : splitOn separator s = [s] := by
  rw [splitOn_eq_cons_iff]
  exact ⟨by simp, by simpa using h⟩

theorem mem_splitOn_iff {piece : List Char} : piece ∈ splitOn separator s ↔
    ∃ before after, s = before ++ piece ++ after ∧ separator ∉ piece ∧
      (before.getLast? = none ∨ before.getLast? = some separator) ∧
      (after.head? = none ∨ after.head? = some separator) := by
  constructor
  · intro h
    obtain ⟨first, rest, hs⟩ := List.exists_cons_of_ne_nil (splitOn_ne_nil separator s)
    obtain ⟨rfl, hpieces⟩ := splitOn_eq_cons_iff.mp hs
    have hpiece := hpieces piece (hs ▸ h)
    have hafter : ∀ pieces : List (List Char), (pieces.flatMap (separator :: ·)).head? = none ∨
        (pieces.flatMap (separator :: ·)).head? = some separator := by
      intro pieces
      cases pieces <;> simp
    rw [hs, List.mem_cons] at h
    rcases h with rfl | h
    · exact ⟨[], rest.flatMap (separator :: ·), by simp, hpiece, .inl rfl, hafter rest⟩
    · obtain ⟨earlier, later, rfl⟩ := List.append_of_mem h
      exact ⟨first ++ earlier.flatMap (separator :: ·) ++ [separator],
        later.flatMap (separator :: ·), by simp, hpiece, .inr (by simp), hafter later⟩
  · rintro ⟨before, after, rfl, hpiece, hbefore, hafter⟩
    have hend : piece ∈ splitOn separator (piece ++ after) := by
      cases after with
      | nil => simp [splitOn_of_not_mem hpiece]
      | cons c after =>
        obtain rfl : c = separator := by simpa using hafter
        simp [splitOn_append, splitOn_of_not_mem hpiece]
    rcases List.eq_nil_or_concat before with rfl | ⟨before, c, rfl⟩
    · exact hend
    · obtain rfl : c = separator := by simpa using hbefore
      rw [List.concat_eq_append, List.append_assoc, List.append_assoc, List.singleton_append,
        splitOn_append]
      exact List.mem_append_right _ hend

section Lines

variable {c : Char} {line rest : List Char} {ls : List (List Char)}

def withoutReturn (line : List Char) : List Char :=
  if line.getLast? = some '\r' then line.dropLast else line

theorem withoutReturn_of_not_mem (h : '\r' ∉ line) : withoutReturn line = line :=
  if_neg fun hlast => h (List.mem_of_getLast? hlast)

theorem withoutReturn_cons_cons (c d : Char) (line : List Char) :
    withoutReturn (c :: d :: line) = c :: withoutReturn (d :: line) := by
  simp only [withoutReturn, List.getLast?_cons_cons, List.dropLast_cons_cons]
  split <;> rfl

theorem lines_append_newline (h : '\n' ∉ line) :
    lines (line ++ '\n' :: rest) = withoutReturn line :: lines rest := by
  induction line with
  | nil => rfl
  | cons c line ih =>
    rw [List.mem_cons, not_or] at h
    obtain ⟨hc, hline⟩ := h
    cases line with
    | nil =>
      by_cases hreturn : c = '\r'
      · subst hreturn
        rfl
      · have hkept : withoutReturn [c] = [c] :=
          withoutReturn_of_not_mem (by simpa using Ne.symm hreturn)
        rw [List.singleton_append, lines, lines, hkept]
        · exact hc ∘ Eq.symm
        · exact fun _ heq => absurd heq hreturn
    | cons d line =>
      have hd : d ≠ '\n' := fun heq => hline (heq ▸ List.mem_cons_self)
      rw [List.cons_append, lines, ih hline, withoutReturn_cons_cons]
      · exact hc ∘ Eq.symm
      · exact fun _ _ heq => hd (List.cons.inj heq).1

theorem lines_unlines (h : ∀ line ∈ ls, '\n' ∉ line) :
    lines (unlines ls) = ls.map withoutReturn := by
  induction ls with
  | nil => rfl
  | cons line ls ih =>
    obtain ⟨hline, hls⟩ := List.forall_mem_cons.mp h
    rw [List.map_cons, ← ih hls, ← lines_append_newline hline]
    simp [unlines]

theorem newline_not_mem_of_mem_lines (h : line ∈ lines s) : '\n' ∉ line := by
  fun_induction lines s generalizing line with
  | case1 => cases h
  | case2 rest ih | case3 rest ih =>
    rcases List.mem_cons.mp h with rfl | h
    · exact List.not_mem_nil
    · exact ih h
  | case4 c rest hnewline _ hrest ih =>
    obtain rfl := List.mem_singleton.mp h
    simpa using fun heq => hnewline heq.symm
  | case5 c rest hnewline _ first others hrest ih =>
    rcases List.mem_cons.mp h with rfl | h
    · rw [List.mem_cons, not_or]
      exact ⟨fun heq => hnewline heq.symm, ih (hrest ▸ List.mem_cons_self)⟩
    · exact ih (hrest ▸ List.mem_cons_of_mem first h)

theorem mem_of_mem_lines (h : line ∈ lines s) (hc : c ∈ line) : c ∈ s := by
  fun_induction lines s generalizing line with
  | case1 => cases h
  | case2 rest ih =>
    rcases List.mem_cons.mp h with rfl | h
    · cases hc
    · exact List.mem_cons_of_mem _ (ih h hc)
  | case3 rest ih =>
    rcases List.mem_cons.mp h with rfl | h
    · cases hc
    · exact List.mem_cons_of_mem _ (List.mem_cons_of_mem _ (ih h hc))
  | case4 d rest _ _ hrest ih =>
    obtain rfl := List.mem_singleton.mp h
    exact List.mem_singleton.mp hc ▸ List.mem_cons_self
  | case5 d rest _ _ first others hrest ih =>
    rcases List.mem_cons.mp h with rfl | h
    · rcases List.mem_cons.mp hc with rfl | hc
      · exact List.mem_cons_self
      · exact List.mem_cons_of_mem _ (ih (hrest ▸ List.mem_cons_self) hc)
    · exact List.mem_cons_of_mem _ (ih (hrest ▸ List.mem_cons_of_mem first h) hc)

end Lines

section Columns

variable {lead rest : List Char} {n : Nat}

@[simp] theorem byteCount_cons (c : Char) (s : List Char) :
    byteCount (c :: s) = c.utf8Size + byteCount s := rfl

@[simp] theorem byteCount_append (s t : List Char) :
    byteCount (s ++ t) = byteCount s + byteCount t := by
  induction s with
  | nil => exact (Nat.zero_add _).symm
  | cons c s ih => rw [List.cons_append, byteCount_cons, byteCount_cons, ih, Nat.add_assoc]

@[simp] theorem byteCount_eq_zero_iff : byteCount s = 0 ↔ s = [] := by
  cases s with
  | nil => simp [byteCount]
  | cons c s =>
    have hpos := c.utf8Size_pos
    rw [byteCount_cons, iff_false_right (List.cons_ne_nil c s)]
    omega

theorem byteCount_eq_length (h : ∀ c ∈ lead, c.utf8Size = 1) : byteCount lead = lead.length := by
  induction lead with
  | nil => rfl
  | cons c lead ih =>
    obtain ⟨hc, hlead⟩ := List.forall_mem_cons.mp h
    rw [byteCount_cons, hc, ih hlead, List.length_cons, Nat.add_comm]

theorem dropBytes?_append (h : ∀ c ∈ lead, c.utf8Size = 1) (hn : n ≤ lead.length) :
    dropBytes? n (lead ++ rest) = some ((lead ++ rest).drop n) := by
  induction lead generalizing n with
  | nil =>
    obtain rfl := Nat.le_zero.mp hn
    simp [dropBytes?]
  | cons c lead ih =>
    obtain ⟨hc, hlead⟩ := List.forall_mem_cons.mp h
    cases n with
    | zero => simp [dropBytes?]
    | succ n =>
      simp only [List.cons_append, dropBytes?, hc, Nat.le_add_left, if_true, Nat.add_sub_cancel,
        List.drop_succ_cons]
      exact ih hlead (Nat.le_of_succ_le_succ hn)

theorem dropBytes?_eq_none (h : byteCount s < n) : dropBytes? n s = none := by
  induction s generalizing n with
  | nil =>
    obtain ⟨n, rfl⟩ := Nat.exists_eq_add_one_of_ne_zero (Nat.ne_of_gt h)
    simp [dropBytes?]
  | cons c s ih =>
    rw [byteCount_cons] at h
    obtain ⟨n, rfl⟩ := Nat.exists_eq_add_one_of_ne_zero (by omega : n ≠ 0)
    rw [dropBytes?, if_pos (by omega)]
    exact ih (by omega)

theorem dropBytes?_byteCount_append (lead rest : List Char) :
    dropBytes? (byteCount lead) (lead ++ rest) = some rest := by
  induction lead with
  | nil => simp [byteCount, dropBytes?]
  | cons c lead ih =>
    have hpos := c.utf8Size_pos
    obtain ⟨n, hn⟩ := Nat.exists_eq_add_one_of_ne_zero (by omega : c.utf8Size + byteCount lead ≠ 0)
    rw [byteCount_cons, List.cons_append, hn, dropBytes?, if_pos (by omega), ← hn,
      Nat.add_sub_cancel_left, ih]

theorem exists_of_dropBytes? (h : dropBytes? n s = some rest) :
    ∃ lead, s = lead ++ rest ∧ byteCount lead = n := by
  fun_induction dropBytes? n s with
  | case1 s =>
    obtain rfl := Option.some.inj h
    exact ⟨[], rfl, rfl⟩
  | case2 | case4 => cases h
  | case3 n c s hfits ih =>
    obtain ⟨lead, rfl, hn⟩ := ih h
    exact ⟨c :: lead, rfl, by rw [byteCount_cons, hn]; omega⟩

theorem dropBytes?_eq_some_iff :
    dropBytes? n s = some rest ↔ ∃ lead, s = lead ++ rest ∧ byteCount lead = n := by
  refine ⟨exists_of_dropBytes?, ?_⟩
  rintro ⟨lead, rfl, rfl⟩
  exact dropBytes?_byteCount_append lead rest

end Columns

end WorkflowAudit.Text
