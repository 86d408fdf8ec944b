import WorkflowAudit.Proofs.Text.PartLaws
import WorkflowAudit.Text.Digits

namespace WorkflowAudit.Text

variable {s digits rest : List Char} {c : Char} {bits n : Nat}

def IsNumeral (bits : Nat) (s : List Char) (n : Nat) : Prop :=
  ∃ sign digits, s = sign ++ digits ∧ (sign = [] ∨ sign = ['+']) ∧ digits ≠ [] ∧
    (∀ c ∈ digits, c.isDigit) ∧ decimalValue digits = n ∧ n < Nat.pow 2 bits

def IsSpacedNumeral (bits : Nat) (s : List Char) (n : Nat) : Prop :=
  ∃ before numeral after, s = before ++ numeral ++ after ∧ (∀ c ∈ before, isBlank c) ∧
    (∀ c ∈ after, isBlank c) ∧ IsNumeral bits numeral n

section Trim

variable {before after : List Char}

theorem exists_trim_eq (s : List Char) : ∃ before after, s = before ++ trim s ++ after ∧
    (∀ c ∈ before, isBlank c) ∧ ∀ c ∈ after, isBlank c := by
  have hend : trimEnd (trimStart s) ++ ((trimStart s).reverse.takeWhile isBlank).reverse =
      trimStart s := by
    rw [trimEnd, ← List.reverse_append, List.takeWhile_append_dropWhile, List.reverse_reverse]
  refine ⟨s.takeWhile isBlank, ((trimStart s).reverse.takeWhile isBlank).reverse, ?_,
    fun c => List.mem_takeWhile_imp, fun c hc => ?_⟩
  · rw [trim, List.append_assoc, hend, takeWhile_append_trimStart]
  · exact List.mem_takeWhile_imp (List.mem_reverse.mp hc)

theorem trim_append (hbefore : ∀ c ∈ before, isBlank c) (hafter : ∀ c ∈ after, isBlank c)
    (hhead : ∀ c ∈ s.head?, isBlank c = false) (hlast : ∀ c ∈ s.getLast?, isBlank c = false)
    (hne : s ≠ []) : trim (before ++ s ++ after) = s := by
  have hstart : trimStart (before ++ s ++ after) = s ++ after := by
    rw [trimStart, List.append_assoc, dropWhile_run hbefore]
    rwa [List.head?_append_of_ne_nil _ hne]
  rw [trim, hstart, trimEnd, List.reverse_append, dropWhile_run, List.reverse_reverse]
  · exact fun c hc => hafter c (List.mem_reverse.mp hc)
  · rwa [List.head?_reverse]

end Trim

section Digits

theorem toNat_of_isDigit (h : c.isDigit) : 48 ≤ c.toNat ∧ c.toNat ≤ 57 := by
  simpa [Char.isDigit, UInt32.le_iff_toNat_le] using h

theorem isBlank_of_isDigit (h : c.isDigit) : isBlank c = false := by
  have hrange := toNat_of_isDigit h
  simp only [isBlank, Bool.or_eq_false_iff, Bool.and_eq_false_iff, decide_eq_false_iff_not,
    beq_eq_false_iff_ne]
  omega

theorem filter_hexDigit? (c : Char) : (hexDigit? c).filter (· < 10) =
    if c.isDigit then some (digitValue c) else none := by
  by_cases h : c.isDigit
  · have hrange := toNat_of_isDigit h
    have hvalue : c.toNat - '0'.toNat < 10 := by
      have hzero : '0'.toNat = 48 := rfl
      omega
    rw [hexDigit?, if_pos h, if_pos h, Option.filter_some, if_pos (decide_eq_true hvalue)]
    rfl
  · rw [if_neg h, hexDigit?, if_neg h]
    split
    · rw [Option.filter_some, if_neg (by simp)]
    · split
      · rw [Option.filter_some, if_neg (by simp)]
      · rfl

theorem mapM_decimal_eq_some_iff {values : List Nat} :
    (s.mapM fun c => (hexDigit? c).filter (· < 10)) = some values ↔
      (∀ c ∈ s, c.isDigit) ∧ s.map digitValue = values := by
  induction s generalizing values with
  | nil => simp [List.mapM_nil, pure]
  | cons c s ih =>
    rw [List.mapM_cons, filter_hexDigit?]
    by_cases h : c.isDigit
    · rw [if_pos h, Option.bind_eq_bind, Option.bind_some, Option.bind_eq_bind,
        Option.bind_eq_some_iff]
      simp only [ih, List.forall_mem_cons, h, true_and, List.map_cons]
      constructor
      · rintro ⟨tail, ⟨hs, rfl⟩, hvalues⟩
        exact ⟨hs, Option.some.inj hvalues⟩
      · rintro ⟨hs, rfl⟩
        exact ⟨_, ⟨hs, rfl⟩, rfl⟩
    · simp [h]

theorem numeral?_eq_some_iff :
    numeral? 10 s = some n ↔ s ≠ [] ∧ (∀ c ∈ s, c.isDigit) ∧ decimalValue s = n := by
  cases s with
  | nil => simp [numeral?]
  | cons c s =>
    simp only [numeral?, List.isEmpty_cons, Bool.false_eq_true, if_false, Option.map_eq_some_iff,
      mapM_decimal_eq_some_iff, decimalValue]
    constructor
    · rintro ⟨values, ⟨hdigits, rfl⟩, rfl⟩
      exact ⟨List.cons_ne_nil c s, hdigits, rfl⟩
    · rintro ⟨-, hdigits, rfl⟩
      exact ⟨_, ⟨hdigits, rfl⟩, rfl⟩

theorem digitValue_eq_zero_iff (h : c.isDigit) : digitValue c = 0 ↔ c = '0' := by
  have hrange := toNat_of_isDigit h
  have hzero : '0'.toNat = 48 := rfl
  rw [digitValue, ← Char.toNat_inj, hzero]
  omega

theorem decimalValue_append_singleton (s : List Char) (c : Char) :
    decimalValue (s ++ [c]) = 10 * decimalValue s + digitValue c := by
  rw [decimalValue, List.map_append, List.map_singleton, valueInBase_append_singleton,
    decimalValue]

theorem decimalValue_eq_zero_iff (h : ∀ c ∈ s, c.isDigit) :
    decimalValue s = 0 ↔ ∀ c ∈ s, c = '0' := by
  induction s using List.reverseRecOn with
  | nil => simp [decimalValue, valueInBase]
  | append_singleton s c ih =>
    obtain ⟨hs, hc⟩ := List.forall_mem_append.mp h
    rw [List.forall_mem_singleton] at hc
    rw [decimalValue_append_singleton, List.forall_mem_append, List.forall_mem_singleton, ← ih hs,
      ← digitValue_eq_zero_iff hc]
    omega

theorem decimalValue_mem_Icc_iff (h : ∀ c ∈ digits, c.isDigit) :
    decimalValue digits ∈ Set.Icc 1 9 ↔
      ∃ zeros c, digits = List.replicate zeros '0' ++ [c] ∧ c ≠ '0' := by
  induction digits using List.reverseRecOn with
  | nil => simp [decimalValue, valueInBase]
  | append_singleton s last _ =>
    obtain ⟨hs, hlast⟩ := List.forall_mem_append.mp h
    rw [List.forall_mem_singleton] at hlast
    have hrange := toNat_of_isDigit hlast
    have hzeros := decimalValue_eq_zero_iff hs
    have hlastZero := digitValue_eq_zero_iff hlast
    have hvalue : digitValue last ≤ 9 := by
      have hzero : '0'.toNat = 48 := rfl
      rw [digitValue, hzero]
      omega
    rw [decimalValue_append_singleton, Set.mem_Icc]
    constructor
    · intro hone
      have hall : ∀ c ∈ s, c = '0' := hzeros.mp (by omega)
      refine ⟨s.length, last, ?_, fun h => ?_⟩
      · rw [← List.eq_replicate_of_mem hall]
      · have := hlastZero.mpr h
        have := hzeros.mpr hall
        omega
    · rintro ⟨zeros, c, heq, hne⟩
      obtain ⟨rfl, rfl⟩ := List.append_singleton_inj.mp heq
      have hall := hzeros.mpr fun c hc => List.eq_of_mem_replicate hc
      have hne' := mt hlastZero.mp hne
      omega

end Digits

section Numerals

theorem natural?_eq_some_iff : natural? bits s = some n ↔ IsNumeral bits s n := by
  simp only [natural?, Option.filter_eq_some_iff, numeral?_eq_some_iff, decide_eq_true_eq]
  constructor
  · rintro ⟨h, hn⟩
    split at h
    · exact ⟨['+'], _, rfl, .inr rfl, h.1, h.2.1, h.2.2, hn⟩
    · exact ⟨[], _, rfl, .inl rfl, h.1, h.2.1, h.2.2, hn⟩
  · rintro ⟨sign, digits, rfl, rfl | rfl, hne, hdigits, hvalue, hn⟩
    · have hplus : ∀ rest, digits ≠ '+' :: rest := fun rest heq =>
        absurd (hdigits '+' (heq ▸ List.mem_cons_self)) (by decide)
      split
      · exact absurd ‹_› (hplus _)
      · exact ⟨⟨hne, hdigits, hvalue⟩, hn⟩
    · exact ⟨⟨hne, hdigits, hvalue⟩, hn⟩

theorem IsNumeral.ne_nil (h : IsNumeral bits s n) : s ≠ [] := by
  obtain ⟨sign, digits, rfl, -, hne, -⟩ := h
  exact List.append_ne_nil_of_right_ne_nil sign hne

theorem IsNumeral.isBlank_eq_false (h : IsNumeral bits s n) : ∀ c ∈ s, isBlank c = false := by
  obtain ⟨sign, digits, rfl, hsign, -, hdigits, -⟩ := h
  intro c hc
  rcases List.mem_append.mp hc with hc | hc
  · rcases hsign with rfl | rfl
    · cases hc
    · rw [List.mem_singleton.mp hc]
      decide
  · exact isBlank_of_isDigit (hdigits c hc)

theorem natural?_trim_eq_some_iff :
    natural? bits (trim s) = some n ↔ IsSpacedNumeral bits s n := by
  rw [natural?_eq_some_iff]
  constructor
  · intro h
    obtain ⟨before, after, hs, hbefore, hafter⟩ := exists_trim_eq s
    exact ⟨before, trim s, after, hs, hbefore, hafter, h⟩
  · rintro ⟨before, numeral, after, rfl, hbefore, hafter, h⟩
    have hblank := h.isBlank_eq_false
    rw [trim_append hbefore hafter (fun c hc => hblank c (List.mem_of_mem_head? hc))
      (fun c hc => hblank c (List.mem_of_getLast? hc)) h.ne_nil]
    exact h

theorem isSpacedNumeral_toString (h : n < Nat.pow 2 bits) :
    IsSpacedNumeral bits (toString n).toList n := by
  have hdigits : (toString n).toList = Nat.toDigits 10 n := Nat.toList_repr
  refine ⟨[], _, [], (List.append_nil _).symm, List.forall_mem_nil _, List.forall_mem_nil _,
    [], Nat.toDigits 10 n, hdigits, .inl rfl, Nat.toDigits_ne_nil, fun c => ?_, ?_, h⟩
  · exact Nat.isDigit_of_mem_toDigits (by decide) (by decide)
  · rw [decimalValue, valueInBase, List.foldl_map]
    exact Nat.ofDigitChars_ten_toDigits

end Numerals

end WorkflowAudit.Text
