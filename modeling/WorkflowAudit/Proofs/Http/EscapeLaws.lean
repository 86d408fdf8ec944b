import WorkflowAudit.Http.Url
import WorkflowAudit.Proofs.Text.PartLaws

/-! Escapes: the bytes that a text with percent signs stands for. Encoding a text changes nothing
about what it stands for, and a text stands for itself exactly if no escape is in it. -/

namespace WorkflowAudit.Http

open Text (byteCount hexDigit?)

variable {s t : List Char} {c : Char}

def utf8 (s : List Char) : List UInt8 := s.flatMap String.utf8EncodeChar

/-- The bytes that a text stands for once its escapes, each a percent sign and two hexadecimal
digits, are read. A percent sign before anything else is itself. -/
def percentDecode : List Char → List UInt8
  | [] => []
  | '%' :: a :: b :: s =>
    match hexDigit? a, hexDigit? b with
    | some m, some n => UInt8.ofNat (16 * m + n) :: percentDecode s
    | _, _ => String.utf8EncodeChar '%' ++ percentDecode (a :: b :: s)
  | c :: s => String.utf8EncodeChar c ++ percentDecode s

def StartsEscape (s : List Char) : Prop :=
  ∃ a b rest, s = '%' :: a :: b :: rest ∧ (hexDigit? a).isSome ∧ (hexDigit? b).isSome

theorem StartsEscape.ne_nil (h : StartsEscape s) : s ≠ [] := by
  obtain ⟨a, b, rest, rfl, -⟩ := h
  exact List.cons_ne_nil _ _

section Bytes

@[simp] theorem utf8_cons (c : Char) (s : List Char) :
    utf8 (c :: s) = String.utf8EncodeChar c ++ utf8 s := rfl

theorem length_utf8 (s : List Char) : (utf8 s).length = byteCount s := by
  induction s with
  | nil => rfl
  | cons c s ih =>
    rw [utf8_cons, List.length_append, String.length_utf8EncodeChar, ih, Text.byteCount_cons]

theorem utf8_injective : Function.Injective utf8 := by
  intro s t h
  have hbytes : (String.ofList s).toByteArray = (String.ofList t).toByteArray :=
    congrArg List.toByteArray h
  exact String.ofList_injective (String.toByteArray_inj.mp hbytes)

theorem byteCount_le_of_sublist (h : t.Sublist s) : byteCount t ≤ byteCount s := by
  induction h with
  | slnil => exact le_rfl
  | cons c _ ih => exact ih.trans (Nat.le_add_left _ _)
  | cons_cons c _ ih => exact Nat.add_le_add_left ih _

theorem eq_of_sublist_of_byteCount_le (h : t.Sublist s) (hle : byteCount s ≤ byteCount t) :
    t = s := by
  induction h with
  | slnil => rfl
  | cons c hsub _ =>
    have hmore := byteCount_le_of_sublist hsub
    have hpos := c.utf8Size_pos
    rw [Text.byteCount_cons] at hle
    omega
  | cons_cons c _ ih => exact congrArg (c :: ·) (ih (Nat.le_of_add_le_add_left hle))

end Bytes

section Encode

def Url.isEncoded (c : Char) : Bool := isEscapedInPath c || c.toNat ≤ 0x20 || 0x7F ≤ c.toNat

theorem toNat_of_isSome_hexDigit? (h : (hexDigit? c).isSome) :
    (0x30 ≤ c.toNat ∧ c.toNat ≤ 0x39) ∨ (0x41 ≤ c.toNat ∧ c.toNat ≤ 0x46) ∨
      (0x61 ≤ c.toNat ∧ c.toNat ≤ 0x66) := by
  rw [hexDigit?] at h
  split at h
  case isTrue hdigit => exact .inl (by simpa [Char.isDigit, UInt32.le_iff_toNat_le] using hdigit)
  case isFalse =>
    split at h
    case isTrue hlower =>
      exact .inr (.inr (by simpa [Char.le_def, UInt32.le_iff_toNat_le] using hlower))
    case isFalse =>
      split at h
      case isTrue hupper =>
        exact .inr (.inl (by simpa [Char.le_def, UInt32.le_iff_toNat_le] using hupper))
      case isFalse => cases h

theorem isEncoded_of_isSome_hexDigit? (h : (hexDigit? c).isSome) : Url.isEncoded c = false := by
  have hrange := toNat_of_isSome_hexDigit? h
  have hescaped : Url.isEscapedInPath c = false := by
    rw [Url.isEscapedInPath, Bool.eq_false_iff]
    intro hc
    have hlist : c ∈ ['"', '#', '<', '>', '?', '\u0060', '\x7b', '\x7d'] := by simpa using hc
    fin_cases hlist <;> simp at hrange
  simp only [Url.isEncoded, hescaped, Bool.false_or, Bool.or_eq_false_iff, decide_eq_false_iff_not]
  omega

theorem hexDigit?_upperHex (n : Nat) : hexDigit? (Text.upperHex n) = some (n % 16) := by
  have hdigit : ∀ d < 16, hexDigit? (Nat.digitChar d).toUpper = some d := by decide
  exact hdigit _ (Nat.mod_lt _ (by decide))

theorem toList_loop_eq (bytes : ByteArray) (i : Nat) (read : List UInt8) :
    ByteArray.toList.loop bytes i read = read.reverse ++ bytes.data.toList.drop i := by
  induction i, read using ByteArray.toList.loop.induct bytes with
  | case1 i read hi ih =>
    have hi' : i < bytes.data.toList.length := by simpa using hi
    rw [ByteArray.toList.loop, if_pos hi, ih, List.drop_eq_getElem_cons hi']
    simp [ByteArray.get!, hi]
  | case2 i read hi =>
    rw [ByteArray.toList.loop, if_neg hi,
      List.drop_eq_nil_of_le (by simpa using Nat.le_of_not_lt hi), List.append_nil]

theorem toList_toUTF8_singleton (c : Char) :
    (String.singleton c).toUTF8.toList = String.utf8EncodeChar c := by
  have hbytes : (String.singleton c).toUTF8 = (String.utf8EncodeChar c).toByteArray := by
    simp [List.utf8Encode]
  rw [ByteArray.toList, toList_loop_eq, hbytes]
  simp

theorem Url.encode_cons_of_isEncoded (h : isEncoded c = true) (s : List Char) :
    encode isEscapedInPath (c :: s) =
      (String.utf8EncodeChar c).flatMap percentByte ++ encode isEscapedInPath s := by
  rw [encode, List.flatMap_cons, toList_toUTF8_singleton, if_pos (by simpa [isEncoded] using h)]
  rfl

theorem Url.encode_cons_of_not_isEncoded (h : isEncoded c = false) (s : List Char) :
    encode isEscapedInPath (c :: s) = c :: encode isEscapedInPath s := by
  rw [encode, List.flatMap_cons, if_neg (by simpa [isEncoded] using h)]
  rfl

end Encode

section Decode

variable {a b : Char} {m n : Nat}

theorem percentDecode_escape (ha : hexDigit? a = some m) (hb : hexDigit? b = some n)
    (s : List Char) :
    percentDecode ('%' :: a :: b :: s) = UInt8.ofNat (16 * m + n) :: percentDecode s := by
  rw [percentDecode]
  simp only [ha, hb]

theorem percentDecode_cons (h : ¬StartsEscape (c :: s)) :
    percentDecode (c :: s) = String.utf8EncodeChar c ++ percentDecode s := by
  rw [percentDecode.eq_def]
  split
  case h_1 heq => cases heq
  case h_2 a b rest heq =>
    cases heq
    split
    case h_1 m n ha hb => exact absurd ⟨a, b, rest, rfl, by simp [ha], by simp [hb]⟩ h
    case h_2 => rfl
  case h_3 heq =>
    cases heq
    rfl

/-- A text is read escape by escape and, where none starts, character by character. -/
@[elab_as_elim]
theorem escape_induction {motive : List Char → Prop} (nil : motive [])
    (escape : ∀ {a b m n} (s), hexDigit? a = some m → hexDigit? b = some n → motive s →
      motive ('%' :: a :: b :: s))
    (plain : ∀ {c} (s), ¬StartsEscape (c :: s) → motive s → motive (c :: s)) (s : List Char) :
    motive s := by
  induction hlength : s.length using Nat.strongRecOn generalizing s with
  | ind length ih =>
    subst hlength
    cases s with
    | nil => exact nil
    | cons c s =>
      by_cases h : StartsEscape (c :: s)
      · obtain ⟨a, b, rest, heq, ha, hb⟩ := h
        obtain ⟨rfl, rfl⟩ := List.cons.inj heq
        obtain ⟨m, ha⟩ := Option.isSome_iff_exists.mp ha
        obtain ⟨n, hb⟩ := Option.isSome_iff_exists.mp hb
        refine escape rest ha hb (ih _ ?_ rest rfl)
        simp only [List.length_cons]
        omega
      · exact plain s h (ih _ (Nat.lt_succ_self _) s rfl)

theorem percentDecode_encoded (bytes : List UInt8) (s : List Char) :
    percentDecode (bytes.flatMap Url.percentByte ++ s) = bytes ++ percentDecode s := by
  induction bytes with
  | nil => rfl
  | cons byte bytes ih =>
    have hvalue : 16 * (byte.toNat / 16 % 16) + byte.toNat % 16 = byte.toNat := by
      have := byte.toNat_lt
      omega
    have hbyte : Url.percentByte byte =
        ['%', Text.upperHex (byte.toNat / 16), Text.upperHex byte.toNat] := rfl
    rw [List.flatMap_cons, hbyte, List.append_assoc]
    simp only [List.cons_append, List.nil_append]
    rw [percentDecode_escape (hexDigit?_upperHex _) (hexDigit?_upperHex _), hvalue, ih,
      UInt8.ofNat_toNat]

theorem eq_cons_of_encode_eq_cons (ha : (hexDigit? a).isSome)
    (h : Url.encode Url.isEscapedInPath s = a :: t) :
    ∃ rest, s = a :: rest ∧ Url.encode Url.isEscapedInPath rest = t := by
  cases s with
  | nil => cases h
  | cons c s =>
    cases hc : Url.isEncoded c with
    | true =>
      -- The encoding starts with a percent sign, which is no digit.
      obtain ⟨byte, bytes, hbytes⟩ := List.exists_cons_of_ne_nil (String.utf8EncodeChar_ne_nil)
      rw [Url.encode_cons_of_isEncoded hc, hbytes, List.flatMap_cons] at h
      obtain ⟨rfl, -⟩ := List.cons.inj h
      cases ha
    | false =>
      rw [Url.encode_cons_of_not_isEncoded hc] at h
      obtain ⟨rfl, rfl⟩ := List.cons.inj h
      exact ⟨s, rfl, rfl⟩

theorem percentDecode_encode (s : List Char) :
    percentDecode (Url.encode Url.isEscapedInPath s) = percentDecode s := by
  induction s using escape_induction with
  | nil => rfl
  | escape s ha hb ih =>
    have ha' := isEncoded_of_isSome_hexDigit? (Option.isSome_of_eq_some ha)
    have hb' := isEncoded_of_isSome_hexDigit? (Option.isSome_of_eq_some hb)
    rw [Url.encode_cons_of_not_isEncoded (by decide), Url.encode_cons_of_not_isEncoded ha',
      Url.encode_cons_of_not_isEncoded hb', percentDecode_escape ha hb, percentDecode_escape ha hb,
      ih]
  | @plain c s hstart ih =>
    rw [percentDecode_cons hstart, ← ih]
    cases hc : Url.isEncoded c with
    | true => rw [Url.encode_cons_of_isEncoded hc, percentDecode_encoded]
    | false =>
      rw [Url.encode_cons_of_not_isEncoded hc, percentDecode_cons]
      rintro ⟨a, b, rest, heq, ha, hb⟩
      obtain ⟨rfl, hencode⟩ := List.cons.inj heq
      obtain ⟨_, rfl, hrest⟩ := eq_cons_of_encode_eq_cons ha hencode
      obtain ⟨_, rfl, -⟩ := eq_cons_of_encode_eq_cons hb hrest
      exact hstart ⟨a, b, _, rfl, ha, hb⟩

theorem StartsEscape.of_append_slash (h : StartsEscape (s ++ '/' :: t)) : StartsEscape s := by
  obtain ⟨a, b, rest, heq, ha, hb⟩ := h
  match s with
  | [] => cases heq
  | [_] =>
    cases heq
    cases ha
  | [_, _] =>
    cases heq
    cases hb
  | _ :: _ :: _ :: s =>
    cases heq
    exact ⟨a, b, s, rfl, ha, hb⟩

theorem percentDecode_append_slash (s t : List Char) :
    percentDecode (s ++ '/' :: t) = percentDecode s ++ 0x2F :: percentDecode t := by
  induction s using escape_induction with
  | nil => exact percentDecode_cons fun h => h.of_append_slash.ne_nil rfl
  | escape s ha hb ih =>
    simp only [List.cons_append]
    rw [percentDecode_escape ha hb, percentDecode_escape ha hb, ih, List.cons_append]
  | @plain c s hstart ih =>
    have hstart' : ¬StartsEscape (c :: (s ++ '/' :: t)) :=
      fun h => hstart (StartsEscape.of_append_slash (s := c :: s) h)
    rw [percentDecode_cons hstart, List.cons_append, percentDecode_cons hstart', ih,
      List.append_assoc]

theorem length_percentDecode_le (s : List Char) : (percentDecode s).length ≤ byteCount s := by
  induction s using escape_induction with
  | nil => exact le_rfl
  | @escape a b m n s ha hb ih =>
    rw [percentDecode_escape ha hb]
    simp only [List.length_cons, Text.byteCount_cons]
    have := Char.utf8Size_pos '%'
    omega
  | plain s hstart ih =>
    rw [percentDecode_cons hstart, List.length_append, String.length_utf8EncodeChar,
      Text.byteCount_cons]
    exact Nat.add_le_add_left ih _

theorem not_startsEscape_of_byteCount_le (hle : byteCount s ≤ (percentDecode s).length)
    {rest : List Char} (hrest : rest <:+ s) : ¬StartsEscape rest := by
  induction s using escape_induction with
  | nil =>
    obtain rfl := List.suffix_nil.mp hrest
    exact fun h => h.ne_nil rfl
  | @escape a b m n s ha hb ih =>
    have hless := length_percentDecode_le s
    have ha := Char.utf8Size_pos a
    have hb := Char.utf8Size_pos b
    have hsign : '%'.utf8Size = 1 := rfl
    rw [percentDecode_escape ‹_› ‹_›] at hle
    simp only [List.length_cons, Text.byteCount_cons] at hle
    omega
  | plain s hstart ih =>
    rw [percentDecode_cons hstart, List.length_append, String.length_utf8EncodeChar,
      Text.byteCount_cons] at hle
    rcases List.suffix_cons_iff.mp hrest with rfl | hrest
    · exact hstart
    · exact ih (Nat.le_of_add_le_add_left hle) hrest

theorem percentDecode_eq_utf8 (h : ∀ rest, rest <:+ s → ¬StartsEscape rest) :
    percentDecode s = utf8 s := by
  induction s with
  | nil => rfl
  | cons c s ih =>
    rw [percentDecode_cons (h _ List.suffix_rfl),
      ih fun rest hrest => h rest (hrest.trans (List.suffix_cons c s)), utf8_cons]

end Decode

end WorkflowAudit.Http
