import Mathlib
import WorkflowAudit.Yaml.Value

namespace WorkflowAudit.Yaml

theorem Number.same_refl (n : Number) : n.same n := by
  cases n with
  | int i => simp [same]
  | float x =>
    change (x.toModel.unpack.isNaN && x.toModel.unpack.isNaN ||
      x.toModel.unpack.compare x.toModel.unpack == some .eq) = true
    cases x.toModel.unpack with
    | notANumber => rfl
    | infinity s => cases s <;> rfl
    | zero s => rfl
    | finite s m e hm => cases s <;> simp [Float.Model.UnpackedFloat.compare]

namespace Value

theorem sameEntries_of_subset {m bs : Mapping} (hsame : ∀ e ∈ m, same e.1 e.1 ∧ same e.2 e.2)
    (hsub : ∀ e ∈ m, e ∈ bs) : sameEntries m bs := by
  induction m with
  | nil => rfl
  | cons e rest ih =>
    obtain ⟨k, v⟩ := e
    obtain ⟨hfirst, hrest⟩ := List.forall_mem_cons.mp hsame
    obtain ⟨hmem, hsub⟩ := List.forall_mem_cons.mp hsub
    simp only [sameEntries, Bool.and_eq_true, List.any_eq_true]
    exact ⟨⟨(k, v), hmem, hfirst⟩, ih hrest hsub⟩

mutual

theorem same_refl : ∀ v : Value, same v v
  | .null => rfl
  | .bool b => by simp [same]
  | .number n => n.same_refl
  | .string s => by simp [same]
  | .sequence items => sameItems_refl items
  | .mapping entries => by
    simp only [same, Bool.and_eq_true, decide_true, true_and]
    exact sameEntries_of_subset (entries_same_refl entries) fun _ he => he
  | .tagged tag content => by simp [same, same_refl content]

theorem sameItems_refl : ∀ items : List Value, sameItems items items
  | [] => rfl
  | v :: rest => by simp [sameItems, same_refl v, sameItems_refl rest]

theorem entries_same_refl : ∀ m : Mapping, ∀ e ∈ m, same e.1 e.1 ∧ same e.2 e.2
  | [], _, he => nomatch he
  | (k, v) :: rest, e, he => by
    rcases List.mem_cons.mp he with rfl | he
    · exact ⟨same_refl k, same_refl v⟩
    · exact entries_same_refl rest e he

end

end Value

namespace Mapping

variable {m more : Mapping} {key value : Value} {P : Value → Bool}

theorem key_of_mem_insert {e : Value × Value} (h : e ∈ insert key value m) :
    e.1 = key ∨ ∃ e' ∈ m, e'.1 = e.1 := by
  induction m with
  | nil =>
    rw [insert, List.mem_singleton] at h
    exact .inl (h ▸ rfl)
  | cons first rest ih =>
    obtain ⟨k, v⟩ := first
    simp only [insert] at h
    split at h
    · rcases List.mem_cons.mp h with rfl | h
      · exact .inr ⟨(k, v), List.mem_cons_self, rfl⟩
      · exact .inr ⟨e, List.mem_cons_of_mem _ h, rfl⟩
    · rcases List.mem_cons.mp h with rfl | h
      · exact .inr ⟨(k, v), List.mem_cons_self, rfl⟩
      · rcases ih h with h | ⟨e', he', heq⟩
        · exact .inl h
        · exact .inr ⟨e', List.mem_cons_of_mem _ he', heq⟩

theorem key_of_mem_insertAll {e : Value × Value} (h : e ∈ insertAll m more) :
    (∃ e' ∈ m, e'.1 = e.1) ∨ ∃ e' ∈ more, e'.1 = e.1 := by
  induction more generalizing m with
  | nil => exact .inl ⟨e, h, rfl⟩
  | cons first more ih =>
    rcases ih h with ⟨e', he', heq⟩ | ⟨e', he', heq⟩
    · rcases key_of_mem_insert he' with hkey | ⟨e'', he'', heq'⟩
      · exact .inr ⟨first, List.mem_cons_self, hkey.symm.trans heq⟩
      · exact .inl ⟨e'', he'', heq'.trans heq⟩
    · exact .inr ⟨e', List.mem_cons_of_mem _ he', heq⟩

theorem hasKey_insert_self : (insert key value m).hasKey key := by
  induction m with
  | nil => simp [insert, hasKey, key.same_refl]
  | cons first rest ih =>
    simp only [insert]
    split
    · rename_i hsame
      simp [hasKey, hsame]
    · simp only [hasKey, List.any_cons, Bool.or_eq_true]
      exact .inr ih

theorem hasKey_insert {k : Value} (h : m.hasKey k) : (insert key value m).hasKey k := by
  induction m with
  | nil => cases h
  | cons first rest ih =>
    simp only [hasKey, List.any_cons, Bool.or_eq_true] at h
    simp only [insert]
    split
    · simpa only [hasKey, List.any_cons, Bool.or_eq_true] using h
    · simp only [hasKey, List.any_cons, Bool.or_eq_true]
      exact h.imp_right ih

theorem hasKey_insertAll {k : Value} (h : m.hasKey k) : (insertAll m more).hasKey k := by
  induction more generalizing m with
  | nil => exact h
  | cons first more ih => exact ih (hasKey_insert h)

theorem hasKey_insertAll_of_mem {e : Value × Value} (h : e ∈ more) :
    (insertAll m more).hasKey e.1 := by
  induction more generalizing m with
  | nil => cases h
  | cons first more ih =>
    rcases List.mem_cons.mp h with rfl | h
    · change (insertAll (insert e.1 e.2 m) more).hasKey e.1
      exact hasKey_insertAll hasKey_insert_self
    · exact ih h

theorem find?_insert_self (h : m.hasKey key = false) :
    (insert key value m).find? (·.1.same key) = some (key, value) := by
  induction m with
  | nil => simp [insert, key.same_refl]
  | cons first rest ih =>
    obtain ⟨k, v⟩ := first
    simp only [hasKey, List.any_cons, Bool.or_eq_false_iff] at h
    simp only [insert, h.1, Bool.false_eq_true, if_false, List.find?_cons]
    exact ih h.2

theorem find?_insert_of_found {k v : Value} (h : m.find? (·.1.same key) = some (key, value))
    (hk : key.same k = false) :
    (insert k v m).find? (·.1.same key) = some (key, value) := by
  induction m with
  | nil => cases h
  | cons first rest ih =>
    obtain ⟨k', v'⟩ := first
    rw [List.find?_cons] at h
    cases hsame : k'.same key with
    | true =>
      simp only [hsame, Option.some.injEq, Prod.mk.injEq] at h
      obtain ⟨rfl, rfl⟩ := h
      simp [insert, hk, hsame]
    | false =>
      simp only [hsame] at h
      simp only [insert]
      split
      · simpa [hsame] using h
      · simpa [hsame] using ih h

theorem find?_insertAll_of_found (h : m.find? (·.1.same key) = some (key, value))
    (hmore : ∀ e ∈ more, key.same e.1 = false) :
    (insertAll m more).find? (·.1.same key) = some (key, value) := by
  induction more generalizing m with
  | nil => exact h
  | cons first more ih =>
    obtain ⟨hfirst, hmore⟩ := List.forall_mem_cons.mp hmore
    exact ih (find?_insert_of_found h hfirst) hmore

theorem filter_insert (hm : ∀ e ∈ m, e.1.same key → P e.1 = P key) :
    (insert key value m).filter (P ·.1) =
      if P key then insert key value (m.filter (P ·.1)) else m.filter (P ·.1) := by
  induction m with
  | nil => cases hP : P key <;> simp [insert, hP]
  | cons first rest ih =>
    obtain ⟨k, v⟩ := first
    obtain ⟨hfirst, hrest⟩ := List.forall_mem_cons.mp hm
    simp only [insert]
    split
    · rename_i hsame
      have hk : P k = P key := hfirst hsame
      cases hP : P key <;> simp [insert, hk, hP, hsame]
    · rename_i hsame
      rw [List.filter_cons, ih hrest]
      cases hP : P key <;> cases hk : P k <;> simp [insert, hk, hsame]

/-- Putting entries in and picking out keys can be done in any order, unless keys that are the same
are picked differently. -/
theorem filter_insertAll
    (h : ∀ a ∈ m ++ more, ∀ b ∈ m ++ more, a.1.same b.1 → P a.1 = P b.1) :
    (insertAll m more).filter (P ·.1) =
      insertAll (m.filter (P ·.1)) (more.filter (P ·.1)) := by
  induction more generalizing m with
  | nil => rfl
  | cons first more ih =>
    obtain ⟨k, v⟩ := first
    have hkeys : ∀ e ∈ insert k v m ++ more, ∃ e' ∈ m ++ (k, v) :: more, e'.1 = e.1 := by
      intro e he
      rcases List.mem_append.mp he with he | he
      · rcases key_of_mem_insert he with heq | ⟨e', he', heq⟩
        · exact ⟨(k, v), by simp, heq.symm⟩
        · exact ⟨e', List.mem_append_left _ he', heq⟩
      · exact ⟨e, by simp [he], rfl⟩
    have hnext : ∀ a ∈ insert k v m ++ more, ∀ b ∈ insert k v m ++ more,
        a.1.same b.1 → P a.1 = P b.1 := by
      intro a ha b hb
      obtain ⟨a', ha', haeq⟩ := hkeys a ha
      obtain ⟨b', hb', hbeq⟩ := hkeys b hb
      rw [← haeq, ← hbeq]
      exact h a' ha' b' hb'
    have hfirst : ∀ e ∈ m, e.1.same k → P e.1 = P k := fun e he =>
      h e (List.mem_append_left _ he) (k, v) (by simp)
    change (insertAll (insert k v m) more).filter (P ·.1) = _
    rw [ih hnext, filter_insert hfirst, List.filter_cons]
    cases hP : P k <;> simp [insertAll]

end Mapping

end WorkflowAudit.Yaml
