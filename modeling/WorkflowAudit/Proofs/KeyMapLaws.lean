import Mathlib
import WorkflowAudit.KeyMap

namespace WorkflowAudit.KeyMap

variable {α : Type}

theorem mem_map_fst_insertEntry {key k : String} {value : α} {l : List (String × α)} :
    k ∈ (insertEntry key value l).map (·.1) ↔ k = key ∨ k ∈ l.map (·.1) := by
  induction l with
  | nil => simp [insertEntry]
  | cons e rest ih =>
    simp only [insertEntry]
    split
    · simp
    · split
      · rename_i h
        simp [h]
      · simp only [List.map_cons, List.mem_cons, ih]
        exact or_left_comm

theorem mem_keys_insert {m : KeyMap α} {key k : String} {value : α} :
    k ∈ (m.insert key value).keys ↔ k = key ∨ k ∈ m.keys :=
  mem_map_fst_insertEntry

theorem mem_keys_foldl_insert {m : KeyMap α} {l : List (String × α)} {k : String} :
    k ∈ (l.foldl (fun m e => m.insert e.1 e.2) m).keys ↔ k ∈ l.map (·.1) ∨ k ∈ m.keys := by
  induction l generalizing m with
  | nil => simp
  | cons e l ih =>
    simp only [List.foldl_cons, ih, mem_keys_insert, List.map_cons, List.mem_cons]
    rw [or_assoc, or_left_comm]

theorem mem_keys_ofList {l : List (String × α)} {k : String} :
    k ∈ (ofList l).keys ↔ k ∈ l.map (·.1) := by
  rw [ofList, mem_keys_foldl_insert]
  simp [empty, keys]

theorem pairwise_keys (m : KeyMap α) : m.keys.Pairwise (· < ·) := List.pairwise_map.mpr m.sorted

def filter (m : KeyMap α) (keep : String × α → Bool) : KeyMap α :=
  ⟨m.entries.filter keep, m.sorted.filter keep⟩

theorem mem_entries_filter {m : KeyMap α} {keep : String × α → Bool} {e : String × α} :
    e ∈ (m.filter keep).entries ↔ e ∈ m.entries ∧ keep e :=
  List.mem_filter

section Values

variable {key k : String} {value v : α} {l : List (String × α)} {m : KeyMap α}

theorem lookup_cons_eq_ite :
    ((k, v) :: l).lookup key = if key = k then some v else l.lookup key := by
  by_cases h : key = k
  · simp [h]
  · simp [List.lookup_cons, h, beq_false_of_ne h]

theorem lookup_insertEntry :
    (insertEntry key value l).lookup k = if k = key then some value else l.lookup k := by
  induction l with
  | nil => exact lookup_cons_eq_ite
  | cons e rest ih =>
    obtain ⟨k', v'⟩ := e
    simp only [insertEntry]
    split
    · exact lookup_cons_eq_ite
    · split
      · rename_i heq
        subst heq
        simp only [lookup_cons_eq_ite]
        split <;> rfl
      · rename_i hne
        simp only [lookup_cons_eq_ite, ih]
        by_cases h : k = key
        · simp [h, hne]
        · simp [h]

theorem get?_insert : (m.insert key value).get? k = if k = key then some value else m.get? k :=
  lookup_insertEntry

theorem lookup_eq_none_of_forall_lt (h : ∀ e ∈ l, key < e.1) : l.lookup key = none := by
  rw [List.lookup_eq_none_iff]
  intro e he
  simpa using String.ne_of_lt (h e he)

theorem lookup_of_mem (hl : l.Pairwise fun a b => a.1 ≠ b.1) {e : String × α} (he : e ∈ l) :
    l.lookup e.1 = some e.2 := by
  induction l with
  | nil => cases he
  | cons first rest ih =>
    obtain ⟨hfirst, hrest⟩ := List.pairwise_cons.mp hl
    rw [← Prod.eta first, lookup_cons_eq_ite]
    rcases List.mem_cons.mp he with rfl | he
    · rw [if_pos rfl]
    · rw [if_neg (hfirst e he).symm]
      exact ih hrest he

theorem get?_of_mem {e : String × α} (he : e ∈ m.entries) : m.get? e.1 = some e.2 :=
  lookup_of_mem (m.sorted.imp String.ne_of_lt) he

theorem sum_insertEntry (measure : α → Nat) (hl : l.Pairwise fun a b => a.1 < b.1) :
    ((insertEntry key value l).map (measure ·.2)).sum + ((l.lookup key).map measure).getD 0 =
      (l.map (measure ·.2)).sum + measure value := by
  induction l with
  | nil => simp [insertEntry]
  | cons e rest ih =>
    obtain ⟨k', v'⟩ := e
    obtain ⟨hfirst, hrest⟩ := List.pairwise_cons.mp hl
    simp only [insertEntry]
    split
    case isTrue hlt =>
      have hnone : ((k', v') :: rest).lookup key = none :=
        lookup_eq_none_of_forall_lt <|
          List.forall_mem_cons.mpr ⟨hlt, fun e he => String.lt_trans hlt (hfirst e he)⟩
      simp [hnone, Nat.add_comm]
    case isFalse =>
      rw [lookup_cons_eq_ite]
      split
      case isTrue =>
        simp only [List.map_cons, List.sum_cons, Option.map_some, Option.getD_some]
        omega
      case isFalse =>
        simp only [List.map_cons, List.sum_cons]
        have := ih hrest
        omega

theorem sum_values_insert (m : KeyMap α) (key : String) (value : α) (measure : α → Nat) :
    ((m.insert key value).values.map measure).sum + ((m.get? key).map measure).getD 0 =
      (m.values.map measure).sum + measure value := by
  rw [values, values, List.map_map, List.map_map]
  exact sum_insertEntry measure m.sorted

theorem insertEntry_of_forall_lt (h : ∀ e ∈ l, e.1 < key) :
    insertEntry key value l = l ++ [(key, value)] := by
  induction l with
  | nil => rfl
  | cons e rest ih =>
    obtain ⟨k, v⟩ := e
    obtain ⟨hfirst, hrest⟩ := List.forall_mem_cons.mp h
    rw [insertEntry, if_neg (String.lt_asymm hfirst), if_neg (String.ne_of_lt hfirst).symm,
      ih hrest, List.cons_append]

theorem entries_foldl_insert (h : (m.entries ++ l).Pairwise fun a b => a.1 < b.1) :
    (l.foldl (fun m e => m.insert e.1 e.2) m).entries = m.entries ++ l := by
  induction l generalizing m with
  | nil => exact (List.append_nil _).symm
  | cons e l ih =>
    have hinsert : (m.insert e.1 e.2).entries = m.entries ++ [e] :=
      insertEntry_of_forall_lt fun e' he' =>
        (List.pairwise_append.mp h).2.2 e' he' e List.mem_cons_self
    have happend : m.entries ++ e :: l = (m.insert e.1 e.2).entries ++ l := by
      rw [hinsert, List.append_assoc, List.singleton_append]
    rw [happend] at h ⊢
    exact ih h

theorem eq_of_entries {m n : KeyMap α} (h : m.entries = n.entries) : m = n := by
  cases m
  cases h
  rfl

theorem ofList_entries (m : KeyMap α) : ofList m.entries = m :=
  eq_of_entries (entries_foldl_insert m.sorted)

theorem perm_insertEntry (h : key ∉ l.map (·.1)) :
    (insertEntry key value l).Perm ((key, value) :: l) := by
  induction l with
  | nil => exact .refl _
  | cons e rest ih =>
    obtain ⟨k, v⟩ := e
    rw [List.map_cons, List.mem_cons, not_or] at h
    rw [insertEntry]
    split
    · exact .refl _
    · rw [if_neg h.1]
      exact ((ih h.2).cons (k, v)).trans (.swap ..)

theorem perm_foldl_insert (h : (m.keys ++ l.map (·.1)).Nodup) :
    (l.foldl (fun m e => m.insert e.1 e.2) m).entries.Perm (m.entries ++ l) := by
  induction l generalizing m with
  | nil => rw [List.append_nil, List.foldl_nil]
  | cons e l ih =>
    have hnew : e.1 ∉ m.entries.map (·.1) := fun he =>
      (List.nodup_append.mp h).2.2 e.1 he e.1 List.mem_cons_self rfl
    have hinsert : (m.insert e.1 e.2).entries.Perm (e :: m.entries) := perm_insertEntry hnew
    have hperm : ((m.insert e.1 e.2).keys ++ l.map (·.1)).Perm (m.keys ++ (e :: l).map (·.1)) :=
      ((hinsert.map Prod.fst).append_right _).trans List.perm_middle.symm
    have hkeys : ((m.insert e.1 e.2).keys ++ l.map (·.1)).Nodup := hperm.nodup_iff.mpr h
    exact ((ih hkeys).trans (hinsert.append_right l)).trans List.perm_middle.symm

theorem perm_entries_ofList (h : (l.map (·.1)).Nodup) : (ofList l).entries.Perm l :=
  perm_foldl_insert h

theorem ofList_eq_of_perm {l' : List (String × α)} (h : l.Perm l') (hl : (l.map (·.1)).Nodup) :
    ofList l = ofList l' := by
  have hl' : (l'.map (·.1)).Nodup := (h.map Prod.fst).nodup_iff.mp hl
  have hentries : (ofList l).entries.Perm (ofList l').entries :=
    (perm_entries_ofList hl).trans (h.trans (perm_entries_ofList hl').symm)
  refine eq_of_entries (hentries.eq_of_pairwise (fun a b _ _ hab hba => ?_) (ofList l).sorted
    (ofList l').sorted)
  exact absurd hba (String.lt_asymm hab)

end Values

end WorkflowAudit.KeyMap
