import Mathlib

namespace WorkflowAudit

variable {α : Type} [BEq α] {l kept kept' : List α} {a : α}

/-- The values of a list, in the order of the places where they stand first. No value is there
twice, for a value does not stand before itself. -/
structure FirstOccurrences (l kept : List α) : Prop where
  mem_iff : ∀ a, a ∈ kept ↔ a ∈ l
  inOrder : kept.Pairwise fun a b => l.idxOf a < l.idxOf b

namespace FirstOccurrences

theorem nodup (h : FirstOccurrences l kept) : kept.Nodup := by
  apply h.inOrder.imp
  intro a b hlt heq
  rw [heq] at hlt
  exact Nat.lt_irrefl _ hlt

theorem unique (h : FirstOccurrences l kept) (h' : FirstOccurrences l kept') : kept = kept' := by
  have hperm : kept.Perm kept' := by
    apply (List.perm_ext_iff_of_nodup h.nodup h'.nodup).mpr
    intro a
    rw [h.mem_iff, h'.mem_iff]
  apply List.Perm.eq_of_pairwise _ h.inOrder h'.inOrder hperm
  intro a b _ _ hab hba
  exact absurd hba (Nat.lt_asymm hab)

variable [LawfulBEq α]

theorem append_of_mem (h : FirstOccurrences l kept) (ha : a ∈ l) :
    FirstOccurrences (l ++ [a]) kept where
  mem_iff b := by
    rw [h.mem_iff, List.mem_append, List.mem_singleton]
    constructor
    · exact .inl
    · intro hb
      exact hb.elim id fun heq => heq ▸ ha
  inOrder := by
    apply h.inOrder.imp_of_mem
    intro b c hb hc hlt
    rwa [List.idxOf_append_of_mem ((h.mem_iff b).mp hb),
      List.idxOf_append_of_mem ((h.mem_iff c).mp hc)]

theorem append_of_not_mem (h : FirstOccurrences l kept) (ha : a ∉ l) :
    FirstOccurrences (l ++ [a]) (kept ++ [a]) where
  mem_iff b := by simp [h.mem_iff]
  inOrder := by
    have hplace : ∀ b ∈ kept, (l ++ [a]).idxOf b = l.idxOf b := fun b hb =>
      List.idxOf_append_of_mem ((h.mem_iff b).mp hb)
    apply List.pairwise_append.mpr
    refine ⟨?_, List.pairwise_singleton _ _, ?_⟩
    · apply h.inOrder.imp_of_mem
      intro b c hb hc hlt
      rwa [hplace b hb, hplace c hc]
    · intro b hb c hc
      rw [List.mem_singleton.mp hc, hplace b hb, List.idxOf_append_of_notMem ha]
      exact Nat.lt_add_right _ (List.idxOf_lt_length_of_mem ((h.mem_iff b).mp hb))

end FirstOccurrences

variable [LawfulBEq α]

theorem eraseDups_append_singleton (l : List α) (a : α) :
    (l ++ [a]).eraseDups = if a ∈ l then l.eraseDups else l.eraseDups ++ [a] := by
  rw [List.eraseDups_append]
  by_cases h : a ∈ l <;> simp [List.removeAll, List.eraseDups_cons, h]

theorem firstOccurrences_eraseDups (l : List α) : FirstOccurrences l l.eraseDups := by
  induction l using List.reverseRecOn with
  | nil => exact ⟨fun _ => Iff.rfl, .nil⟩
  | append_singleton l a ih =>
    rw [eraseDups_append_singleton]
    split
    case isTrue ha => exact ih.append_of_mem ha
    case isFalse ha => exact ih.append_of_not_mem ha

theorem firstOccurrences_self (h : l.Nodup) : FirstOccurrences l l := by
  induction l using List.reverseRecOn with
  | nil => exact ⟨fun _ => Iff.rfl, .nil⟩
  | append_singleton l a ih =>
    obtain ⟨hl, -, hne⟩ := List.nodup_append.mp h
    apply (ih hl).append_of_not_mem
    intro ha
    exact hne a ha a (List.mem_singleton_self a) rfl

end WorkflowAudit
