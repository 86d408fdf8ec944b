import WorkflowAudit.Yaml.Read

namespace WorkflowAudit.Yaml

theorem exists_of_bind_eq_ok {α β : Type} {x : Except Error α} {f : α → Except Error β} {b : β}
    (h : x >>= f = .ok b) : ∃ a, x = .ok a ∧ f a = .ok b := by
  cases x with
  | error e => cases h
  | ok a => exact ⟨a, rfl, h⟩

def Number.Fits : Number → Prop
  | .int i => -Int.pow 2 63 ≤ i ∧ i < Int.pow 2 64
  | .float _ => True

def Mapping.DistinctKeys (m : Mapping) : Prop := m.Pairwise fun a b => a.1.same b.1 = false

/-- A value as it can be read: every number in it fits, and all its mappings have distinct keys. -/
inductive Value.Regular : Value → Prop
  | null : Regular .null
  | bool (b : Bool) : Regular (.bool b)
  | number {n : Number} (h : n.Fits) : Regular (.number n)
  | string (s : String) : Regular (.string s)
  | sequence {items : List Value} (h : ∀ v ∈ items, Regular v) : Regular (.sequence items)
  | mapping {entries : Mapping} (distinct : entries.DistinctKeys)
    (keys : ∀ e ∈ entries, Regular e.1) (values : ∀ e ∈ entries, Regular e.2) :
    Regular (.mapping entries)
  | tagged (tag : String) {content : Value} (h : Regular content) : Regular (.tagged tag content)

namespace Plain

variable {s tag : String} {v : Value}

theorem sized_regular {i : Int} (h : sized i = some (.ok v)) : v.Regular := by
  simp only [sized, Bool.and_eq_true, decide_eq_true_eq] at h
  split at h
  · rename_i hrange
    cases h
    exact .number hrange
  · split at h <;> cases h

theorem value_regular (h : value s = .ok v) : v.Regular := by
  simp only [value] at h
  split at h
  · cases h
    exact .null
  · split at h
    · cases h
      exact .bool _
    · split at h
      · rename_i result hresult
        obtain ⟨i, -, hsized⟩ := Option.bind_eq_some_iff.mp hresult
        exact sized_regular (h ▸ hsized)
      · split at h
        · cases h
          exact .string s
        · split at h <;> cases h
          · exact .number trivial
          · exact .string s

theorem eq_some_of_getD_error {result : Option (Except Error Value)} {e : Error}
    (h : result.getD (.error e) = .ok v) : result = some (.ok v) := by
  cases result with
  | none => cases h
  | some result => exact congrArg some h

theorem taggedValue_regular (h : taggedValue tag s = .ok v) : v.Regular := by
  simp only [taggedValue] at h
  split at h
  · obtain ⟨b, -, hb⟩ := Option.map_eq_some_iff.mp (eq_some_of_getD_error h)
    cases hb
    exact .bool b
  · split at h
    · obtain ⟨i, -, hsized⟩ := Option.bind_eq_some_iff.mp (eq_some_of_getD_error h)
      exact sized_regular hsized
    · split at h
      · obtain ⟨x, -, hx⟩ := Option.map_eq_some_iff.mp (eq_some_of_getD_error h)
        cases hx
        exact .number trivial
      · split at h
        · split at h <;> cases h
          exact .null
        · cases h
          exact .string s

end Plain

namespace Value

section Expansions

variable {α β : Type} {P : α → Prop} {Q : β → Prop}

def Yields (P : α → Prop) (x : Expand α) : Prop := ∀ left a left', x left = .ok (a, left') → P a

theorem yields_pure {a : α} (h : P a) : Yields P (pure a) := by
  intro left b left' hb
  cases hb
  exact h

theorem yields_throw (e : Error) : Yields P (throw e) := fun _ _ _ h => nomatch h

theorem yields_lift {x : Except Error α} (h : ∀ a, x = .ok a → P a) : Yields P (liftM x) := by
  intro left a left' ha
  cases x with
  | error e => cases ha
  | ok =>
    cases ha
    exact h a rfl

theorem Yields.bind {x : Expand α} {f : α → Expand β} (hx : Yields P x)
    (hf : ∀ a, P a → Yields Q (f a)) : Yields Q (x >>= f) := by
  intro left b left' hb
  obtain ⟨r, hr, hb⟩ := exists_of_bind_eq_ok hb
  exact hf r.1 (hx left r.1 r.2 hr) r.2 b left' hb

theorem yields_get : Yields (fun _ => True) (get : Expand Nat) := fun _ _ _ _ => trivial

theorem yields_set (left : Nat) : Yields (fun _ => True) (set left : Expand PUnit) :=
  fun _ _ _ _ => trivial

theorem Yields.unless {c : Prop} [Decidable c] {e : Error} {x : Expand α}
    (hx : ¬c → Yields P x) :
    Yields P (do
      if c then throw e
      x) := by
  split
  · exact (yields_throw e).bind fun _ (h : False) => h.elim
  · exact hx ‹_›

theorem yields_mapM {f : α → Expand β} {l : List α} (h : ∀ a ∈ l, Yields Q (f a)) :
    Yields (fun bs => ∀ b ∈ bs, Q b) (l.mapM f) := by
  induction l with
  | nil => exact yields_pure fun _ hb => nomatch hb
  | cons a l ih =>
    obtain ⟨ha, hl⟩ := List.forall_mem_cons.mp h
    rw [List.mapM_cons]
    exact ha.bind fun b hb => (ih hl).bind fun bs hbs =>
      yields_pure (List.forall_mem_cons.mpr ⟨hb, hbs⟩)

end Expansions

variable {targets : List (Nat × Node Nat)}

/-- What has been put together so far stands in reverse. A key is compared with all of it. -/
theorem yields_mappingOf {read : Node Nat → Expand Value} (h : ∀ n, Yields Regular (read n))
    {done : Mapping} {entries : List (Node Nat × Node Nat)}
    (hdistinct : Mapping.DistinctKeys done.reverse)
    (hdone : ∀ e ∈ done, e.1.Regular ∧ e.2.Regular) :
    Yields (fun m => Regular (.mapping m)) (mappingOf read done entries) := by
  induction entries generalizing done with
  | nil =>
    refine yields_pure (.mapping hdistinct (fun e he => ?_) fun e he => ?_)
    · exact (hdone e (List.mem_reverse.mp he)).1
    · exact (hdone e (List.mem_reverse.mp he)).2
  | cons first entries ih =>
    obtain ⟨k, v⟩ := first
    refine (h k).bind fun key hkey => Yields.unless fun hnew => (h v).bind fun value hvalue =>
      ih ?_ (List.forall_mem_cons.mpr ⟨⟨hkey, hvalue⟩, hdone⟩)
    simp only [Mapping.hasKey, List.any_eq_true, not_exists, not_and, Bool.not_eq_true] at hnew
    rw [List.reverse_cons, Mapping.DistinctKeys, List.pairwise_append]
    refine ⟨hdistinct, List.pairwise_singleton _ _, fun e he last hlast => ?_⟩
    rw [List.mem_singleton.mp hlast]
    exact hnew e (List.mem_reverse.mp he)

theorem yields_tagged (tag? : Option String) {x : Expand Value} (h : Yields Regular x) :
    Yields Regular (match tag? with
      | some tag => do return .tagged tag (← x)
      | none => x) := by
  cases tag? with
  | none => exact h
  | some tag => exact h.bind fun _ hv => yields_pure (.tagged tag hv)

theorem yields_ofContent {read : Option (Node Nat → Expand Value)}
    (h : ∀ f ∈ read, ∀ n, Yields Regular (f n)) : ∀ n, Yields Regular (ofContent read n)
  | .alias _ => yields_throw _
  | .scalar p text plain => by
    rw [ofContent]
    simp only
    split
    · exact yields_lift fun _ => Plain.taggedValue_regular
    · refine yields_tagged _ ?_
      split
      · exact yields_lift fun _ => Plain.value_regular
      · exact yields_pure (.string _)
  | .sequence p items => by
    refine yields_tagged _ ?_
    cases read with
    | none => exact yields_throw _
    | some f =>
      exact (yields_mapM fun n _ => h f rfl n).bind fun _ hvs => yields_pure (.sequence hvs)
  | .mapping p entries => by
    refine yields_tagged _ ?_
    cases read with
    | none => exact yields_throw _
    | some f =>
      have hnone : Mapping.DistinctKeys (List.reverse []) := .nil
      exact (yields_mappingOf (h f rfl) hnone (List.forall_mem_nil _)).bind fun _ hm =>
        yields_pure hm

theorem yields_ofTarget {read : Option (Node Nat → Expand Value)}
    (h : ∀ f ∈ read, ∀ n, Yields Regular (f n)) : ∀ n, Yields Regular (ofTarget targets read n)
  | .alias i => by
    rw [ofTarget]
    refine yields_get.bind fun left _ => ?_
    split
    · exact Yields.unless fun _ => (yields_set _).bind fun _ _ => yields_ofContent h _
    · exact Yields.unless fun _ => (yields_set _).bind fun _ _ => yields_throw _
  | .scalar p text plain => yields_ofContent h (.scalar p text plain)
  | .sequence p items => yields_ofContent h (.sequence p items)
  | .mapping p entries => yields_ofContent h (.mapping p entries)

theorem yields_expand (depth : Nat) (n : Node Nat) : Yields Regular (expand targets depth n) := by
  induction depth generalizing n with
  | zero => exact yields_ofTarget (fun _ hf => absurd hf (Option.not_mem_none _)) n
  | succ depth ih =>
    refine yields_ofTarget (fun f hf => ?_) n
    cases hf
    exact ih

theorem ofNode_regular {n : Node String} {v : Value} (h : ofNode n = .ok v) : v.Regular := by
  obtain ⟨⟨numbered, _⟩, -, h⟩ := exists_of_bind_eq_ok h
  obtain ⟨⟨w, left⟩, hexpand, h⟩ := exists_of_bind_eq_ok h
  cases h
  exact yields_expand depthLimit numbered _ v left hexpand

end Value

theorem read_regular {text : String} {v : Value} (h : read text = .ok v) : v.Regular := by
  obtain ⟨tokens, -, h⟩ := exists_of_bind_eq_ok h
  obtain ⟨node?, -, h⟩ := exists_of_bind_eq_ok h
  cases node? with
  | none =>
    cases h
    exact .null
  | some n => exact Value.ofNode_regular h

structure Value.Inherited (P : Value → Prop) : Prop where
  tagged : ∀ {tag content}, P (.tagged tag content) → P content
  entries : ∀ {m}, P (.mapping m) → ∀ e ∈ m, P e.1 ∧ P e.2

namespace Value

variable {P : Value → Prop} {key : String} {v w : Value} {m : Mapping}

theorem inherited_regular : Inherited Regular where
  tagged := fun | .tagged _ h => h
  entries := fun | .mapping _ keys values => fun e he => ⟨keys e he, values e he⟩

theorem Regular.distinctKeys (h : Regular (.mapping m)) : m.DistinctKeys := by
  cases h with
  | mapping distinct => exact distinct

namespace Inherited

theorem untagged (hP : Inherited P) (h : P v) : P v.untagged := by
  fun_induction Value.untagged v with
  | case1 tag content ih => exact ih (hP.tagged h)
  | case2 => exact h

theorem of_asMapping? (hP : Inherited P) (h : P v) (hm : v.asMapping? = some m) :
    P (.mapping m) := by
  have huntagged := hP.untagged h
  rw [asMapping?] at hm
  split at hm
  · rename_i entries heq
    cases hm
    exact heq ▸ huntagged
  · cases hm

theorem of_lookup? (hm : ∀ e ∈ m, P e.2) (hv : lookup? key m = some v) : P v := by
  fun_induction lookup? key m with
  | case1 => cases hv
  | case2 w rest =>
    cases hv
    exact hm _ List.mem_cons_self
  | case3 k w rest hk ih => exact ih (List.forall_mem_cons.mp hm).2 hv
  | case4 e rest he ih => exact ih (List.forall_mem_cons.mp hm).2 hv

theorem of_get? (hP : Inherited P) (h : P v) (hw : v.get? key = some w) : P w := by
  obtain ⟨m, hm, hw⟩ := Option.bind_eq_some_iff.mp hw
  exact of_lookup? (fun e he => (hP.entries (hP.of_asMapping? h hm) e he).2) hw

end Inherited

end Value

end WorkflowAudit.Yaml
