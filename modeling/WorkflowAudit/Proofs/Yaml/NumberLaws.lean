import WorkflowAudit.Proofs.Yaml.ReadLaws

namespace WorkflowAudit.Yaml

inductive Value.Fits : Value → Prop
  | null : Fits .null
  | bool (b : Bool) : Fits (.bool b)
  | number {n : Number} (h : n.Fits) : Fits (.number n)
  | string (s : String) : Fits (.string s)
  | sequence {items : List Value} (h : ∀ v ∈ items, Fits v) : Fits (.sequence items)
  | mapping {entries : Mapping} (keys : ∀ e ∈ entries, Fits e.1)
    (values : ∀ e ∈ entries, Fits e.2) : Fits (.mapping entries)
  | tagged (tag : String) {content : Value} (h : Fits content) : Fits (.tagged tag content)

def Mapping.Fits (m : Mapping) : Prop := ∀ e ∈ m, e.1.Fits ∧ e.2.Fits

theorem Value.fits_mapping_iff {m : Mapping} : (mapping m).Fits ↔ m.Fits :=
  ⟨fun | .mapping keys values => fun e he => ⟨keys e he, values e he⟩,
    fun h => .mapping (fun e he => (h e he).1) fun e he => (h e he).2⟩

theorem Value.Regular.fits {v : Value} (h : v.Regular) : v.Fits := by
  induction h with
  | null => exact .null
  | bool b => exact .bool b
  | number h => exact .number h
  | string s => exact .string s
  | sequence _ ih => exact .sequence ih
  | mapping _ _ _ hkeys hvalues => exact .mapping hkeys hvalues
  | tagged tag _ ih => exact .tagged tag ih

theorem read_fits {text : String} {v : Value} (h : read text = .ok v) : v.Fits :=
  (read_regular h).fits

theorem Value.inherited_fits : Inherited Fits where
  tagged := fun | .tagged _ h => h
  entries := fun | .mapping keys values => fun e he => ⟨keys e he, values e he⟩

theorem Value.Fits.of_get? {key : String} {v w : Value} (h : v.Fits) (hw : v.get? key = some w) :
    w.Fits :=
  inherited_fits.of_get? h hw

namespace Mapping

variable {key value : Value} {m more : Mapping}

theorem Fits.insert (hm : m.Fits) (hkey : key.Fits) (hvalue : value.Fits) :
    (insert key value m).Fits := by
  induction m with
  | nil => exact List.forall_mem_singleton.mpr ⟨hkey, hvalue⟩
  | cons first rest ih =>
    obtain ⟨hfirst, hrest⟩ := List.forall_mem_cons.mp hm
    simp only [Mapping.insert]
    split
    · exact List.forall_mem_cons.mpr ⟨⟨hfirst.1, hvalue⟩, hrest⟩
    · exact List.forall_mem_cons.mpr ⟨hfirst, ih hrest⟩

theorem Fits.insertAll (hm : m.Fits) (hmore : more.Fits) : (insertAll m more).Fits := by
  induction more generalizing m with
  | nil => exact hm
  | cons e more ih =>
    obtain ⟨he, hmore⟩ := List.forall_mem_cons.mp hmore
    exact ih (hm.insert he.1 he.2) hmore

end Mapping

end WorkflowAudit.Yaml
