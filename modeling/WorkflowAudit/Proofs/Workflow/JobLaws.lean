import WorkflowAudit.Proofs.Text.PartLaws
import WorkflowAudit.Workflow.Parse

namespace WorkflowAudit.Workflow

open Yaml (Value Mapping)

def jobEntries (root : Value) : Mapping :=
  match root.get? "jobs" with
  | some (.mapping entries) => entries
  | _ => []

def Job.ofEntry? : Value × Value → Option Job
  | (key, .mapping fields) => key.scalar?.map fun id => ofYaml id (.mapping fields)
  | _ => none

structure JobEntry (e : Value × Value) : Prop where
  key : ∃ id, e.1.scalar? = some id
  value : ∃ fields, e.2 = .mapping fields

section Entries

variable {e : Value × Value} {entries : Mapping} {j : Job} {text : String} {root : Value}

theorem mem_jobEntries_iff : e ∈ jobEntries root ↔
    ∃ entries, root.get? "jobs" = some (.mapping entries) ∧ e ∈ entries := by
  rw [jobEntries]
  split
  · rename_i entries hjobs
    simp [hjobs]
  · rename_i hjobs
    exact iff_of_false List.not_mem_nil fun ⟨entries, hentries, _⟩ => hjobs entries hentries

theorem Job.ofEntry?_eq_some_iff : ofEntry? e = some j ↔
    JobEntry e ∧ ∃ id, e.1.scalar? = some id ∧ ofYaml id e.2 = j := by
  obtain ⟨key, value⟩ := e
  constructor
  · intro h
    cases value with
    | mapping fields =>
      obtain ⟨id, hid, hj⟩ := Option.map_eq_some_iff.mp h
      exact ⟨⟨⟨id, hid⟩, fields, rfl⟩, id, hid, hj⟩
    | null | bool | number | string | sequence | tagged => cases h
  · rintro ⟨⟨-, fields, hvalue⟩, id, hid, rfl⟩
    obtain rfl : value = .mapping fields := hvalue
    exact Option.map_eq_some_iff.mpr ⟨id, hid, rfl⟩

theorem any_ofEntry?_iff {P : Job → Bool} : (Job.ofEntry? e).any P ↔
    JobEntry e ∧ ∃ id, e.1.scalar? = some id ∧ P (.ofYaml id e.2) := by
  simp only [Option.any_eq_true, Job.ofEntry?_eq_some_iff]
  grind

theorem filterMap_entryOfYaml (entries : Mapping) :
    ((entries.filterMap fun (k, v) => Job.entryOfYaml k v).filterMap fun
      | .ok job => some job
      | .error _ => none) = entries.filterMap Job.ofEntry? := by
  rw [List.filterMap_filterMap]
  congr 1
  funext ⟨key, value⟩
  cases hkey : key.scalar? with
  | none => cases value <;> simp [Job.entryOfYaml, Job.ofEntry?, hkey]
  | some id => cases value <;> simp [Job.entryOfYaml, Job.ofEntry?, hkey]

theorem jobs_ofYaml (earlier : List Issue) (root : Value) :
    (Document.ofYaml earlier root).jobs = (jobEntries root).filterMap Job.ofEntry? := by
  cases hroot : root.asMapping? with
  | none =>
    have hjobs : jobEntries root = [] := by simp [jobEntries, Value.get?, hroot]
    rw [Document.ofYaml, hroot, hjobs]
    cases root.untagged <;> rfl
  | some m =>
    rw [Document.ofYaml, hroot, jobEntries]
    cases root.get? "jobs" with
    | none => rfl
    | some jobs =>
      cases jobs with
      | mapping entries => exact filterMap_entryOfYaml entries
      | null | bool | number | string | sequence | tagged => rfl

theorem jobs_parse (h : Yaml.read text = .ok root) :
    (Document.parse text).jobs = (jobEntries root).filterMap Job.ofEntry? := by
  rw [Document.parse, Document.parseWith, h]
  exact jobs_ofYaml [] root

theorem ids_filter_jobs (P : Job → Bool) (entries : Mapping) :
    ((entries.filterMap Job.ofEntry?).filter P).map (·.id) =
      (entries.filter fun e => (Job.ofEntry? e).any P).filterMap (·.1.scalar?) := by
  induction entries with
  | nil => rfl
  | cons e entries ih =>
    cases hjob : Job.ofEntry? e with
    | none => simp [hjob, ih]
    | some j =>
      obtain ⟨-, id, hid, rfl⟩ := Job.ofEntry?_eq_some_iff.mp hjob
      have hname : e.1.scalar? = some (Job.ofYaml id e.2).id := hid
      cases hP : P (.ofYaml id e.2) <;> simp [hjob, hP, hname, ih]

end Entries

section References

variable {label name : String} {s start rest : List Char}

theorem after?_eq_some_iff : after? start s = some rest ↔ s = start ++ rest := by
  induction start generalizing s with
  | nil => simp [after?]
  | cons c start ih =>
    cases s with
    | nil => simp [after?]
    | cons d s =>
      rw [after?]
      by_cases h : c = d
      · simp [h, ih]
      · simp [h, Ne.symm h]

def IsReference (label name : String) : Prop :=
  ∃ before after : List Char,
    label.toList = "$\x7b\x7b".toList ++ before ++ "matrix.".toList ++ name.toList ++ after ++
      "\x7d\x7d".toList ∧
    (∀ c ∈ before, Text.isBlank c) ∧ (∀ c ∈ after, Text.isBlank c) ∧ name.toList ≠ [] ∧
    ∀ c ∈ name.toList, isDimensionChar c

theorem toNat_of_isDimensionChar {c : Char} (h : isDimensionChar c) :
    0x2D ≤ c.toNat ∧ c.toNat ≤ 0x7A := by
  simp only [isDimensionChar, Char.isAlphanum, Char.isAlpha, Char.isUpper, Char.isLower,
    Char.isDigit, UInt32.le_iff_toNat_le, ge_iff_le, Bool.or_eq_true, Bool.and_eq_true,
    decide_eq_true_eq] at h
  change ((((65 ≤ c.toNat ∧ c.toNat ≤ 90) ∨ (97 ≤ c.toNat ∧ c.toNat ≤ 122)) ∨
    (48 ≤ c.toNat ∧ c.toNat ≤ 57)) ∨ c = '_') ∨ c = '-' at h
  rcases h with (((hupper | hlower) | hdigit) | rfl) | rfl
  · omega
  · omega
  · omega
  · decide
  · decide

theorem isDimensionChar_of_isBlank {c : Char} (h : Text.isBlank c) : isDimensionChar c = false := by
  rw [← Bool.not_eq_true]
  intro hdimension
  have hrange := toNat_of_isDimensionChar hdimension
  simp only [Text.isBlank, Bool.or_eq_true, Bool.and_eq_true, decide_eq_true_eq, beq_iff_eq] at h
  omega

theorem matrixReference?_eq_some_iff :
    matrixReference? label = some name ↔ IsReference label name := by
  have hsteps : matrixReference? label = some name ↔
      ∃ s, label.toList = "$\x7b\x7b".toList ++ s ∧
        ∃ t, Text.trimStart s = "matrix.".toList ++ t ∧ t.takeWhile isDimensionChar ≠ [] ∧
          Text.trimStart (t.dropWhile isDimensionChar) = "\x7d\x7d".toList ∧
          String.ofList (t.takeWhile isDimensionChar) = name := by
    simp [matrixReference?, Option.bind_eq_some_iff, after?_eq_some_iff, guard]
  rw [hsteps]
  constructor
  · rintro ⟨s, hlabel, t, hs, hname, hrest, rfl⟩
    rw [← Text.takeWhile_append_trimStart s, hs,
      ← List.takeWhile_append_dropWhile (p := isDimensionChar) (l := t),
      ← Text.takeWhile_append_trimStart (t.dropWhile isDimensionChar), hrest] at hlabel
    refine ⟨s.takeWhile Text.isBlank, (t.dropWhile isDimensionChar).takeWhile Text.isBlank, ?_,
      fun c => List.mem_takeWhile_imp, fun c => List.mem_takeWhile_imp, ?_, ?_⟩
    · simpa only [String.toList_ofList, List.append_assoc] using hlabel
    · simpa only [String.toList_ofList] using hname
    · simpa only [String.toList_ofList] using fun c => List.mem_takeWhile_imp
  · rintro ⟨before, after, hlabel, hbefore, hafter, hname, hchars⟩
    have hstop : ∀ c ∈ (after ++ "\x7d\x7d".toList).head?, isDimensionChar c = false := by
      cases after with
      | nil =>
        rintro c ⟨⟩
        exact eq_false_of_ne_true fun h => absurd (toNat_of_isDimensionChar h).2 (by decide)
      | cons c after => simpa using isDimensionChar_of_isBlank (hafter c List.mem_cons_self)
    refine ⟨before ++ ("matrix.".toList ++ (name.toList ++ (after ++ "\x7d\x7d".toList))),
      by simp only [hlabel, List.append_assoc], name.toList ++ (after ++ "\x7d\x7d".toList),
      Text.dropWhile_run hbefore (by simp [Text.isBlank]), ?_⟩
    rw [Text.takeWhile_run hchars hstop, Text.dropWhile_run hchars hstop]
    exact ⟨hname, Text.dropWhile_run hafter (by simp [Text.isBlank]), String.ofList_toList⟩

theorem expandLabel_of_isReference {matrix : Value} (h : IsReference label name)
    (hvalues : dimensionValues matrix name ≠ []) :
    expandLabel (some matrix) label = dimensionValues matrix name := by
  have hname : matrixReference? label = some name := matrixReference?_eq_some_iff.mpr h
  simp only [expandLabel, hname]

theorem mem_runnerLabels_of_isReference {strategy matrix : Value} (h : IsReference label name)
    (hmatrix : strategy.get? "matrix" = some matrix) (hvalues : dimensionValues matrix name ≠ [])
    (value : String) : value ∈ runnerLabels (.string label) (some strategy) ↔
      value ∈ dimensionValues matrix name := by
  have hwritten : writtenLabels (.string label) = [label] := rfl
  rw [runnerLabels, List.mem_eraseDups, hwritten, List.flatMap_singleton, Option.bind_some, hmatrix,
    expandLabel_of_isReference h hvalues]

end References

end WorkflowAudit.Workflow
