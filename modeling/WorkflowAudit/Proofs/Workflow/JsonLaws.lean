import WorkflowAudit.Proofs.Json.DecodeLaws
import WorkflowAudit.Proofs.Workflow.RecoveryLaws
import WorkflowAudit.Proofs.Yaml.NumberLaws
import WorkflowAudit.Workflow.Json

namespace WorkflowAudit.Workflow

open Json (IsWord)
open Yaml (Value Mapping)

theorem Event.ofJson?_toJson (e : Event) : ofJson? e.toJson = some e := by
  cases e <;> rfl

@[simp] theorem strings?_ofStrings (l : List String) : strings? (.ofStrings l) = some l :=
  Json.listOf?_ofStrings l

@[simp] theorem nullable?_strings? (o : Option (List String)) :
    Json.nullable? strings? (.ofOption .ofStrings o) = some o :=
  Json.nullable?_ofOption_ofStrings o

theorem Filters.ofJson?_toJson (f : Filters) : ofJson? f.toJson = some f := by
  simp [toJson, ofJson?]

theorem Trigger.ofJson?_toJson (t : Trigger) : ofJson? t.toJson = some t := by
  simp [toJson, ofJson?, Event.ofJson?_toJson, Filters.ofJson?_toJson]

theorem Concurrency.ofJson?_toJson (c : Concurrency) : ofJson? c.toJson = some c := by
  simp [toJson, ofJson?]

def Timeout.FitsWord : Timeout → Prop
  | .minutes n => IsWord n
  | .expression _ => True

instance : DecidablePred Timeout.FitsWord
  | .minutes n => inferInstanceAs (Decidable (IsWord n))
  | .expression _ => .isTrue trivial

theorem Timeout.ofJson?_toJson {t : Timeout} (h : t.FitsWord) : ofJson? t.toJson = some t := by
  cases t with
  | minutes n =>
    change (Json.nat64? (.ofNat n)).map Timeout.minutes = _
    rw [Json.nat64?_ofNat h, Option.map_some]
  | expression text => rfl

theorem Matrix.ofJson?_toJson (m : Matrix) : ofJson? m.toJson = some m := by
  simp [toJson, ofJson?, Json.mapOf?_ofMap]

theorem Step.ofJson?_toJson (s : Step) : ofJson? s.toJson = some s := by
  have hparams : Json.mapOf? Json.string? (.ofMap .str s.params) = some s.params :=
    Json.mapOf?_ofMap fun e _ => Json.string?_str e.2
  simp [toJson, ofJson?, hparams]

def Job.FitsWord (j : Job) : Prop := ∀ t ∈ j.timeout, t.FitsWord

instance : DecidablePred Job.FitsWord :=
  fun j => inferInstanceAs (Decidable (∀ t ∈ j.timeout, t.FitsWord))

theorem Job.ofJson?_toJson {j : Job} (h : j.FitsWord) : ofJson? j.toJson = some j := by
  have htimeout : Json.nullable? Timeout.ofJson? (.ofOption Timeout.toJson j.timeout) =
      some j.timeout :=
    Json.nullable?_ofOption (fun t ht => Timeout.ofJson?_toJson (h t ht)) fun t ht => by
      cases t <;> cases ht
  have hconcurrency : Json.nullable? Concurrency.ofJson?
      (.ofOption Concurrency.toJson j.concurrency) = some j.concurrency :=
    Json.nullable?_ofOption (fun c _ => c.ofJson?_toJson) fun _ h => nomatch h
  have hmatrix : Json.nullable? Matrix.ofJson? (.ofOption Matrix.toJson j.matrix) =
      some j.matrix :=
    Json.nullable?_ofOption (fun m _ => m.ofJson?_toJson) fun _ h => nomatch h
  have hsteps : Json.listOf? Step.ofJson? (.arr (j.steps.map Step.toJson)) = some j.steps :=
    Json.listOf?_map fun s _ => s.ofJson?_toJson
  simp [toJson, ofJson?, htimeout, hconcurrency, hmatrix, hsteps]

def Document.FitsWord (d : Document) : Prop := ∀ j ∈ d.jobs, j.FitsWord

instance : DecidablePred Document.FitsWord :=
  fun d => inferInstanceAs (Decidable (∀ j ∈ d.jobs, j.FitsWord))

theorem Document.ofJson?_toJson {d : Document} (h : d.FitsWord) : ofJson? d.toJson = some d := by
  have htriggers : Json.listOf? Trigger.ofJson? (.arr (d.triggers.map Trigger.toJson)) =
      some d.triggers :=
    Json.listOf?_map fun t _ => t.ofJson?_toJson
  have hconcurrency : Json.nullable? Concurrency.ofJson?
      (.ofOption Concurrency.toJson d.concurrency) = some d.concurrency :=
    Json.nullable?_ofOption (fun c _ => c.ofJson?_toJson) fun _ h => nomatch h
  have hjobs : Json.listOf? Job.ofJson? (.arr (d.jobs.map Job.toJson)) = some d.jobs :=
    Json.listOf?_map fun j hj => Job.ofJson?_toJson (h j hj)
  simp [toJson, ofJson?, htriggers, hconcurrency, hjobs]

section Parsing

variable {v : Value} {m : Mapping}

theorem isWord_toNat {i : Int} (h : (Yaml.Number.int i).Fits) : IsWord i.toNat := by
  have hpow : Int.pow 2 64 = (Nat.pow 2 64 : Nat) := rfl
  have hi : i < (Nat.pow 2 64 : Nat) := hpow ▸ h.2
  have hpos : 0 < Nat.pow 2 64 := Nat.two_pow_pos 64
  unfold IsWord
  omega

theorem isWord_toNatWithin (x : Float) : IsWord (Decimal.toNatWithin 64 x) := by
  have hpos : 0 < Nat.pow 2 64 := Nat.two_pow_pos 64
  unfold IsWord Decimal.toNatWithin
  split
  · exact hpos
  · split
    · exact hpos
    · exact Nat.sub_one_lt hpos.ne'
  · exact hpos
  · exact lt_of_le_of_lt (Nat.min_le_left _ _) (Nat.sub_one_lt hpos.ne')

theorem isWord_of_natural? {s : List Char} {n : Nat} (h : Text.natural? 64 s = some n) :
    IsWord n := by
  obtain ⟨-, hn⟩ := Option.filter_eq_some_iff.mp h
  exact of_decide_eq_true hn

theorem Timeout.fitsWord_of_ofYaml? {t : Timeout} (hv : v.Fits) (h : ofYaml? v = some t) :
    t.FitsWord := by
  cases v with
  | number n =>
    cases hv with
    | number hn =>
      cases n with
      | int i =>
        cases h
        exact isWord_toNat hn
      | float x =>
        cases h
        exact isWord_toNatWithin x
  | string s =>
    simp only [ofYaml?] at h
    split at h <;> cases h
    · exact isWord_of_natural? ‹_›
    · trivial
  | null | bool | sequence | mapping | tagged => cases h

theorem Job.fitsWord_ofYaml (id : String) (hv : v.Fits) : (ofYaml id v).FitsWord := by
  intro t ht
  obtain ⟨w, hw, ht⟩ := Option.bind_eq_some_iff.mp ht
  exact Timeout.fitsWord_of_ofYaml? (hv.of_get? hw) ht

theorem Job.fitsWord_of_entryOfYaml {key : Value} {j : Job} (hv : v.Fits)
    (h : entryOfYaml key v = some (.ok j)) : j.FitsWord := by
  obtain ⟨id, -, hj⟩ := Option.map_eq_some_iff.mp h
  split at hj <;> cases hj
  exact fitsWord_ofYaml id hv

theorem fitsWord_of_mem_jobsOfYaml {jobs : Option Value} (h : ∀ v ∈ jobs, v.Fits) :
    ∀ j ∈ (jobsOfYaml jobs).1, j.FitsWord := by
  intro j hj
  unfold jobsOfYaml at hj
  split at hj
  · rename_i entries
    obtain ⟨result, hresult, hj⟩ := List.mem_filterMap.mp hj
    obtain ⟨e, he, hresult⟩ := List.mem_filterMap.mp hresult
    split at hj <;> cases hj
    exact Job.fitsWord_of_entryOfYaml (Value.fits_mapping_iff.mp (h _ rfl) e he).2 hresult
  · cases hj
  · cases hj

theorem Document.fitsWord_ofYaml (earlier : List Issue) (hv : v.Fits) :
    (ofYaml earlier v).FitsWord := by
  unfold ofYaml
  split
  · exact fitsWord_of_mem_jobsOfYaml fun _ hw => hv.of_get? hw
  · split <;> exact List.forall_mem_nil _

variable {read : Reader} {indent : Nat} {b : Block} {text : List Char}

def Reader.Fits (read : Reader) : Prop := ∀ text v, read text = .ok v → v.Fits

theorem Recovered.fits_join {l : List Recovered} (h : ∀ r ∈ l, r.entries.Fits) :
    (join l).entries.Fits := by
  rw [entries_join]
  refine Mapping.Fits.insertAll (List.forall_mem_nil _) fun e he => ?_
  obtain ⟨r, hr, he⟩ := List.mem_flatMap.mp he
  exact h r hr e he

theorem recoverJob_fits (h : read.Fits) : (recoverJob read indent b).entries.Fits := by
  unfold recoverJob
  split
  · exact Value.fits_mapping_iff.mp (h _ _ ‹_›)
  · exact List.forall_mem_nil _
  · exact List.forall_mem_nil _

theorem recoverJobs_fits (h : read.Fits) : (recoverJobs read text).entries.Fits := by
  simp only [recoverJobs]
  split
  · exact List.forall_mem_nil _
  · exact Recovered.fits_join (List.forall_mem_map.mpr fun _ _ => recoverJob_fits h)

theorem recoverSection_fits (h : read.Fits) : (recoverSection read b).entries.Fits := by
  unfold recoverSection
  split
  · exact Value.fits_mapping_iff.mp (h _ _ ‹_›)
  · exact List.forall_mem_nil _
  · split
    · exact List.forall_mem_singleton.mpr
        ⟨.string _, Value.fits_mapping_iff.mpr (recoverJobs_fits h)⟩
    · exact List.forall_mem_nil _

theorem recoverSections_fits (h : read.Fits) : (recoverSections read text).entries.Fits :=
  Recovered.fits_join (List.forall_mem_map.mpr fun _ _ => recoverSection_fits h)

theorem Document.fitsWord_parse (text : String) : (parse text).FitsWord := by
  rw [parse, parseWith]
  split
  · exact fitsWord_ofYaml [] (Yaml.read_fits ‹_›)
  · exact fitsWord_ofYaml _ (Value.fits_mapping_iff.mpr
      (recoverSections_fits fun _ _ => Yaml.read_fits))

end Parsing

end WorkflowAudit.Workflow
