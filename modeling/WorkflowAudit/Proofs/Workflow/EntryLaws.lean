import WorkflowAudit.Proofs.Workflow.JobLaws
import WorkflowAudit.Proofs.Yaml.ExactLaws
import WorkflowAudit.Proofs.Yaml.MappingLaws
import WorkflowAudit.Proofs.Yaml.ReadLaws

/-! What becomes of the entries of a jobs section. A key that is no scalar has no text to name a job
by, so that its entry is neither a job nor reported; keys that are different may have one text. -/

namespace WorkflowAudit.Workflow

open Yaml (Value Mapping)

structure LostEntry (e : Value × Value) (id : String) : Prop where
  key : e.1.scalar? = some id
  value : ∀ fields, e.2 ≠ .mapping fields

/-- The jobs and the issues that entries yield, in order: a job for a mapping under a scalar, an
issue for anything else there, and nothing for an entry whose key is no scalar. -/
inductive ReadInOrder : Mapping → List Job → List Issue → Prop
  | nil : ReadInOrder [] [] []
  | job {e : Value × Value} {id : String} {entries fields : Mapping} {jobs : List Job}
      {issues : List Issue} :
    e.1.scalar? = some id → e.2 = .mapping fields → ReadInOrder entries jobs issues →
    ReadInOrder (e :: entries) (Job.ofYaml id e.2 :: jobs) issues
  | lost {e : Value × Value} {id : String} {entries : Mapping} {jobs : List Job}
      {issues : List Issue} :
    LostEntry e id → ReadInOrder entries jobs issues →
    ReadInOrder (e :: entries) jobs (.jobNotMapping id :: issues)
  | unnamed {e : Value × Value} {entries : Mapping} {jobs : List Job} {issues : List Issue} :
    e.1.scalar? = none → ReadInOrder entries jobs issues → ReadInOrder (e :: entries) jobs issues

def DistinctNames (entries : Mapping) : Prop :=
  entries.Pairwise fun a b => JobEntry a → JobEntry b → a.1.scalar? ≠ b.1.scalar?

/-- Every entry is a job or is reported, the jobs stand in the order of their entries, and each of
them is found by its own name. -/
structure KeepsJobs (entries : Mapping) (d : Document) : Prop where
  length_eq : d.jobs.length + d.diagnostics.length = entries.length
  inOrder : ∃ kept : Mapping, kept.Sublist entries ∧
    List.Forall₂ (fun e j => Job.ofEntry? e = some j) kept d.jobs
  distinct : (d.jobs.map (·.id)).Nodup
  found : ∀ j ∈ d.jobs, d.job? j.id = some j

section Entries

variable {e : Value × Value} {entries : Mapping} {jobs : List Job} {issues : List Issue}
  {id : String}

theorem LostEntry.not_jobEntry (h : LostEntry e id) : ¬JobEntry e :=
  fun he => h.value _ he.value.choose_spec

theorem not_jobEntry_of_unnamed (h : e.1.scalar? = none) : ¬JobEntry e :=
  fun he => by simpa [h] using he.key

theorem readInOrder_jobsOfYaml (entries : Mapping) : ReadInOrder entries
    (jobsOfYaml (some (.mapping entries))).1 (jobsOfYaml (some (.mapping entries))).2 := by
  induction entries with
  | nil => exact .nil
  | cons e entries ih =>
    obtain ⟨key, value⟩ := e
    simp only [jobsOfYaml, List.filterMap_cons, Job.entryOfYaml] at ih ⊢
    cases hkey : key.scalar? with
    | none => exact .unnamed hkey ih
    | some id =>
      cases value with
      | mapping fields => exact .job hkey rfl ih
      | null | bool | number | string | sequence | tagged =>
        exact .lost ⟨hkey, by simp⟩ ih

namespace ReadInOrder

theorem length_eq (h : ReadInOrder entries jobs issues) :
    jobs.length + issues.length + entries.countP (·.1.scalar?.isNone) = entries.length := by
  induction h with
  | nil => rfl
  | job hkey _ _ ih =>
    rw [List.countP_cons_of_neg (by simp [hkey]), List.length_cons, List.length_cons, ← ih]
    omega
  | lost hlost _ ih =>
    rw [List.countP_cons_of_neg (by simp [hlost.key]), List.length_cons, List.length_cons, ← ih]
    omega
  | unnamed hkey _ ih =>
    rw [List.countP_cons_of_pos (by simp [hkey]), List.length_cons, ← ih]
    omega

theorem exists_sublist (h : ReadInOrder entries jobs issues) : ∃ kept : Mapping,
    kept.Sublist entries ∧ List.Forall₂ (fun e j => Job.ofEntry? e = some j) kept jobs := by
  induction h with
  | nil => exact ⟨[], .slnil, .nil⟩
  | @job e id _ _ _ _ hkey hvalue _ ih =>
    obtain ⟨kept, hsublist, hjobs⟩ := ih
    have hjob : Job.ofEntry? e = some (Job.ofYaml id e.2) :=
      Job.ofEntry?_eq_some_iff.mpr ⟨⟨⟨id, hkey⟩, _, hvalue⟩, id, hkey, rfl⟩
    exact ⟨e :: kept, hsublist.cons_cons e, .cons hjob hjobs⟩
  | lost _ _ ih | unnamed _ _ ih =>
    obtain ⟨kept, hsublist, hjobs⟩ := ih
    exact ⟨kept, hsublist.cons _, hjobs⟩

theorem mem_ids_iff (h : ReadInOrder entries jobs issues) :
    id ∈ jobs.map (·.id) ↔ ∃ e ∈ entries, JobEntry e ∧ e.1.scalar? = some id := by
  induction h with
  | nil => simp
  | @job e name _ _ _ _ hkey hvalue _ ih =>
    have he : JobEntry e := ⟨⟨name, hkey⟩, _, hvalue⟩
    have hname : (Job.ofYaml name e.2).id = name := rfl
    simp [ih, he, hname, hkey, eq_comm]
  | lost hlost _ ih => simp [ih, hlost.not_jobEntry]
  | @unnamed e _ _ _ hkey _ ih => simp [ih, hkey]

theorem nodup_ids_iff (h : ReadInOrder entries jobs issues) :
    (jobs.map (·.id)).Nodup ↔ DistinctNames entries := by
  rw [DistinctNames]
  induction h with
  | nil => simp
  | @job e name _ _ _ _ hkey hvalue hrest ih =>
    have he : JobEntry e := ⟨⟨name, hkey⟩, _, hvalue⟩
    have hname : (Job.ofYaml name e.2).id = name := rfl
    rw [List.map_cons, List.nodup_cons, List.pairwise_cons, ih, hrest.mem_ids_iff, hname, hkey]
    simp [he, eq_comm]
  | lost hlost _ ih =>
    rw [List.pairwise_cons, ih]
    simp [hlost.not_jobEntry]
  | unnamed hkey _ ih =>
    rw [List.pairwise_cons, ih]
    simp [not_jobEntry_of_unnamed hkey]

end ReadInOrder

theorem exists_kept_filterMap (entries : Mapping) : ∃ kept : Mapping, kept.Sublist entries ∧
    List.Forall₂ (fun e j => Job.ofEntry? e = some j) kept (entries.filterMap Job.ofEntry?) := by
  rw [← filterMap_entryOfYaml]
  exact (readInOrder_jobsOfYaml entries).exists_sublist

theorem job?_eq_some_of_mem {d : Document} {j : Job} (h : (d.jobs.map (·.id)).Nodup)
    (hj : j ∈ d.jobs) : d.job? j.id = some j := by
  rw [Document.job?]
  generalize d.jobs = jobs at h hj
  induction jobs with
  | nil => cases hj
  | cons first jobs ih =>
    obtain ⟨hfirst, hjobs⟩ := List.nodup_cons.mp h
    rcases List.mem_cons.mp hj with rfl | hj
    · simp
    · have hne : first.id ≠ j.id := fun heq => hfirst (List.mem_map.mpr ⟨j, hj, heq.symm⟩)
      rw [List.find?_cons_of_neg (by simpa using hne)]
      exact ih hjobs hj

theorem distinctNames_of_strings (h : entries.DistinctKeys)
    (hstrings : ∀ e ∈ entries, ∃ name, e.1 = .string name) : DistinctNames entries := by
  refine List.Pairwise.imp_of_mem (fun {a b} ha hb hne _ _ htexts => ?_) h
  obtain ⟨m, hm⟩ := hstrings a ha
  obtain ⟨n, hn⟩ := hstrings b hb
  rw [hm, hn] at htexts hne
  obtain rfl : m = n := Option.some.inj htexts
  rw [Value.same_refl] at hne
  cases hne

end Entries

section Documents

variable {text : String} {root : Value} {entries : Mapping}

theorem readInOrder_parse (h : Yaml.read text = .ok root)
    (hjobs : root.get? "jobs" = some (.mapping entries)) :
    ∃ issues, ReadInOrder entries (Document.parse text).jobs issues ∧
      (Document.parse text).diagnostics = issues.map Issue.message := by
  obtain ⟨m, hroot, -⟩ := Option.bind_eq_some_iff.mp hjobs
  rw [Document.parse, Document.parseWith, h]
  simp only [Document.ofYaml, hroot, hjobs]
  exact ⟨_, readInOrder_jobsOfYaml entries, rfl⟩

/-- What becomes of the entries of a jobs section, and when all of them are kept: exactly if their
keys are scalars and those of the jobs have different texts, as keys that are strings have. -/
theorem keepsJobs_iff (text : String) (root : Value) (entries : Mapping)
    (h : Yaml.read text = .ok root) (hjobs : root.get? "jobs" = some (.mapping entries)) :
    (∃ issues, ReadInOrder entries (Document.parse text).jobs issues ∧
      (Document.parse text).diagnostics = issues.map Issue.message) ∧
    (Document.parse text).jobs.length + (Document.parse text).diagnostics.length +
      entries.countP (·.1.scalar?.isNone) = entries.length ∧
    (KeepsJobs entries (Document.parse text) ↔
      (∀ e ∈ entries, ∃ id, e.1.scalar? = some id) ∧ DistinctNames entries) ∧
    ((∀ e ∈ entries, ∃ name, e.1 = .string name) → KeepsJobs entries (Document.parse text)) := by
  obtain ⟨issues, hread, hissues⟩ := readInOrder_parse h hjobs
  have hlength : (Document.parse text).jobs.length + (Document.parse text).diagnostics.length +
      entries.countP (·.1.scalar?.isNone) = entries.length := by
    rw [hissues, List.length_map, hread.length_eq]
  have hscalars : (∀ e ∈ entries, ∃ id, e.1.scalar? = some id) ↔
      entries.countP (·.1.scalar?.isNone) = 0 := by
    simp [List.countP_eq_zero, ← Option.ne_none_iff_exists']
  have hkeeps : KeepsJobs entries (Document.parse text) ↔
      (∀ e ∈ entries, ∃ id, e.1.scalar? = some id) ∧ DistinctNames entries := by
    rw [hscalars, ← hread.nodup_ids_iff]
    constructor
    · intro hkeeps
      have hall := hkeeps.length_eq
      exact ⟨by omega, hkeeps.distinct⟩
    · rintro ⟨hnone, hdistinct⟩
      exact ⟨by omega, hread.exists_sublist, hdistinct, fun j => job?_eq_some_of_mem hdistinct⟩
  refine ⟨⟨issues, hread, hissues⟩, hlength, hkeeps, fun hstrings =>
    hkeeps.mpr ⟨fun e he => ?_, ?_⟩⟩
  · obtain ⟨name, hname⟩ := hstrings e he
    exact ⟨name, hname ▸ rfl⟩
  · have hregular := Value.inherited_regular.of_get? (Yaml.read_regular h) hjobs
    exact distinctNames_of_strings hregular.distinctKeys hstrings

def nullKeyText : String := "on: push\njobs:\n  a:\n    runs-on: x\n  ~:\n    runs-on: y\n"

def runsOnJob (label : String) : Value := .mapping [(.string "runs-on", .string label)]

def nullKeyEntries : Mapping := [(.string "a", runsOnJob "x"), (.null, runsOnJob "y")]

def sameNameText : String := "on: push\njobs:\n  1:\n    runs-on: x\n  '1':\n    runs-on: y\n"

def sameNameEntries : Mapping :=
  [(.number (.int 1), runsOnJob "x"), (.string "1", runsOnJob "y")]

def pushRoot (jobs : Mapping) : Value :=
  .mapping [(.string "on", .string "push"), (.string "jobs", .mapping jobs)]

theorem read_nullKeyText : Yaml.read nullKeyText = .ok (pushRoot nullKeyEntries) :=
  Yaml.read_eq_of_readsExactly (by decide +kernel)

theorem read_sameNameText : Yaml.read sameNameText = .ok (pushRoot sameNameEntries) :=
  Yaml.read_eq_of_readsExactly (by decide +kernel)

theorem keepsJobs_iff_nullKeyText :
    (Document.parse nullKeyText).jobs.length + (Document.parse nullKeyText).diagnostics.length + 1 =
      2 ∧
    ¬KeepsJobs nullKeyEntries (Document.parse nullKeyText) := by
  obtain ⟨-, hlength, hkeeps, -⟩ :=
    keepsJobs_iff nullKeyText (pushRoot nullKeyEntries) nullKeyEntries read_nullKeyText rfl
  have hnull : nullKeyEntries.countP (·.1.scalar?.isNone) = 1 := rfl
  have htwo : nullKeyEntries.length = 2 := rfl
  rw [hnull, htwo] at hlength
  refine ⟨hlength, fun hall => ?_⟩
  obtain ⟨id, hid⟩ := (hkeeps.mp hall).1 (.null, runsOnJob "y") (by simp [nullKeyEntries])
  cases hid

/-- The job under null is not said to be left out, and of two jobs with one name only the first is
found. -/
theorem not_keepsJobs :
    (¬∀ (text : String) (root : Value) (entries : Mapping), Yaml.read text = .ok root →
      root.get? "jobs" = some (.mapping entries) →
      (Document.parse text).jobs.length + (Document.parse text).diagnostics.length =
        entries.length) ∧
    ¬∀ (text : String) (root : Value) (entries : Mapping), Yaml.read text = .ok root →
      root.get? "jobs" = some (.mapping entries) →
      ∀ j ∈ (Document.parse text).jobs, (Document.parse text).job? j.id = some j := by
  constructor
  · intro h
    have hjobs : (pushRoot nullKeyEntries).get? "jobs" = some (.mapping nullKeyEntries) := rfl
    have hall := h nullKeyText (pushRoot nullKeyEntries) nullKeyEntries read_nullKeyText hjobs
    obtain ⟨issues, hread, hissues⟩ := readInOrder_parse read_nullKeyText hjobs
    have hlength := hread.length_eq
    have hnull : nullKeyEntries.countP (·.1.scalar?.isNone) = 1 := rfl
    rw [hissues, List.length_map, ← hlength, hnull] at hall
    omega
  · intro h
    have hjobs : (Document.parse sameNameText).jobs =
        [.ofYaml "1" (runsOnJob "x"), .ofYaml "1" (runsOnJob "y")] := by
      have hname : (Value.number (.int 1)).scalar? = some "1" := by decide +kernel
      have hentries : jobEntries (pushRoot sameNameEntries) = sameNameEntries := rfl
      rw [jobs_parse read_sameNameText, hentries, sameNameEntries, runsOnJob, runsOnJob]
      simp only [List.filterMap_cons, Job.ofEntry?, hname, Option.map_some]
      rfl
    have hall := h sameNameText (pushRoot sameNameEntries) sameNameEntries read_sameNameText rfl
      (.ofYaml "1" (runsOnJob "y")) (by simp [hjobs])
    have hfirst : (Document.parse sameNameText).job? "1" = some (.ofYaml "1" (runsOnJob "x")) := by
      rw [Document.job?, hjobs]
      rfl
    have hlabels : some ["x"] = some ["y"] := congrArg (·.map Job.runsOn) (hfirst.symm.trans hall)
    exact absurd hlabels (by decide)

end Documents

end WorkflowAudit.Workflow
