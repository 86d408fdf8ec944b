import WorkflowAudit.Lint.Json
import WorkflowAudit.Proofs.Json.DecodeLaws

namespace WorkflowAudit.Lint

open Json (IsWord)

theorem Severity.ofJson?_toJson (s : Severity) : ofJson? s.toJson = some s := by
  cases s <;> rfl

theorem Finding.ofMembers?_members (f : Finding) : ofMembers? f.members = some f := by
  obtain ⟨rule, severity, message, file, tag⟩ := f
  cases tag <;> simp [members, ofMembers?, Severity.ofJson?_toJson]

theorem Finding.ofJson?_toJson (f : Finding) : ofJson? f.toJson = some f :=
  f.ofMembers?_members

theorem Finding.ofMembers?_cons {name : String} {j : Json} {fields : List (String × Json)}
    (h : name ∉ ["rule", "severity", "message", "file", "tag"]) :
    ofMembers? ((name, j) :: fields) = ofMembers? fields := by
  simp only [List.mem_cons, List.not_mem_nil, or_false, not_or] at h
  obtain ⟨hrule, hseverity, hmessage, hfile, htag⟩ := h
  simp [ofMembers?, Ne.symm hrule, Ne.symm hseverity, Ne.symm hmessage, Ne.symm hfile,
    Ne.symm htag]

theorem FindingRow.ofJson?_toJson (r : FindingRow) : ofJson? r.toJson = some r := by
  have hfinding : Finding.ofMembers? (("repository", .str r.repository) :: r.finding.members) =
      some r.finding := by
    rw [Finding.ofMembers?_cons (by decide), Finding.ofMembers?_members]
  simp [toJson, ofJson?, hfinding]

def FileAnalysis.FitsWord (a : FileAnalysis) : Prop := IsWord a.jobCount ∧ IsWord a.stepCount

instance : DecidablePred FileAnalysis.FitsWord :=
  fun a => inferInstanceAs (Decidable (IsWord a.jobCount ∧ IsWord a.stepCount))

theorem FileAnalysis.ofJson?_toJson {a : FileAnalysis} (h : a.FitsWord) :
    ofJson? a.toJson = some a := by
  have hfindings : Json.listOf? Finding.ofJson? (.arr (a.findings.map Finding.toJson)) =
      some a.findings :=
    Json.listOf?_map fun f _ => f.ofJson?_toJson
  simp [toJson, members, ofJson?, Json.nat64?_ofNat h.1, Json.nat64?_ofNat h.2, hfindings]

theorem SkippedFile.ofJson?_toJson (s : SkippedFile) : ofJson? s.toJson = some s := by
  simp [toJson, ofJson?]

def LintRun.FitsWord (r : LintRun) : Prop := ∀ a ∈ r.analyses, a.FitsWord

instance : DecidablePred LintRun.FitsWord :=
  fun r => inferInstanceAs (Decidable (∀ a ∈ r.analyses, a.FitsWord))

theorem LintRun.ofJson?_toJson {r : LintRun} (h : r.FitsWord) : ofJson? r.toJson = some r := by
  have hanalyses : Json.listOf? FileAnalysis.ofJson? (.arr (r.analyses.map FileAnalysis.toJson)) =
      some r.analyses :=
    Json.listOf?_map fun a ha => FileAnalysis.ofJson?_toJson (h a ha)
  have hskipped : Json.listOf? SkippedFile.ofJson? (.arr (r.skipped.map SkippedFile.toJson)) =
      some r.skipped :=
    Json.listOf?_map fun s _ => s.ofJson?_toJson
  simp [toJson, ofJson?, hanalyses, hskipped]

end WorkflowAudit.Lint
