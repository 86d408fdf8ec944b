import WorkflowAudit.Audit.Run
import WorkflowAudit.Proofs.DialogueLaws
import WorkflowAudit.Proofs.OccurrenceLaws

namespace WorkflowAudit.Audit

open Hosting (Call FetchError)

structure Listing where
  owner : String
  answer : Except FetchError (List String)

namespace Listing

def repositories? (l : Listing) : Option (List String) :=
  match l.answer with
  | .ok names => some names
  | .error _ => none

def diagnostic? (l : Listing) : Option Diagnostic :=
  match l.answer with
  | .ok _ => none
  | .error e => some ⟨l.owner, none, .repositoryListing, e.message⟩

def asked (l : Listing) : (c : Call) × c.Answer := ⟨.repositories l.owner, l.answer⟩

def succeeds (l : Listing) : Bool := l.repositories?.isSome

def inTurn (answers : Nat → (c : Call) → c.Answer) : List String → List Listing
  | [] => []
  | owner :: rest =>
    ⟨owner, answers 0 (.repositories owner)⟩ :: inTurn (fun number => answers (number + 1)) rest

end Listing

variable {owners named : List String} {answers : Nat → (c : Call) → c.Answer}

theorem inTurn_listOwners (owners : List String) (answers : Nat → (c : Call) → c.Answer) :
    (Dialogue.forEach listOwner owners).inTurn answers =
      ((Listing.inTurn answers owners).map Listing.asked,
        (Listing.inTurn answers owners).map fun l =>
          (l.repositories?.getD [], l.diagnostic?.toList)) := by
  induction owners generalizing answers with
  | nil => rfl
  | cons owner owners ih =>
    have howner : (listOwner owner).inTurn answers =
        ([⟨.repositories owner, answers 0 (.repositories owner)⟩],
          ((⟨owner, answers 0 (.repositories owner)⟩ : Listing).repositories?.getD [],
            (⟨owner, answers 0 (.repositories owner)⟩ : Listing).diagnostic?.toList)) := by
      simp only [listOwner, Dialogue.inTurn, Listing.repositories?, Listing.diagnostic?]
      cases answers 0 (.repositories owner) <;> rfl
    simp only [Dialogue.forEach, Dialogue.inTurn_bind, howner, ih, Dialogue.inTurn,
      Listing.inTurn, List.map_cons, List.append_nil, List.length_singleton]
    rfl

theorem inTurn_resolve (owners named : List String) (answers : Nat → (c : Call) → c.Answer) :
    (resolve owners named).inTurn answers =
      ((Listing.inTurn answers owners).map Listing.asked,
        (((Listing.inTurn answers owners).filterMap Listing.repositories?).flatten ++
            named).eraseDups,
        (Listing.inTurn answers owners).filterMap Listing.diagnostic?) := by
  have hnames : ∀ listings : List Listing,
      listings.flatMap (fun l => l.repositories?.getD []) =
        (listings.filterMap Listing.repositories?).flatten := by
    intro listings
    induction listings with
    | nil => rfl
    | cons l listings ih => cases hl : l.repositories? <;> simp [hl, ih]
  simp only [resolve, Dialogue.inTurn_bind, inTurn_listOwners, Dialogue.inTurn, List.append_nil,
    List.flatMap_map, hnames, List.filterMap_eq_flatMap_toList]

theorem filterMap_repositories?_filter_succeeds (listings : List Listing) :
    (listings.filter Listing.succeeds).filterMap Listing.repositories? =
      listings.filterMap Listing.repositories? := by
  induction listings with
  | nil => rfl
  | cons l listings ih => cases hl : l.repositories? <;> simp [Listing.succeeds, hl, ih]

theorem filterMap_diagnostic?_filter_succeeds (listings : List Listing) :
    (listings.filter Listing.succeeds).filterMap Listing.diagnostic? = [] := by
  apply List.filterMap_eq_nil_iff.mpr
  intro l hl
  have hsucceeds := (List.mem_filter.mp hl).2
  simp only [Listing.succeeds, Listing.repositories?] at hsucceeds
  rw [Listing.diagnostic?]
  cases hanswer : l.answer with
  | ok names => rfl
  | error e => simp [hanswer] at hsucceeds

/-- The repositories of owners are those of the listings that succeed and those named, each where it
first occurs. Owners whose listings fail may as well be left out, and to resolve what was resolved
changes nothing. -/
theorem resolve_firstOccurrences (owners named : List String)
    (answers : Nat → (c : Call) → c.Answer) :
    let listings := Listing.inTurn answers owners
    let (asked, repositories, diagnostics) := (resolve owners named).inTurn answers
    asked = listings.map Listing.asked ∧
      FirstOccurrences ((listings.filterMap Listing.repositories?).flatten ++ named)
        repositories ∧
      diagnostics = listings.filterMap Listing.diagnostic? ∧
      (∀ owners' answers', Listing.inTurn answers' owners' = listings.filter Listing.succeeds →
        ((resolve owners' named).inTurn answers').2 = (repositories, [])) ∧
      ∀ answers', ((resolve [] repositories).inTurn answers').2 = (repositories, []) := by
  simp only [inTurn_resolve, true_and]
  have hfirst := firstOccurrences_eraseDups
    (((Listing.inTurn answers owners).filterMap Listing.repositories?).flatten ++ named)
  refine ⟨hfirst, ?_, ?_⟩
  · intro owners' answers' hlistings
    rw [hlistings, filterMap_repositories?_filter_succeeds, filterMap_diagnostic?_filter_succeeds]
  · intro answers'
    have hagain := (firstOccurrences_eraseDups _).unique (firstOccurrences_self hfirst.nodup)
    rw [Listing.inTurn, List.filterMap_nil, List.filterMap_nil, List.flatten_nil, List.nil_append,
      hagain]

section Sample

def sampleAnswers (number : Nat) : (c : Call) → c.Answer
  | .repositories owner =>
    if owner = "acme" then .ok ["acme/web", "acme/docs"]
    else if number = 1 then .error (.other "gone")
    else .ok ["acme/docs", owner ++ "/site"]
  | .runs _ _ => .ok []
  | .files _ => .ok []
  | .definition _ _ => .ok none

theorem resolve_firstOccurrences_sampleAnswers :
    Listing.inTurn (fun number => sampleAnswers (number * 2)) ["acme", "ghost"] =
        (Listing.inTurn sampleAnswers ["acme", "ghost", "ghost"]).filter Listing.succeeds ∧
      ((resolve ["acme", "ghost"] ["acme/web", "other/tool"]).inTurn
          fun number => sampleAnswers (number * 2)).2 =
        (["acme/web", "acme/docs", "ghost/site", "other/tool"], []) := by
  have hlistings : Listing.inTurn (fun number => sampleAnswers (number * 2)) ["acme", "ghost"] =
      (Listing.inTurn sampleAnswers ["acme", "ghost", "ghost"]).filter Listing.succeeds := rfl
  exact ⟨hlistings, (resolve_firstOccurrences ["acme", "ghost", "ghost"] ["acme/web", "other/tool"]
    sampleAnswers).2.2.2.1 _ _ hlistings⟩

end Sample

end WorkflowAudit.Audit
