import WorkflowAudit.Proofs.Hosting.PagingLaws

/-! Paging whatever is answered. Pages may be of any length, missing, or fail in any way; what is
listed then, and how many requests are sent for it, is said in terms of the answers alone. -/

namespace WorkflowAudit.Hosting.GitHub

open Http (Request Response Url)

inductive PageAnswer (α : Type)
  | page (entries : List α)
  | missing
  | failure (error : FetchError)

namespace PageAnswer

variable {α : Type}

def entries : PageAnswer α → List α
  | .page l => l
  | .missing => []
  | .failure _ => []

def IsFull (size : Nat) (a : PageAnswer α) : Prop := ∃ l, a = .page l ∧ size ≤ l.length

def result : PageAnswer α → Except FetchError (Option (List α))
  | .page l => .ok (some l)
  | .missing => .ok none
  | .failure e => .error e

def required (url : String) : PageAnswer α → PageAnswer α
  | .page l => .page l
  | .missing => .failure (.status url 404)
  | .failure e => .failure e

end PageAnswer

def collected {α : Type} (answers : List (PageAnswer α)) : List α := answers.flatMap (·.entries)

abbrev ExchangeLog : Type := List ((q : Request) × Http.Answer q)

section Loop

variable {α : Type} {size limit number : Nat} {found : List α} {log : ExchangeLog}
variable {before after answers : List (PageAnswer α)} {a : PageAnswer α}
variable {r : Except FetchError (Option (List α))}

inductive InOrder (Asks : Nat → ExchangeLog → PageAnswer α → Prop) :
    Nat → ExchangeLog → List (PageAnswer α) → Prop
  | nil {number : Nat} : InOrder Asks number [] []
  | cons {number : Nat} {first rest : ExchangeLog} {a : PageAnswer α}
    {answers : List (PageAnswer α)} :
    Asks number first a → InOrder Asks (number + 1) rest answers →
    InOrder Asks number (first ++ rest) (a :: answers)

/-- How a listing goes on from a page, with the entries found so far: it has enough of them, or the
page fails, is missing, is the last one, or is followed by another one. -/
inductive FetchedFrom (size limit : Nat) : Nat → List α → List (PageAnswer α) →
    Except FetchError (Option (List α)) → Prop
  | enough {number : Nat} {found : List α} :
    limit ≤ found.length → FetchedFrom size limit number found [] (.ok (some (found.take limit)))
  | failure {number : Nat} {found : List α} {e : FetchError} :
    found.length < limit → FetchedFrom size limit number found [.failure e] (.error e)
  | missing {number : Nat} {found : List α} :
    found.length < limit →
    FetchedFrom size limit number found [.missing] (.ok (if number = 1 then none else some found))
  | short {number : Nat} {found batch : List α} :
    found.length < limit → batch.length < size →
    FetchedFrom size limit number found [.page batch] (.ok (some ((found ++ batch).take limit)))
  | full {number : Nat} {found batch : List α} {answers : List (PageAnswer α)}
    {r : Except FetchError (Option (List α))} :
    found.length < limit → size ≤ batch.length →
    FetchedFrom size limit (number + 1) (found ++ batch) answers r →
    FetchedFrom size limit number found (.page batch :: answers) r

/-- The loop over pages does nothing else than `FetchedFrom` says, whatever it is told. -/
theorem fetchedFrom_of_transcript {Asks : Nat → ExchangeLog → PageAnswer α → Prop}
    {positive : 0 < size} {page : Nat → Http.Exchange (Except FetchError (Option (List α)))}
    (hpage : ∀ {number log r}, Dialogue.Transcript (page number) log r →
      ∃ a, Asks number log a ∧ r = a.result)
    (h : Dialogue.Transcript (Client.pagesFrom size limit positive page number found) log r) :
    ∃ answers, InOrder Asks number log answers ∧ FetchedFrom size limit number found answers r := by
  induction hn : limit - found.length using Nat.strongRecOn generalizing number found log with
  | ind n ih =>
    rw [Client.pagesFrom] at h
    by_cases hmore : found.length < limit
    · rw [dif_pos hmore] at h
      obtain ⟨first, rest, answer, rfl, hfirst, hrest⟩ := h.of_bind
      obtain ⟨a, hasks, rfl⟩ := hpage hfirst
      have hlast {r' : Except FetchError (Option (List α))}
          (hdone : Dialogue.Transcript (.done r') rest r)
          (hfetched : FetchedFrom size limit number found [a] r') :
          ∃ answers, InOrder Asks number (first ++ rest) answers ∧
            FetchedFrom size limit number found answers r := by
        obtain ⟨rfl, rfl⟩ := hdone.of_done
        exact ⟨[a], .cons hasks .nil, hfetched⟩
      cases a with
      | failure e => exact hlast hrest (.failure hmore)
      | missing => exact hlast hrest (.missing hmore)
      | page batch =>
        simp only [PageAnswer.result] at hrest
        by_cases hshort : batch.length < size
        · rw [dif_pos hshort] at hrest
          exact hlast hrest (.short hmore hshort)
        · rw [dif_neg hshort] at hrest
          have hless : limit - (found ++ batch).length < n := by
            rw [List.length_append]
            omega
          obtain ⟨answers, horder, hfetched⟩ := ih _ hless hrest rfl
          exact ⟨_, .cons hasks horder, .full hmore (Nat.le_of_not_lt hshort) hfetched⟩
    · rw [dif_neg hmore] at h
      obtain ⟨rfl, rfl⟩ := h.of_done
      exact ⟨[], .nil, .enough (Nat.le_of_not_lt hmore)⟩

namespace FetchedFrom

theorem wanted (h : FetchedFrom size limit number found answers r)
    (hanswers : answers = before ++ a :: after) :
    (∀ b ∈ before, b.IsFull size) ∧ found.length + (collected before).length < limit := by
  induction h generalizing before with
  | enough => simp at hanswers
  | failure hmore | missing hmore | short hmore =>
    obtain ⟨rfl, -⟩ | ⟨-, hnil⟩ := List.singleton_eq_append_iff.mp hanswers
    · exact ⟨by simp, by simpa [collected] using hmore⟩
    · cases hnil
  | full hmore hfull _ ih =>
    cases before with
    | nil => exact ⟨by simp, by simpa [collected] using hmore⟩
    | cons b before =>
      obtain ⟨rfl, hrest⟩ := List.cons.inj hanswers
      obtain ⟨hbefore, hcount⟩ := ih hrest
      refine ⟨List.forall_mem_cons.mpr ⟨⟨_, rfl, hfull⟩, hbefore⟩, ?_⟩
      simpa [collected, PageAnswer.entries, Nat.add_assoc] using hcount

theorem ended (h : FetchedFrom size limit number found answers r)
    (hfull : ∀ a ∈ answers, a.IsFull size) :
    limit ≤ found.length + (collected answers).length := by
  induction h with
  | enough henough => exact henough
  | failure | missing =>
    obtain ⟨_, hpage, _⟩ := hfull _ List.mem_cons_self
    cases hpage
  | short _ hshort =>
    obtain ⟨_, hpage, hsize⟩ := hfull _ List.mem_cons_self
    cases hpage
    exact absurd hshort (Nat.not_lt.mpr hsize)
  | full _ _ _ ih =>
    have := ih (List.forall_mem_cons.mp hfull).2
    simpa [collected, PageAnswer.entries, Nat.add_assoc] using this

theorem eq_error_iff (h : FetchedFrom size limit number found answers r) {e : FetchError} :
    r = .error e ↔ .failure e ∈ answers := by
  induction h with
  | enough => simp
  | failure => simp [eq_comm]
  | missing => simp
  | short => simp
  | full _ _ _ ih => simpa using ih

theorem eq_none_iff (h : FetchedFrom size limit number found answers r) (hnumber : 0 < number) :
    r = .ok none ↔ number = 1 ∧ answers.head? = some .missing := by
  induction h with
  | enough => simp
  | failure => simp
  | missing => split <;> simp_all
  | short => simp
  | full _ _ _ ih =>
    -- A page after the first one is not the first.
    rw [ih (Nat.succ_pos _)]
    simp [Nat.ne_of_gt hnumber]

theorem eq_entries (h : FetchedFrom size limit number found answers r) (hnumber : 0 < number)
    (hfailure : ∀ e, .failure e ∉ answers)
    (hmissing : ¬(number = 1 ∧ answers.head? = some .missing)) :
    r = .ok (some ((found ++ collected answers).take limit)) := by
  induction h with
  | enough => simp [collected]
  | failure => exact absurd List.mem_cons_self (hfailure _)
  | missing hmore =>
    have hlater : ¬_ = 1 := fun hfirst => hmissing ⟨hfirst, rfl⟩
    simp [hlater, collected, PageAnswer.entries, List.take_of_length_le hmore.le]
  | short => simp [collected, PageAnswer.entries]
  | full _ _ _ ih =>
    rw [ih (Nat.succ_pos _) (fun e he => hfailure e (List.mem_cons_of_mem _ he))
      fun hfirst => Nat.ne_of_gt hnumber (Nat.succ.inj hfirst.1)]
    simp [collected, PageAnswer.entries]

end FetchedFrom

theorem collected_required (url : String) (answers : List (PageAnswer α)) :
    collected (answers.map (.required url)) = collected answers := by
  rw [collected, List.flatMap_map]
  refine List.flatMap_congr fun a _ => ?_
  cases a <;> rfl

theorem failure_mem_map_required {url : String} {e : FetchError} :
    PageAnswer.failure e ∈ answers.map (.required url) ↔
      .failure e ∈ answers ∨ .missing ∈ answers ∧ e = .status url 404 := by
  rw [List.mem_map]
  constructor
  · rintro ⟨a, ha, heq⟩
    cases a with
    | page => cases heq
    | missing =>
      cases heq
      exact .inr ⟨ha, rfl⟩
    | failure =>
      cases heq
      exact .inl ha
  · rintro (he | ⟨hmissing, rfl⟩)
    · exact ⟨_, he, rfl⟩
    · exact ⟨_, hmissing, rfl⟩

theorem missing_not_mem_map_required {url : String} :
    PageAnswer.missing ∉ answers.map (.required url) := by
  intro h
  obtain ⟨a, -, heq⟩ := List.mem_map.mp h
  cases a <;> cases heq

/-- Pages are asked for as long as they are wanted: one more only after full pages that together
hold too few entries, and always then. -/
structure AsksWhileWanted (size limit : Nat) (answers : List (PageAnswer α)) : Prop where
  full : ∀ before a after, answers = before ++ a :: after → ∀ b ∈ before, b.IsFull size
  wanted : ∀ before a after, answers = before ++ a :: after → (collected before).length < limit
  ended : (∀ a ∈ answers, a.IsFull size) → limit ≤ (collected answers).length

/-- What is listed: the error that was met, nothing if the first page is missing, and otherwise the
first entries of all pages. -/
structure Lists (size limit : Nat) (answers : List (PageAnswer α))
    (r : Except FetchError (Option (List α))) : Prop extends
    AsksWhileWanted size limit answers where
  error_iff : ∀ e, r = .error e ↔ .failure e ∈ answers
  none_iff : r = .ok none ↔ answers.head? = some .missing
  entries_eq : (∀ e, .failure e ∉ answers) → answers.head? ≠ some .missing →
    r = .ok (some ((collected answers).take limit))

theorem FetchedFrom.lists (h : FetchedFrom size limit 1 [] answers r) :
    Lists size limit answers r where
  full _ _ _ hanswers := (h.wanted hanswers).1
  wanted _ _ _ hanswers := by simpa using (h.wanted hanswers).2
  ended hfull := by simpa using h.ended hfull
  error_iff _ := h.eq_error_iff
  none_iff := (h.eq_none_iff Nat.one_pos).trans (and_iff_right rfl)
  entries_eq hfailure hmissing := h.eq_entries Nat.one_pos hfailure fun hfirst => hmissing hfirst.2

theorem length_collected_of_full (h : ∀ a ∈ answers, a.IsFull size) :
    size * answers.length ≤ (collected answers).length := by
  induction answers with
  | nil => simp
  | cons a answers ih =>
    obtain ⟨⟨l, rfl, hsize⟩, hanswers⟩ := List.forall_mem_cons.mp h
    have := ih hanswers
    rw [List.length_cons, Nat.mul_succ]
    simp only [collected, List.flatMap_cons, List.length_append, PageAnswer.entries] at this ⊢
    omega

theorem AsksWhileWanted.length_le (h : AsksWhileWanted size limit answers) (hsize : 0 < size) :
    answers.length ≤ limit ⌈/⌉ size := by
  cases answers using List.reverseRecOn with
  | nil => exact Nat.zero_le _
  | append_singleton before a =>
    have hcount := length_collected_of_full (h.full before a [] rfl)
    have hwanted := h.wanted before a [] rfl
    rw [List.length_append, List.length_singleton, Nat.succ_le_iff, ← Nat.not_le,
      ceilDiv_le_iff_le_mul hsize]
    omega

theorem AsksWhileWanted.eq_missing (h : AsksWhileWanted size limit answers)
    (hhead : answers.head? = some .missing) : answers = [.missing] := by
  obtain ⟨rest, rfl⟩ := List.head?_eq_some_iff.mp hhead
  cases rest with
  | nil => rfl
  | cons a rest =>
    obtain ⟨_, hpage, _⟩ := h.full [.missing] a rest rfl _ List.mem_cons_self
    cases hpage

theorem InOrder.length_le {Asks : Nat → ExchangeLog → PageAnswer α → Prop}
    (h : InOrder Asks number log answers)
    (hasks : ∀ {number log a}, Asks number log a → log.length ≤ 1) :
    log.length ≤ answers.length := by
  induction h with
  | nil => exact Nat.le_refl _
  | cons ha _ ih =>
    have := hasks ha
    rw [List.length_append, List.length_cons]
    omega

theorem AsksWhileWanted.of_required {url : String}
    (h : AsksWhileWanted size limit (answers.map (.required url))) :
    AsksWhileWanted size limit answers := by
  have hfull : ∀ {a : PageAnswer α}, (a.required url).IsFull size ↔ a.IsFull size := by
    intro a
    cases a <;> simp [PageAnswer.required, PageAnswer.IsFull]
  constructor
  case full =>
    rintro before a after rfl b hb
    exact hfull.mp (h.full _ _ _ List.map_append _ (List.mem_map_of_mem hb))
  case wanted =>
    rintro before a after rfl
    exact collected_required url before ▸ h.wanted _ _ _ List.map_append
  case ended =>
    intro hanswers
    rw [← collected_required url answers]
    exact h.ended (List.forall_mem_map.mpr fun a ha => hfull.mpr (hanswers a ha))

theorem InOrder.of_map {Asks : Nat → ExchangeLog → PageAnswer α → Prop}
    {f : PageAnswer α → PageAnswer α}
    (h : InOrder (fun number log a => ∃ b, Asks number log b ∧ a = f b) number log answers) :
    ∃ answers', InOrder Asks number log answers' ∧ answers = answers'.map f := by
  induction h with
  | nil => exact ⟨[], .nil, rfl⟩
  | cons ha _ ih =>
    obtain ⟨b, hb, rfl⟩ := ha
    obtain ⟨answers', horder, rfl⟩ := ih
    exact ⟨b :: answers', .cons hb horder, rfl⟩

end Loop

namespace Client

section

variable {α : Type} {c : Client} {url : String} {read : Json → Option (List α)}
variable {size number limit : Nat} {log : ExchangeLog}

structure IsAddress (url : String) (address : Url) : Prop where
  reads : Url.read url = .ok address
  scheme : address.scheme = "http" ∨ address.scheme = "https"

inductive AsksForPage (c : Client) (url : String) (read : Json → Option (List α)) (size : Nat) :
    Nat → ExchangeLog → PageAnswer α → Prop
  | unsent {number : Nat} {reason : String} :
    (∀ address, ¬IsAddress url address) →
    AsksForPage c url read size number [] (.failure (.transport url reason))
  | unanswered {number : Nat} {address : Url} {reason : String} :
    IsAddress url address →
    AsksForPage c url read size number [⟨c.pageRequest address size number, none⟩]
      (.failure (.transport url reason))
  | missing {number : Nat} {address : Url} {response : Response} :
    IsAddress url address → response.status = 404 →
    AsksForPage c url read size number [⟨c.pageRequest address size number, some response⟩] .missing
  | refused {number : Nat} {address : Url} {response : Response} :
    IsAddress url address → response.status ≠ 404 →
    ¬(200 ≤ response.status ∧ response.status < 300) →
    AsksForPage c url read size number [⟨c.pageRequest address size number, some response⟩]
      (.failure (.status url response.status))
  | undecodable {number : Nat} {address : Url} {response : Response} {reason : String} :
    IsAddress url address → 200 ≤ response.status → response.status < 300 →
    decoded? read response = none →
    AsksForPage c url read size number [⟨c.pageRequest address size number, some response⟩]
      (.failure (.decode url reason))
  | page {number : Nat} {address : Url} {response : Response} {l : List α} :
    IsAddress url address → 200 ≤ response.status → response.status < 300 →
    decoded? read response = some l →
    AsksForPage c url read size number [⟨c.pageRequest address size number, some response⟩]
      (.page l)

theorem AsksForPage.length_le {a : PageAnswer α} (h : AsksForPage c url read size number log a) :
    log.length ≤ 1 := by
  cases h <;> simp

theorem fetch_of_transcript {accept : String} {query : List (String × String)}
    {r : Except FetchError Response}
    (h : Dialogue.Transcript (c.fetch accept url query) log r) :
    ((∀ address, ¬IsAddress url address) ∧ log = [] ∧
      ∃ reason, r = .error (.transport url reason)) ∨
    ∃ address answer, IsAddress url address ∧
      log = [⟨⟨address.withQuery query, c.headers accept⟩, answer⟩] ∧
      ((answer = none ∧ ∃ reason, r = .error (.transport url reason)) ∨
        ∃ response, answer = some response ∧ r = .ok response) := by
  rw [fetch] at h
  cases hread : Url.read url with
  | error e =>
    simp only [hread] at h
    obtain ⟨rfl, rfl⟩ := h.of_done
    refine .inl ⟨fun address haddress => ?_, rfl, _, rfl⟩
    rw [haddress.reads] at hread
    cases hread
  | ok address =>
    simp only [hread, Http.Url.scheme_withQuery, Bool.or_eq_true, decide_eq_true_eq] at h
    split at h
    case isTrue hscheme =>
      obtain ⟨answer, rest, rfl, hnext⟩ := h.of_ask
      refine .inr ⟨address, answer, ⟨hread, hscheme⟩, ?_⟩
      cases answer with
      | none =>
        obtain ⟨rfl, rfl⟩ := hnext.of_done
        exact ⟨rfl, .inl ⟨rfl, _, rfl⟩⟩
      | some response =>
        obtain ⟨rfl, rfl⟩ := hnext.of_done
        exact ⟨rfl, .inr ⟨response, rfl, rfl⟩⟩
    case isFalse hscheme =>
      obtain ⟨rfl, rfl⟩ := h.of_done
      refine .inl ⟨fun address' haddress => ?_, rfl, _, rfl⟩
      obtain rfl := Except.ok.inj (haddress.reads.symm.trans hread)
      exact hscheme haddress.scheme

theorem asksForPage_of_transcript {r : Except FetchError (Option (List α))}
    (h : Dialogue.Transcript (c.fetchJson read url (pageQuery size number)) log r) :
    ∃ a, AsksForPage c url read size number log a ∧ r = a.result := by
  rw [fetchJson] at h
  obtain ⟨first, rest, answer, rfl, hfetch, hrest⟩ := h.of_bind
  obtain ⟨rfl, rfl⟩ := hrest.of_done
  rw [List.append_nil]
  rcases fetch_of_transcript hfetch with
    ⟨hunsent, rfl, reason, rfl⟩ |
    ⟨address, _, haddress, rfl, ⟨rfl, reason, rfl⟩ | ⟨response, rfl, rfl⟩⟩
  · exact ⟨_, .unsent hunsent, rfl⟩
  · exact ⟨_, .unanswered haddress, rfl⟩
  · simp only [Except.bind, content, Response.isNotFound, Response.isSuccess, Bool.and_eq_true,
      decide_eq_true_eq]
    by_cases hmissing : response.status = 404
    · exact ⟨_, .missing haddress hmissing, by rw [if_pos hmissing, PageAnswer.result]⟩
    · rw [if_neg hmissing]
      by_cases hsuccess : 200 ≤ response.status ∧ response.status < 300
      · rw [if_pos hsuccess]
        cases hdecoded : decoded? read response with
        | none => exact ⟨_, .undecodable haddress hsuccess.1 hsuccess.2 hdecoded, rfl⟩
        | some l => exact ⟨_, .page haddress hsuccess.1 hsuccess.2 hdecoded, rfl⟩
      · exact ⟨_, .refused haddress hmissing hsuccess, by rw [if_neg hsuccess, PageAnswer.result]⟩

theorem lists_of_transcript {read : Json → Option α} {r : Except FetchError (Option (List α))}
    (h : Dialogue.Transcript (c.fetchPaged read url limit) log r) :
    ∃ answers, InOrder (AsksForPage c url (Json.listOf? read) pageSize) 1 log answers ∧
      Lists pageSize limit answers r := by
  obtain ⟨answers, horder, hfetched⟩ := fetchedFrom_of_transcript asksForPage_of_transcript h
  exact ⟨answers, horder, hfetched.lists⟩

theorem runsPage_of_transcript {repository : String} {r : Except FetchError (Option (List Run))}
    (h : Dialogue.Transcript (c.runsPage repository size number) log r) :
    ∃ a, (∃ b, AsksForPage c (c.runsUrl repository) runsOfJson? size number log b ∧
      a = b.required (c.runsUrl repository)) ∧ r = a.result := by
  rw [runsPage] at h
  obtain ⟨first, rest, answer, rfl, hfirst, hrest⟩ := h.of_bind
  obtain ⟨b, hasks, rfl⟩ := asksForPage_of_transcript hfirst
  cases b with
  | page | missing | failure =>
    obtain ⟨rfl, rfl⟩ := hrest.of_done
    rw [List.append_nil]
    exact ⟨_, ⟨_, hasks, rfl⟩, rfl⟩

end

structure ListsRuns (repository url : String) (size limit : Nat) (answers : List (PageAnswer Run))
    (r : Except FetchError (List Runs.Record)) : Prop extends
    AsksWhileWanted size limit answers where
  error_iff : ∀ e, r = .error e ↔
    .failure e ∈ answers ∨ .missing ∈ answers ∧ e = .status url 404
  entries_eq : (∀ e, .failure e ∉ answers) → .missing ∉ answers →
    r = .ok (((collected answers).take limit).map (·.toRecord repository))

structure ListsRepositories (owner : String) (organization user : List (PageAnswer RepositoryEntry))
    (r : Except FetchError (List String)) : Prop where
  organization_asks : AsksWhileWanted 100 unlimited organization
  user_iff : user ≠ [] ↔ organization.head? = some .missing
  user_asks : organization.head? = some .missing → AsksWhileWanted 100 unlimited user
  error_iff : ∀ e, r = .error e ↔ .failure e ∈ organization ++ user ∨
    user.head? = some .missing ∧ e = .other ("owner '" ++ owner ++ "' not found")
  entries_eq : (∀ e, .failure e ∉ organization ++ user) → user.head? ≠ some .missing →
    r = .ok (activeNames ((collected (organization ++ user)).take unlimited))

section

variable {c : Client} {limit : Nat} {log : ExchangeLog}

theorem listsRuns_of_transcript {repository : String} {r : Except FetchError (List Runs.Record)}
    (hlimit : 0 < limit) (h : Dialogue.Transcript (c.runs repository limit) log r) :
    ∃ answers, InOrder (AsksForPage c (c.runsUrl repository) runsOfJson? (min pageSize limit)) 1 log
        answers ∧
      ListsRuns repository (c.runsUrl repository) (min pageSize limit) limit answers r := by
  rw [runs_of_pos c repository hlimit] at h
  obtain ⟨first, rest, listed, rfl, hpages, hrest⟩ := h.of_bind
  obtain ⟨rfl, rfl⟩ := hrest.of_done
  rw [List.append_nil]
  obtain ⟨_, hrequired, hfetched⟩ := fetchedFrom_of_transcript runsPage_of_transcript hpages
  obtain ⟨answers, horder, rfl⟩ := hrequired.of_map
  have hlists := hfetched.lists
  refine ⟨answers, horder, { hlists.toAsksWhileWanted.of_required with
    error_iff := ?error_iff, entries_eq := ?entries_eq }⟩
  case error_iff =>
    intro e
    rw [← failure_mem_map_required, ← hlists.error_iff]
    cases listed <;> simp [Except.map]
  case entries_eq =>
    intro hfailure hmissing
    have hlisted := hlists.entries_eq
      (fun e he => (failure_mem_map_required.mp he).elim (hfailure e) (hmissing ·.1))
      fun hhead => missing_not_mem_map_required (List.mem_of_mem_head? hhead)
    rw [hlisted, collected_required]
    rfl

theorem listsRepositories_of_organization {owner : String}
    {organization : List (PageAnswer RepositoryEntry)}
    {listed : Except FetchError (Option (List RepositoryEntry))}
    (h : Lists 100 unlimited organization listed) (hlisted : listed ≠ .ok none) :
    ListsRepositories owner organization [] (listed.map fun l => activeNames (l.getD [])) where
  organization_asks := h.toAsksWhileWanted
  user_iff := by simpa using mt h.none_iff.mpr hlisted
  user_asks hhead := absurd (h.none_iff.mpr hhead) hlisted
  error_iff e := by
    rw [List.append_nil, ← h.error_iff]
    cases listed <;> simp [Except.map]
  entries_eq hfailure _ := by
    rw [List.append_nil] at *
    rw [h.entries_eq hfailure (mt h.none_iff.mpr hlisted)]
    rfl

theorem listsRepositories_of_user {owner : String} {user : List (PageAnswer RepositoryEntry)}
    {organization : List (PageAnswer RepositoryEntry)}
    {listed : Except FetchError (Option (List RepositoryEntry))}
    (h : Lists 100 unlimited organization (.ok none)) (h' : Lists 100 unlimited user listed) :
    ListsRepositories owner organization user (listed.bind fun
      | some l => .ok (activeNames l)
      | none => .error (.other ("owner '" ++ owner ++ "' not found"))) := by
  have hhead := h.none_iff.mp rfl
  obtain rfl := h.toAsksWhileWanted.eq_missing hhead
  have huser : user ≠ [] := by
    rintro rfl
    exact absurd (h'.ended (fun _ ha => nomatch ha)) (by decide)
  constructor
  case organization_asks => exact h.toAsksWhileWanted
  case user_iff => exact iff_of_true huser hhead
  case user_asks => exact fun _ => h'.toAsksWhileWanted
  case error_iff =>
    intro e
    rw [List.singleton_append, List.mem_cons, ← h'.error_iff, ← h'.none_iff]
    rcases listed with e' | _ | l <;> simp [Except.bind, eq_comm]
  case entries_eq =>
    intro hfailure hmissing
    rw [h'.entries_eq (fun e he => hfailure e (List.mem_append_right _ he)) hmissing]
    rfl

theorem listsRepositories_of_transcript {owner : String} {r : Except FetchError (List String)}
    (h : Dialogue.Transcript (c.repositories owner) log r) :
    ∃ organization user first rest, log = first ++ rest ∧
      InOrder (AsksForPage c (c.ownerUrl "orgs" owner) (Json.listOf? RepositoryEntry.ofJson?) 100) 1
        first organization ∧
      InOrder (AsksForPage c (c.ownerUrl "users" owner) (Json.listOf? RepositoryEntry.ofJson?) 100) 1
        rest user ∧
      ListsRepositories owner organization user r := by
  rw [Client.repositories] at h
  obtain ⟨first, rest, listed, rfl, hfirst, hrest⟩ := h.of_bind
  obtain ⟨organization, horganization, hlists⟩ := lists_of_transcript hfirst
  rcases listed with e | _ | l
  · obtain ⟨rfl, rfl⟩ := hrest.of_done
    exact ⟨organization, [], first, [], rfl, horganization, .nil,
      listsRepositories_of_organization hlists (by simp)⟩
  · obtain ⟨second, last, listed, rfl, hsecond, hlast⟩ := hrest.of_bind
    obtain ⟨user, huser, hlists'⟩ := lists_of_transcript hsecond
    have hresult : ListsRepositories owner organization user _ :=
      listsRepositories_of_user hlists hlists'
    rcases listed with e | _ | l <;>
    · obtain ⟨rfl, rfl⟩ := hlast.of_done
      exact ⟨organization, user, first, second, by rw [List.append_nil], horganization, huser,
        hresult⟩
  · obtain ⟨rfl, rfl⟩ := hrest.of_done
    exact ⟨organization, [], first, [], rfl, horganization, .nil,
      listsRepositories_of_organization hlists (by simp)⟩

end

theorem listsRuns_zero (repository url : String) : ListsRuns repository url 0 0 [] (.ok []) where
  full before a after hnil := by simp at hnil
  wanted before a after hnil := by simp at hnil
  ended _ := Nat.le_refl _
  error_iff e := by simp
  entries_eq _ _ := rfl

def exchanged {α : Type} (responses : Nat → Option Response) (d : Http.Exchange α) :
    ExchangeLog × α :=
  d.inTurn fun number _ => responses number

theorem transcript_exchanged {α : Type} (responses : Nat → Option Response) (d : Http.Exchange α) :
    Dialogue.Transcript d (exchanged responses d).1 (exchanged responses d).2 :=
  .inTurn _ d

/-- What listings come to, whatever is answered to one request after another. -/
theorem listings_of_answers (c : Client) (responses : Nat → Option Response) :
    (∀ {α : Type} (read : Json → Option α) url limit,
      let (log, r) := exchanged responses (c.fetchPaged read url limit)
      ∃ answers, InOrder (AsksForPage c url (Json.listOf? read) 100) 1 log answers ∧
        Lists 100 limit answers r ∧ log.length ≤ limit ⌈/⌉ 100) ∧
    (∀ repository limit,
      let (log, r) := exchanged responses (c.runs repository limit)
      ∃ answers, InOrder (AsksForPage c (c.runsUrl repository) runsOfJson? (min 100 limit)) 1 log
          answers ∧
        ListsRuns repository (c.runsUrl repository) (min 100 limit) limit answers r ∧
        log.length ≤ limit ⌈/⌉ min 100 limit) ∧
    ∀ owner,
      let (log, r) := exchanged responses (c.repositories owner)
      ∃ organization user first rest, log = first ++ rest ∧
        InOrder (AsksForPage c (c.ownerUrl "orgs" owner) (Json.listOf? RepositoryEntry.ofJson?) 100)
          1 first organization ∧
        InOrder (AsksForPage c (c.ownerUrl "users" owner) (Json.listOf? RepositoryEntry.ofJson?) 100)
          1 rest user ∧
        ListsRepositories owner organization user r := by
  refine ⟨fun read url limit => ?paged, fun repository limit => ?runs, fun owner => ?repositories⟩
  case paged =>
    obtain ⟨answers, horder, hlists⟩ :=
      lists_of_transcript (transcript_exchanged responses (c.fetchPaged read url limit))
    exact ⟨answers, horder, hlists, (horder.length_le AsksForPage.length_le).trans
      (hlists.toAsksWhileWanted.length_le (by decide))⟩
  case runs =>
    rcases Nat.eq_zero_or_pos limit with rfl | hlimit
    · exact ⟨[], .nil, listsRuns_zero repository _, Nat.zero_le _⟩
    · obtain ⟨answers, horder, hlists⟩ :=
        listsRuns_of_transcript hlimit (transcript_exchanged responses (c.runs repository limit))
      exact ⟨answers, horder, hlists, (horder.length_le AsksForPage.length_le).trans
        (hlists.toAsksWhileWanted.length_le (Nat.lt_min.mpr ⟨by decide, hlimit⟩))⟩
  case repositories =>
    exact listsRepositories_of_transcript (transcript_exchanged responses (c.repositories owner))

end Client

end WorkflowAudit.Hosting.GitHub
