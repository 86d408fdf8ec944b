import WorkflowAudit.Hosting.GitHub.Client
import WorkflowAudit.Proofs.DialogueLaws

namespace WorkflowAudit.Http

@[simp] theorem Url.scheme_withQuery (u : Url) (parameters : List (String × String)) :
    (u.withQuery parameters).scheme = u.scheme := by
  rw [withQuery]
  split
  · rfl
  · split <;> rfl

end WorkflowAudit.Http

namespace WorkflowAudit.Hosting.GitHub

open Http (Request Response Url)

def pageOf {α : Type} (l : List α) (size number : Nat) : List α :=
  (l.drop ((number - 1) * size)).take size

/-- The pages that are asked for: from the first on in order, each only after full pages which
together hold too few entries. -/
structure AsksPages {α : Type} (request : Nat → Request) (size limit : Nat) (l : List α)
    (asked : List Request) : Prop where
  inOrder : asked = (List.range' 1 asked.length).map request
  full : ∀ number, 0 < number → number < asked.length → (pageOf l size number).length = size
  wanted : ∀ number < asked.length, (l.take (number * size)).length < limit

section Loop

variable {α : Type} {size limit number : Nat} {l : List α} {request : Nat → Request}
variable {web : (q : Request) → Http.Answer q}

theorem take_append_pageOf (l : List α) (size number : Nat) :
    l.take (number * size) ++ pageOf l size (number + 1) = l.take ((number + 1) * size) := by
  rw [pageOf, Nat.add_sub_cancel, Nat.succ_mul, List.take_add]

theorem length_pageOf (l : List α) (size number : Nat) :
    (pageOf l size (number + 1)).length = min size (l.length - number * size) := by
  rw [pageOf, Nat.add_sub_cancel, List.length_take, List.length_drop]

theorem pagesFrom_of_serves (positive : 0 < size) (limit : Nat)
    {page : Nat → Http.Exchange (Except FetchError (Option (List α)))}
    (hpage : ∀ number, number * size ≤ l.length →
      (page (number + 1)).answeredBy web = .ok (some (pageOf l size (number + 1))) ∧
      (page (number + 1)).questions web = [request (number + 1)])
    (hfull : number * size ≤ l.length) :
    (Client.pagesFrom size limit positive page (number + 1)
        (l.take (number * size))).answeredBy web = .ok (some (l.take limit)) ∧
    ∃ count, (Client.pagesFrom size limit positive page (number + 1)
        (l.take (number * size))).questions web =
        (List.range' (number + 1) count).map request ∧
      ∀ i < count, (number + i) * size ≤ l.length ∧ (number + i) * size < limit := by
  induction hn : limit - number * size using Nat.strongRecOn generalizing number with
  | ind n ih =>
    obtain ⟨hanswer, hquestions⟩ := hpage number hfull
    have hheld : (l.take (number * size)).length = number * size := by
      rw [List.length_take, Nat.min_eq_left hfull]
    have hnext : (number + 1) * size = number * size + size := Nat.succ_mul number size
    rw [Client.pagesFrom]
    by_cases hmore : (l.take (number * size)).length < limit
    · rw [dif_pos hmore, Dialogue.answeredBy_bind, Dialogue.questions_bind, hanswer, hquestions]
      simp only [take_append_pageOf]
      by_cases hshort : (pageOf l size (number + 1)).length < size
      · -- The page is the last one.
        rw [dif_pos hshort]
        rw [length_pageOf] at hshort
        refine ⟨?_, 1, rfl, fun i hi => ?_⟩
        · rw [Dialogue.answeredBy, List.take_of_length_le (i := (number + 1) * size) (by omega)]
        · rw [Nat.lt_one_iff.mp hi, Nat.add_zero]
          omega
      · rw [dif_neg hshort]
        rw [length_pageOf] at hshort
        obtain ⟨hresult, count, hasked, hcount⟩ :=
          @ih (limit - (number + 1) * size) (by omega) (number + 1) (by omega) rfl
        refine ⟨hresult, count + 1, ?_, fun i hi => ?_⟩
        · rw [hasked]
          rfl
        · cases i with
          | zero => exact ⟨hfull, hheld ▸ hmore⟩
          | succ i => exact Nat.add_right_comm number i 1 ▸ hcount i (by omega)
    · rw [dif_neg hmore]
      refine ⟨?_, 0, rfl, fun _ h => absurd h (Nat.not_lt_zero _)⟩
      rw [Dialogue.answeredBy, List.take_take, Nat.min_eq_left (by omega)]

theorem pages_of_serves (positive : 0 < size) (limit : Nat)
    {page : Nat → Http.Exchange (Except FetchError (Option (List α)))}
    (hpage : ∀ number, number * size ≤ l.length →
      (page (number + 1)).answeredBy web = .ok (some (pageOf l size (number + 1))) ∧
      (page (number + 1)).questions web = [request (number + 1)]) :
    (Client.pages size limit positive page).answeredBy web = .ok (some (l.take limit)) ∧
      AsksPages request size limit l ((Client.pages size limit positive page).questions web) := by
  have hstart : 0 * size ≤ l.length := by rw [Nat.zero_mul]; exact Nat.zero_le _
  obtain ⟨hresult, count, hasked, hcount⟩ :=
    pagesFrom_of_serves positive limit hpage hstart
  have hnone : l.take (0 * size) = [] := by rw [Nat.zero_mul, List.take_zero]
  rw [hnone] at hresult hasked
  have hlength : ((Client.pages size limit positive page).questions web).length = count := by
    rw [Client.pages, hasked, List.length_map, List.length_range']
  refine ⟨hresult, hlength.symm ▸ hasked, ?_, ?_⟩
  · intro number hpositive hnumber
    obtain ⟨k, rfl⟩ := Nat.exists_eq_add_of_lt hpositive
    have hfull := (hcount (k + 1) (by omega)).1
    rw [Nat.zero_add, Nat.succ_mul] at hfull
    rw [Nat.zero_add, length_pageOf]
    omega
  · intro number hnumber
    have hwanted := (hcount number (hlength ▸ hnumber)).2
    rw [Nat.zero_add] at hwanted
    rw [List.length_take]
    omega

end Loop

namespace Client

def pageRequest (c : Client) (address : Url) (size number : Nat) : Request :=
  ⟨address.withQuery (pageQuery size number), c.headers jsonType⟩

/-- A listing is served in pages of a size. Nothing is said of pages behind the first one that is
not full. -/
structure Serves {α : Type} (web : (q : Request) → Http.Answer q) (c : Client) (url : String)
    (address : Url) (read : Json → Option (List α)) (size : Nat) (l : List α) : Prop where
  reads : Url.read url = .ok address
  scheme : address.scheme = "http" ∨ address.scheme = "https"
  page : ∀ number, 0 < number → (number - 1) * size ≤ l.length →
    ∃ response : Response, web (c.pageRequest address size number) = some response ∧
      response.isSuccess = true ∧ decoded? read response = some (pageOf l size number)

structure Misses (web : (q : Request) → Http.Answer q) (c : Client) (url : String) (address : Url) :
    Prop where
  reads : Url.read url = .ok address
  scheme : address.scheme = "http" ∨ address.scheme = "https"
  page : ∃ response : Response, web (c.pageRequest address pageSize 1) = some response ∧
    response.isNotFound = true

section

variable {α : Type} {web : (q : Request) → Http.Answer q} {c : Client} {url : String}
variable {address : Url} {size number limit : Nat} {l : List α}

theorem fetch_of_response {accept : String} {query : List (String × String)} {response : Response}
    (hreads : Url.read url = .ok address)
    (hscheme : address.scheme = "http" ∨ address.scheme = "https")
    (hweb : web ⟨address.withQuery query, c.headers accept⟩ = some response) :
    (c.fetch accept url query).answeredBy web = .ok response ∧
      (c.fetch accept url query).questions web =
        [⟨address.withQuery query, c.headers accept⟩] := by
  have hweb' : ((address.withQuery query).scheme = "http" ||
      (address.withQuery query).scheme = "https") = true := by simpa using hscheme
  rw [fetch, hreads]
  simp only [hweb', if_true, Dialogue.answeredBy, Dialogue.questions, hweb, and_self]

theorem Serves.fetchJson {read : Json → Option (List α)} (h : Serves web c url address read size l)
    (hnumber : number * size ≤ l.length) :
    (c.fetchJson read url (pageQuery size (number + 1))).answeredBy web =
        .ok (some (pageOf l size (number + 1))) ∧
      (c.fetchJson read url (pageQuery size (number + 1))).questions web =
        [c.pageRequest address size (number + 1)] := by
  obtain ⟨response, hweb, hsuccess, hdecoded⟩ := h.page (number + 1) (Nat.succ_pos number) hnumber
  obtain ⟨hanswer, hquestions⟩ := fetch_of_response h.reads h.scheme hweb
  have hfound : response.isNotFound = false := by
    simp only [Response.isSuccess, Response.isNotFound, Bool.and_eq_true, decide_eq_true_eq,
      decide_eq_false_iff_not] at hsuccess ⊢
    omega
  rw [Client.fetchJson, Dialogue.answeredBy_bind, Dialogue.questions_bind, hanswer, hquestions]
  refine ⟨?_, rfl⟩
  simp [Dialogue.answeredBy, Except.bind, content, hfound, hsuccess, hdecoded, Except.map]

theorem Misses.fetchJson (h : Misses web c url address) (read : Json → Option α) :
    (c.fetchJson read url (pageQuery pageSize 1)).answeredBy web = .ok none ∧
      (c.fetchJson read url (pageQuery pageSize 1)).questions web =
        [c.pageRequest address pageSize 1] := by
  obtain ⟨response, hweb, hmissing⟩ := h.page
  obtain ⟨hanswer, hquestions⟩ := fetch_of_response h.reads h.scheme hweb
  rw [Client.fetchJson, Dialogue.answeredBy_bind, Dialogue.questions_bind, hanswer, hquestions]
  refine ⟨?_, rfl⟩
  simp [Dialogue.answeredBy, Except.bind, content, hmissing]

theorem Serves.fetchPaged {read : Json → Option α}
    (h : Serves web c url address (Json.listOf? read) pageSize l) (limit : Nat) :
    (c.fetchPaged read url limit).answeredBy web = .ok (some (l.take limit)) ∧
      AsksPages (c.pageRequest address pageSize) pageSize limit l
        ((c.fetchPaged read url limit).questions web) :=
  pages_of_serves _ limit fun _ hnumber => h.fetchJson hnumber

theorem Misses.fetchPaged (h : Misses web c url address) (read : Json → Option α)
    (hlimit : 0 < limit) :
    (c.fetchPaged read url limit).answeredBy web = .ok none ∧
      (c.fetchPaged read url limit).questions web = [c.pageRequest address pageSize 1] := by
  obtain ⟨hanswer, hquestions⟩ := h.fetchJson (Json.listOf? read)
  have hmore : ([] : List α).length < limit := hlimit
  rw [Client.fetchPaged, pages, pagesFrom, dif_pos hmore, Dialogue.answeredBy_bind,
    Dialogue.questions_bind, hanswer, hquestions]
  exact ⟨rfl, rfl⟩

def runsUrl (c : Client) (repository : String) : String :=
  c.baseUrl ++ "/repos/" ++ repository ++ "/actions/runs"

def ownerUrl (c : Client) (kind owner : String) : String :=
  c.baseUrl ++ "/" ++ kind ++ "/" ++ owner ++ "/repos"

def activeNames (l : List RepositoryEntry) : List String :=
  (l.filter (!·.isArchived)).map (·.fullName)

def runsPage (c : Client) (repository : String) (size number : Nat) :
    Http.Exchange (Except FetchError (Option (List Run))) :=
  (c.fetchJson runsOfJson? (c.runsUrl repository) (pageQuery size number)).bind fun
    | .ok none => .done (.error (.status (c.runsUrl repository) 404))
    | answer => .done answer

theorem runs_of_pos (c : Client) (repository : String) (hlimit : 0 < limit) :
    c.runs repository limit =
      (pages (min pageSize limit) limit (Nat.lt_min.mpr ⟨by decide, hlimit⟩)
        (c.runsPage repository (min pageSize limit))).bind fun answer =>
          .done (answer.map fun l => (l.getD []).map (·.toRecord repository)) :=
  dif_pos hlimit

theorem Serves.runs {repository : String} {l : List Run} (hlimit : 0 < limit)
    (h : Serves web c (c.runsUrl repository) address runsOfJson? (min pageSize limit) l) :
    (c.runs repository limit).answeredBy web = .ok ((l.take limit).map (·.toRecord repository)) ∧
      AsksPages (c.pageRequest address (min pageSize limit)) (min pageSize limit) limit l
        ((c.runs repository limit).questions web) := by
  have hpage (number : Nat) (hnumber : number * min pageSize limit ≤ l.length) :
      (c.runsPage repository (min pageSize limit) (number + 1)).answeredBy web =
          .ok (some (pageOf l (min pageSize limit) (number + 1))) ∧
        (c.runsPage repository (min pageSize limit) (number + 1)).questions web =
          [c.pageRequest address (min pageSize limit) (number + 1)] := by
    obtain ⟨hanswer, hquestions⟩ := h.fetchJson hnumber
    rw [runsPage, Dialogue.answeredBy_bind, Dialogue.questions_bind, hanswer, hquestions]
    exact ⟨rfl, rfl⟩
  obtain ⟨hanswer, hasks⟩ := pages_of_serves (Nat.lt_min.mpr ⟨by decide, hlimit⟩) limit hpage
  rw [runs_of_pos c repository hlimit, Dialogue.answeredBy_bind, Dialogue.questions_bind, hanswer,
    Dialogue.questions, List.append_nil]
  exact ⟨rfl, hasks⟩

theorem Serves.repositories {owner : String} {l : List RepositoryEntry}
    (h : Serves web c (c.ownerUrl "orgs" owner) address
      (Json.listOf? RepositoryEntry.ofJson?) pageSize l) :
    (c.repositories owner).answeredBy web = .ok (activeNames (l.take unlimited)) ∧
      AsksPages (c.pageRequest address pageSize) pageSize unlimited l
        ((c.repositories owner).questions web) := by
  obtain ⟨hanswer, hasks⟩ := h.fetchPaged unlimited
  simp only [ownerUrl] at hanswer hasks
  rw [Client.repositories, Dialogue.answeredBy_bind, Dialogue.questions_bind, hanswer,
    Dialogue.questions, List.append_nil]
  exact ⟨rfl, hasks⟩

theorem Misses.repositories {owner : String} {address' : Url} {l : List RepositoryEntry}
    (h : Misses web c (c.ownerUrl "orgs" owner) address)
    (h' : Serves web c (c.ownerUrl "users" owner) address'
      (Json.listOf? RepositoryEntry.ofJson?) pageSize l) :
    (c.repositories owner).answeredBy web = .ok (activeNames (l.take unlimited)) ∧
      ∃ asked, (c.repositories owner).questions web = c.pageRequest address pageSize 1 :: asked ∧
        AsksPages (c.pageRequest address' pageSize) pageSize unlimited l asked := by
  have hlimit : 0 < unlimited := by decide
  obtain ⟨hnone, hfirst⟩ := h.fetchPaged RepositoryEntry.ofJson? hlimit
  obtain ⟨hanswer, hasks⟩ := h'.fetchPaged unlimited
  simp only [ownerUrl] at hnone hfirst hanswer hasks
  rw [Client.repositories, Dialogue.answeredBy_bind, Dialogue.questions_bind, hnone, hfirst]
  simp only [Dialogue.answeredBy_bind, Dialogue.questions_bind, hanswer]
  refine ⟨rfl, _, ?_, hasks⟩
  simp only [Dialogue.questions, List.append_nil, List.singleton_append]

end

/-- What a client makes of a listing that is served in pages: its first entries up to the limit, in
order and each once. No list in memory is longer than `unlimited`. -/
theorem listings_complete (c : Client) (web : (q : Request) → Http.Answer q) :
    (∀ {α : Type} (read : Json → Option α) url address limit (l : List α),
      Serves web c url address (Json.listOf? read) 100 l →
      (c.fetchPaged read url limit).answeredBy web = .ok (some (l.take limit)) ∧
        AsksPages (c.pageRequest address 100) 100 limit l
          ((c.fetchPaged read url limit).questions web)) ∧
    (∀ repository address limit (l : List Run), 0 < limit →
      Serves web c (c.runsUrl repository) address runsOfJson? (min 100 limit) l →
      (c.runs repository limit).answeredBy web =
          .ok ((l.take limit).map (·.toRecord repository)) ∧
        AsksPages (c.pageRequest address (min 100 limit)) (min 100 limit) limit l
          ((c.runs repository limit).questions web)) ∧
    (∀ owner address (l : List RepositoryEntry),
      Serves web c (c.ownerUrl "orgs" owner) address (Json.listOf? RepositoryEntry.ofJson?) 100 l →
      (c.repositories owner).answeredBy web = .ok (activeNames (l.take unlimited)) ∧
        (l.length ≤ unlimited → (c.repositories owner).answeredBy web = .ok (activeNames l)) ∧
        AsksPages (c.pageRequest address 100) 100 unlimited l
          ((c.repositories owner).questions web)) ∧
    (∀ owner missing address (l : List RepositoryEntry),
      Misses web c (c.ownerUrl "orgs" owner) missing →
      Serves web c (c.ownerUrl "users" owner) address (Json.listOf? RepositoryEntry.ofJson?) 100 l →
      (c.repositories owner).answeredBy web = .ok (activeNames (l.take unlimited)) ∧
        (l.length ≤ unlimited → (c.repositories owner).answeredBy web = .ok (activeNames l)) ∧
        ∃ asked, (c.repositories owner).questions web = c.pageRequest missing 100 1 :: asked ∧
          AsksPages (c.pageRequest address 100) 100 unlimited l asked) ∧
    (∀ {α : Type} (read : Json → Option α) url,
      (c.fetchPaged read url 0).answeredBy web = .ok (some []) ∧
        (c.fetchPaged read url 0).questions web = []) ∧
    ∀ repository, (c.runs repository 0).answeredBy web = .ok [] ∧
      (c.runs repository 0).questions web = [] := by
  refine ⟨fun _ _ _ limit _ h => h.fetchPaged limit, fun _ _ _ _ hlimit h => h.runs hlimit,
    fun owner address l h => ?_, fun owner missing address l h h' => ?_, fun _ _ => ?_,
    fun _ => ⟨rfl, rfl⟩⟩
  · obtain ⟨hresult, hasks⟩ := h.repositories
    exact ⟨hresult, fun hlength => by rw [hresult, List.take_of_length_le hlength], hasks⟩
  · obtain ⟨hresult, hasks⟩ := h.repositories h'
    exact ⟨hresult, fun hlength => by rw [hresult, List.take_of_length_le hlength], hasks⟩
  · rw [fetchPaged, pages, pagesFrom]
    exact ⟨rfl, rfl⟩

def sampleClient : Client := ⟨none, defaultBaseUrl⟩

def sampleWeb (q : Request) : Http.Answer q :=
  some ⟨200, "[[\"acme/web\"],[\"acme/old\",true]]".toUTF8, true⟩

theorem serves_sampleWeb :
    Serves sampleWeb sampleClient (sampleClient.ownerUrl "orgs" "acme")
      ⟨"https", "api.github.com", ["orgs", "acme", "repos"], none, none⟩
      (Json.listOf? RepositoryEntry.ofJson?) 100 [⟨"acme/web", false⟩, ⟨"acme/old", true⟩] where
  reads := by with_unfolding_all rfl
  scheme := .inr rfl
  page number hnumber hstart := by
    obtain rfl : number = 1 := by
      change (number - 1) * 100 ≤ 2 at hstart
      omega
    exact ⟨_, rfl, rfl, by decide +kernel⟩

theorem listings_complete_sampleWeb :
    Serves sampleWeb sampleClient (sampleClient.ownerUrl "orgs" "acme")
        ⟨"https", "api.github.com", ["orgs", "acme", "repos"], none, none⟩
        (Json.listOf? RepositoryEntry.ofJson?) 100 [⟨"acme/web", false⟩, ⟨"acme/old", true⟩] ∧
      (sampleClient.repositories "acme").answeredBy sampleWeb = .ok ["acme/web"] := by
  obtain ⟨-, -, horganization, -⟩ := listings_complete sampleClient sampleWeb
  exact ⟨serves_sampleWeb, (horganization "acme" _ _ serves_sampleWeb).1⟩

end Client

end WorkflowAudit.Hosting.GitHub
