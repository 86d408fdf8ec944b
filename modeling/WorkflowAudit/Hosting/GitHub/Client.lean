import WorkflowAudit.Hosting.GitHub.Run
import WorkflowAudit.Hosting.Service
import WorkflowAudit.Http.Exchange
import WorkflowAudit.Identity
import WorkflowAudit.Json.Reader
import WorkflowAudit.Text.Utf8

/-! GitHub as a hosting service: what is asked of the service becomes an exchange of requests.
Listings come in pages, which are fetched until one is short or enough entries are there. -/

namespace WorkflowAudit.Hosting.GitHub

open Http (Exchange Request Response Url)

structure Client where
  token : Option String
  baseUrl : String
  deriving DecidableEq, Repr

inductive ClientError
  | invalidToken
  deriving DecidableEq, Repr

def ClientError.message : ClientError → String
  | .invalidToken => "Invalid GitHub token"

namespace Client

def defaultBaseUrl : String := "https://api.github.com"

def ofToken (token : Option String) : Except ClientError Client :=
  if (token.map Http.isHeaderValue).getD true then .ok ⟨token, defaultBaseUrl⟩
  else .error .invalidToken

def trimSlashes (s : String) : String :=
  String.ofList ((s.toList.reverse.dropWhile (· = '/')).reverse)

def withBaseUrl (c : Client) (url : String) : Client := { c with baseUrl := trimSlashes url }

def jsonType : String := "application/vnd.github+json"

def rawType : String := "application/vnd.github.raw"

def headers (c : Client) (accept : String) : List (String × String) :=
  [("accept", accept), ("user-agent", programName ++ "/" ++ programVersion),
    ("x-github-api-version", "2022-11-28")] ++
  match c.token with
  | some token => [("authorization", "Bearer " ++ token)]
  | none => []

def fetch (c : Client) (accept url : String) (query : List (String × String)) :
    Exchange (Except FetchError Response) :=
  match Url.read url with
  | .error _ => .done (.error (.transport url "builder error"))
  | .ok address =>
    let address := address.withQuery query
    if address.scheme = "http" || address.scheme = "https" then
      .ask ⟨address, c.headers accept⟩ fun
        | some response => .done (.ok response)
        | none => .done (.error
            (.transport url ("error sending request for url (" ++ address.write ++ ")")))
    else .done (.error (.transport url ("builder error for url (" ++ address.write ++ ")")))

def content {α : Type} (url : String) (read : Response → Except FetchError α) (r : Response) :
    Except FetchError (Option α) :=
  if r.isNotFound then .ok none
  else if r.isSuccess then (read r).map some
  else .error (.status url r.status)

def decoded? {α : Type} (read : Json → Option α) (r : Response) : Option α := do
  guard r.isComplete
  let text ← String.fromUTF8? r.body
  match Json.read text with
  | .ok j => read j
  | .error _ => none

def fetchJson {α : Type} (c : Client) (read : Json → Option α) (url : String)
    (query : List (String × String)) : Exchange (Except FetchError (Option α)) :=
  (c.fetch jsonType url query).bind fun answer => .done (answer.bind (content url fun r =>
    match decoded? read r with
    | some a => .ok a
    | none => .error (.decode url "error decoding response body")))

def pageSize : Nat := 100

/-- Fetches pages from a number on, after the entries there are. A missing page ends the listing;
there is none if the first page is missing. -/
def pagesFrom {α : Type} (size limit : Nat) (positive : 0 < size)
    (page : Nat → Exchange (Except FetchError (Option (List α)))) (number : Nat) (found : List α) :
    Exchange (Except FetchError (Option (List α))) :=
  if _h : found.length < limit then
    (page number).bind fun
      | .error e => .done (.error e)
      | .ok none => .done (.ok (if number = 1 then none else some found))
      | .ok (some batch) =>
        if _h' : batch.length < size then .done (.ok (some ((found ++ batch).take limit)))
        -- Every page so far was full and, short of the limit, of the largest size. All its entries
        -- are held, so that the number stays within 32 bits.
        else pagesFrom size limit positive page (number + 1) (found ++ batch)
  else .done (.ok (some (found.take limit)))
termination_by limit - found.length
decreasing_by simp only [List.length_append]; omega

def pages {α : Type} (size limit : Nat) (positive : 0 < size)
    (page : Nat → Exchange (Except FetchError (Option (List α)))) :
    Exchange (Except FetchError (Option (List α))) :=
  pagesFrom size limit positive page 1 []

def pageQuery (size number : Nat) : List (String × String) :=
  [("per_page", toString size), ("page", toString number)]

/-- More than any listing holds. -/
def unlimited : Nat := Nat.pow 2 64 - 1

def fetchPaged {α : Type} (c : Client) (read : Json → Option α) (url : String) (limit : Nat) :
    Exchange (Except FetchError (Option (List α))) :=
  pages pageSize limit (by decide) fun number =>
    c.fetchJson (Json.listOf? read) url (pageQuery pageSize number)

structure RepositoryEntry where
  fullName : String
  isArchived : Bool
  deriving DecidableEq, Repr

def RepositoryEntry.ofJson? (j : Json) : Option RepositoryEntry := do
  let fields ← j.record? ["full_name", "archived"] 1
  return ⟨← Json.field? fields "full_name" Json.string?,
    ← Json.defaultField? fields "archived" false Json.bool?⟩

/-- An owner is an organization, or else a user. Archived repositories are left out. -/
def repositories (c : Client) (owner : String) : Exchange (Except FetchError (List String)) :=
  let listing (kind : String) :=
    c.fetchPaged RepositoryEntry.ofJson? (c.baseUrl ++ "/" ++ kind ++ "/" ++ owner ++ "/repos")
      unlimited
  let names (l : List RepositoryEntry) := (l.filter (!·.isArchived)).map (·.fullName)
  (listing "orgs").bind fun
    | .error e => .done (.error e)
    | .ok (some l) => .done (.ok (names l))
    | .ok none => (listing "users").bind fun
      | .error e => .done (.error e)
      | .ok (some l) => .done (.ok (names l))
      | .ok none => .done (.error (.other ("owner '" ++ owner ++ "' not found")))

def runsOfJson? (j : Json) : Option (List Run) := do
  let fields ← j.record? ["workflow_runs"] 0
  Json.field? fields "workflow_runs" (Json.listOf? Run.ofJson?)

/-- The latest runs. For them a missing page is an error. -/
def runs (c : Client) (repository : String) (limit : Nat) :
    Exchange (Except FetchError (List Runs.Record)) :=
  let url := c.baseUrl ++ "/repos/" ++ repository ++ "/actions/runs"
  if positive : 0 < limit then
    let size := min pageSize limit
    let page (number : Nat) :=
      (c.fetchJson runsOfJson? url (pageQuery size number)).bind fun
        | .ok none => .done (.error (.status url 404))
        | answer => .done answer
    (pages size limit (by simp only [size, pageSize]; omega) page).bind fun answer =>
      .done (answer.map fun l => (l.getD []).map (·.toRecord repository))
  else .done (.ok [])

def workflowDirectory : String := ".github/workflows"

def contentsUrl (c : Client) (repository : String) : String :=
  c.baseUrl ++ "/repos/" ++ repository ++ "/contents/" ++ workflowDirectory

structure ContentEntry where
  name : String
  kind : String
  deriving DecidableEq, Repr

def ContentEntry.ofJson? (j : Json) : Option ContentEntry := do
  let fields ← j.record? ["name", "type"] 0
  return ⟨← Json.field? fields "name" Json.string?, ← Json.field? fields "type" Json.string?⟩

def files (c : Client) (repository : String) : Exchange (Except FetchError (List String)) :=
  (c.fetchJson (Json.listOf? ContentEntry.ofJson?) (c.contentsUrl repository) []).bind fun answer =>
    .done (answer.map fun l => ((l.getD []).filter (·.kind = "file")).map (·.name))

/-- The text of a file, if it is there. Bytes that are no text are replaced. -/
def definition (c : Client) (repository file : String) :
    Exchange (Except FetchError (Option String)) :=
  let url := c.contentsUrl repository ++ "/" ++ file
  (c.fetch rawType url []).bind fun answer => .done (answer.bind (content url fun r =>
    if r.isComplete then .ok (String.ofList (Text.Utf8.decode r.body.toList))
    else .error (.transport url "error decoding response body")))

def answer (c : Client) : (call : Call) → Exchange call.Answer
  | .repositories owner => c.repositories owner
  | .runs repository limit => c.runs repository limit
  | .files repository => c.files repository
  | .definition repository file => c.definition repository file

end Client

end WorkflowAudit.Hosting.GitHub
