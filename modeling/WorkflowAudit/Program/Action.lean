import WorkflowAudit.Audit.Repository
import WorkflowAudit.Files.Question
import WorkflowAudit.Http.Exchange
import WorkflowAudit.Program.Failure

namespace WorkflowAudit.Program

inductive Question
  | files (q : Files.Question)
  | request (r : Http.Request)
  | interrupted
  | now

def Question.Answer : Question → Type
  | .files q => q.Answer
  | .request r => Http.Answer r
  | .interrupted => Bool
  | .now => Time.Instant

abbrev Dialogue (α : Type) := WorkflowAudit.Dialogue Question.Answer α

abbrev Action (α : Type) := ExceptT Failure (WorkflowAudit.Dialogue Question.Answer) α

namespace Action

def ofExcept {ε α : Type} (failure : ε → Failure) : Except ε α → Action α
  | .ok a => pure a
  | .error e => throw (failure e)

def ofDialogue {α : Type} (d : Dialogue α) : Action α := ExceptT.lift d

def attempt {ε α : Type} (failure : ε → Failure) (d : Dialogue (Except ε α)) : Action α := do
  ofExcept failure (← ofDialogue d)

def files {α : Type} (d : Files.Dialogue α) : Dialogue α := d.through fun q => .put (.files q)

def write (path text : String) : Files.Dialogue (Except Files.Error Unit) :=
  .put (Files.Question.write path text)

def makeDirectory (path : String) : Files.Dialogue (Except Files.Error Unit) :=
  .put (Files.Question.makeDirectory path)

def now : Dialogue Time.Instant := .put Question.now

def exchange {α : Type} (d : Http.Exchange α) : Dialogue α := d.through fun r => .put (.request r)

def call (client : Hosting.GitHub.Client) (c : Hosting.Call) : Dialogue c.Answer :=
  exchange (client.answer c)

def query (client : Hosting.GitHub.Client) : (q : Audit.Query) → Dialogue q.Answer
  | .call c => call client c
  | .cancelled => .put Question.interrupted

end Action

end WorkflowAudit.Program
