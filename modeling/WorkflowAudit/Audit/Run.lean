import WorkflowAudit.Audit.Outcome

namespace WorkflowAudit.Audit

open Hosting (Call)
open Lint (Engine)

def run (engine : Engine) (settings : Config.Settings) (repositories : List String)
    (now : Time.Instant) : Dialogue Query.Answer (Except Runs.WindowError Outcome) :=
  (Dialogue.forEach (auditRepository engine settings.runLimit) repositories).bind fun audits =>
    .ask .cancelled fun cancelled =>
      .done (Outcome.ofAudits engine settings.windowDays now cancelled audits)

def listOwner (owner : String) : Dialogue Call.Answer (List String × List Diagnostic) :=
  .ask (.repositories owner) fun
    | .ok names => .done (names, [])
    | .error e => .done ([], [⟨owner, none, .repositoryListing, e.message⟩])

def resolve (owners named : List String) : Dialogue Call.Answer (List String × List Diagnostic) :=
  (Dialogue.forEach listOwner owners).bind fun listings =>
    .done ((listings.flatMap (·.1) ++ named).eraseDups, listings.flatMap (·.2))

end WorkflowAudit.Audit
