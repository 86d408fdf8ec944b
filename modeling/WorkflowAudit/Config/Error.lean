import WorkflowAudit.Config.Settings
import WorkflowAudit.Files.Error

namespace WorkflowAudit.Config

inductive Error
  | unreadable (path : String) (cause : Files.Error)
  | malformed (path : String)
  | invalid (violation : Settings.Violation)

namespace Error

/-- Stands for what the TOML reader has to say, which is left out of messages. -/
def readerText : String := "<toml>"

def message : Error → String
  | .unreadable path cause => "failed to read config file '" ++ path ++ "': " ++ cause.message
  | .malformed path => "failed to parse config file '" ++ path ++ "': " ++ readerText
  | .invalid v => "invalid config value for '" ++ v.field ++ "': " ++ v.reason

end Error

end WorkflowAudit.Config
