import WorkflowAudit.Terminal.Style

namespace WorkflowAudit.Program

structure Environment where
  values : List (String × String)
  isTerminal : Bool
  deriving DecidableEq, Repr

namespace Environment

def get? (e : Environment) (name : String) : Option String := e.values.lookup name

def token? (e : Environment) : Option String := e.get? "GITHUB_TOKEN"

def isOn? (e : Environment) (name : String) : Option Bool := (e.get? name).map (· ≠ "0")

def showsStyles (e : Environment) : Bool :=
  if e.isOn? "CLICOLOR_FORCE" = some true then true
  else if (e.get? "NO_COLOR").isSome then false
  else e.isTerminal && (e.isOn? "CLICOLOR").getD true

def paint (e : Environment) : Terminal.Paint := if e.showsStyles then .styled else .plain

end Environment

end WorkflowAudit.Program
