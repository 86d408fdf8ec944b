import WorkflowAudit.Lint.Rules.Limits
import WorkflowAudit.Text.Pattern
import WorkflowAudit.Text.Split

namespace WorkflowAudit.Lint.Rules

open Workflow (Document Step)
open Text (Pattern)

def versionPieces? (version : List Char) : Option (List (List Char)) :=
  let pieces := Text.splitOn '.' version
  if pieces.all fun p => !p.isEmpty && p.all Char.isDigit then some pieces else none

def isOldCheckout (uses : String) : Bool :=
  let action := "actions/checkout@v".toList
  action.isPrefixOf uses.toList &&
    match versionPieces? (uses.toList.drop action.length) with
    | some (major :: _) => major = ['1'] || major = ['2']
    | _ => false

def oldCheckout (d : Document) : List Detection :=
  let uses := (d.steps.filterMap fun (_, s) => s.uses).filter isOldCheckout
  namingAll (sortedNames uses) fun names => .info ("Outdated checkout action: " ++ names)

def command (parts : List (List String)) : Pattern :=
  .chain ([.wordEdge] ++ (parts.map Pattern.words).intersperse .gap ++ [.wordEdge])

/-- The commands that fetch packages; `yarn` does so if it is alone on its line. -/
def installPattern : Pattern :=
  .oneOf [
    command [["npm"], ["install", "ci", "i"]],
    command [["yarn"], ["install"]],
    .chain [.lineStart, .blanks, .text "yarn", .blanks, .lineEnd],
    command [["pnpm"], ["install", "i"]],
    command [["pip", "pip3"], ["install"]],
    command [["pipenv"], ["install"]],
    command [["poetry"], ["install"]],
    command [["bundle"], ["install"]],
    command [["composer"], ["install"]],
    command [["go"], ["mod"], ["download"]],
    command [["gradle", "gradlew"], ["dependencies"]],
    .chain [.wordEdge, .text "mvn", .gap, .text "dependency:"]]

def isInstall (text : String) : Bool := installPattern.occursIn text

def installsPackages (s : Step) : Bool :=
  (s.run.map isInstall).getD false || s.params.values.any isInstall

def isCacheKey (key : String) : Bool :=
  key = "cache" || "-cache".toList.isSuffixOf key.toList

def turnsCacheOn (key value : String) : Bool :=
  isCacheKey key &&
    let value := Text.trim value.toList
    !value.isEmpty && value ≠ "false".toList

def isCacheAction (s : Step) : Bool :=
  match s.actionName with
  | some name => Text.containsLowered name "cache"
  | none => false

def providesCache (s : Step) : Bool :=
  isCacheAction s || s.params.entries.any fun (key, value) => turnsCacheOn key value

def noCache (d : Document) : List Detection :=
  if d.steps.any fun (_, s) => providesCache s then []
  else
    let installs := d.steps.filter fun (_, s) => installsPackages s
    namingAll (sortedNames (installs.map (·.1.id))) fun names =>
      .info ("Dependencies installed without caching in jobs [" ++ names ++ "]")

end WorkflowAudit.Lint.Rules
