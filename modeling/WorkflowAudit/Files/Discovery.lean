import WorkflowAudit.Files.Glob

namespace WorkflowAudit.Files

inductive DiscoveryError
  | noSuchPath (path : String)
  | badPattern
  deriving DecidableEq, Repr

def DiscoveryError.message : DiscoveryError → String
  | .noSuchPath path => "Path '" ++ path ++ "' does not exist"
  | .badPattern => "Failed to read glob pattern"

/-- The pattern for files of a kind below a directory. The name of the directory becomes part of it
as it stands. -/
def patternBelow (path extension : String) : String := path ++ "/**/*." ++ extension

def patternStart (parts : List Glob.Part) : String × List Glob.Part :=
  match parts with
  | .literal "" :: rest => ("/", rest)
  | parts => (Glob.here, parts)

def findFiles (patterns : List (List Glob.Part)) : Dialogue (List String) :=
  (Dialogue.forEach (fun parts =>
    let (start, parts) := patternStart parts
    match Glob.literalStart start parts with
    | none => .done []
    | some (base, parts) => .ask (.layout base) fun
      | none => .done []
      | some layout =>
        .done (((Glob.expand parts ⟨base, layout, []⟩).filter fun p =>
          match p.layout with
          | .file => true
          | .directory _ => false).map (·.path))) patterns).bind fun l => .done l.flatten

def discover (path : String) : Dialogue (Except DiscoveryError (List String)) :=
  .ask (.layout path) fun
    | none => .done (.error (.noSuchPath path))
    | some .file => .done (.ok [path])
    | some (.directory _) =>
      match ["yml", "yaml"].mapM fun extension => Glob.parts? (patternBelow path extension) with
      | none => .done (.error .badPattern)
      | some patterns => (findFiles patterns).bind fun files => .done (.ok (Path.sorted files))

end WorkflowAudit.Files
