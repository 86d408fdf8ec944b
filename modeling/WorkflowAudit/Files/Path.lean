import WorkflowAudit.Text.Split

namespace WorkflowAudit.Files.Path

def join (base path : String) : String :=
  if path.startsWith "/" || base.isEmpty then path
  else if base.endsWith "/" then base ++ path
  else base ++ "/" ++ path

def workflowDirectory (root : String) : String := join (join root ".github") "workflows"

inductive Component
  | root
  | here
  | up
  | name (text : String)
  deriving DecidableEq, Repr

namespace Component

def rank : Component → Nat
  | .root => 0
  | .here => 1
  | .up => 2
  | .name _ => 3

def text : Component → String
  | .name text => text
  | _ => ""

def isLe (a b : Component) : Bool := a.rank < b.rank || (a.rank = b.rank && a.text ≤ b.text)

end Component

/-- The steps of a path. Doubled slashes, and points past the start, do not count. -/
def components (path : String) : List Component :=
  let pieces := (Text.splitOn '/' path.toList).map String.ofList
  let start := match pieces with
    | "" :: _ :: _ => [Component.root]
    | "." :: _ => [Component.here]
    | _ => []
  start ++ pieces.filterMap fun piece =>
    if piece = "" || piece = "." then none
    else if piece = ".." then some .up
    else some (.name piece)

def isLeSteps : List Component → List Component → Bool
  | [], _ => true
  | _ :: _, [] => false
  | a :: as, b :: bs => if a = b then isLeSteps as bs else a.isLe b

def isLe (a b : String) : Bool := isLeSteps (components a) (components b)

def dropRepeated : List String → List String
  | a :: b :: rest =>
    if components a = components b then dropRepeated (a :: rest) else a :: dropRepeated (b :: rest)
  | l => l
termination_by l => l.length

def sorted (paths : List String) : List String := dropRepeated (paths.mergeSort isLe)

end WorkflowAudit.Files.Path
