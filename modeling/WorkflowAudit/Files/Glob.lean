import WorkflowAudit.Files.Path
import WorkflowAudit.Files.Question

/-! Patterns for paths: `?` for a character, `*` for any number of them, a class of characters in
brackets, and `**` as a whole name for any number of directories. -/

namespace WorkflowAudit.Files.Glob

inductive Range
  | one (c : Char)
  | between (first last : Char)
  deriving DecidableEq, Repr

def Range.holds (c : Char) : Range → Bool
  | .one d => c = d
  | .between first last => first ≤ c && c ≤ last

inductive Token
  | char (c : Char)
  | any
  | anyRun
  | oneOf (ranges : List Range)
  | noneOf (ranges : List Range)
  | anyDirectories
  deriving DecidableEq, Repr

def ranges : List Char → List Range
  | a :: '-' :: b :: rest => .between a b :: ranges rest
  | a :: rest => .one a :: ranges rest
  | [] => []

def untilBracket? : List Char → Option (List Char × List Char)
  | first :: rest =>
    let inner := rest.takeWhile (· ≠ ']')
    match rest.drop inner.length with
    | _ :: after => some (first :: inner, after)
    | [] => none
  | [] => none

def class? : List Char → Option (Token × List Char)
  | '!' :: rest => (untilBracket? rest).map fun (inner, after) => (.noneOf (ranges inner), after)
  | rest => (untilBracket? rest).map fun (inner, after) => (.oneOf (ranges inner), after)

/-- The tokens of a pattern, unless it is malformed. Two stars have to be all there is between
slashes, and more than two are never right. -/
def tokensFrom : Nat → Option Char → List Char → Option (List Token)
  | 0, _, _ => none
  | _ + 1, _, [] => some []
  | fuel + 1, before, '*' :: '*' :: rest =>
    if (before = none || before = some '/') && (rest = [] || rest.head? = some '/') then do
      return .anyDirectories :: (← tokensFrom fuel (some '/') (rest.drop 1))
    else none
  | fuel + 1, _, '*' :: rest => do return .anyRun :: (← tokensFrom fuel (some '*') rest)
  | fuel + 1, _, '?' :: rest => do return .any :: (← tokensFrom fuel (some '?') rest)
  | fuel + 1, _, '[' :: rest => do
    let (token, rest) ← class? rest
    return token :: (← tokensFrom fuel (some ']') rest)
  | fuel + 1, _, c :: rest => do return .char c :: (← tokensFrom fuel (some c) rest)

def tokens? (pattern : List Char) : Option (List Token) :=
  tokensFrom (pattern.length + 1) none pattern

def isMatch : List Token → List Char → Bool
  | [], s => s.isEmpty
  | .anyRun :: tokens, s => someRest (isMatch tokens) s
  | .anyDirectories :: tokens, s => someRest (isMatch tokens) s
  | .char d :: tokens, c :: s => c = d && isMatch tokens s
  | .any :: tokens, _ :: s => isMatch tokens s
  | .oneOf l :: tokens, c :: s => l.any (·.holds c) && isMatch tokens s
  | .noneOf l :: tokens, c :: s => !l.any (·.holds c) && isMatch tokens s
  | _ :: _, [] => false
where
  someRest (isRight : List Char → Bool) : List Char → Bool
    | [] => isRight []
    | c :: s => isRight (c :: s) || someRest isRight s

inductive Part
  | literal (name : String)
  | wild (tokens : List Token)
  | deep
  deriving DecidableEq, Repr

namespace Part

def ofTokens (tokens : List Token) : Part :=
  if tokens.contains .anyDirectories then .deep
  else match tokens.mapM fun
      | .char c => some c
      | _ => none with
    | some cs => .literal (String.ofList cs)
    | none => .wild tokens

def accepts (name : String) : Part → Bool
  | .literal s => s = name
  | .wild tokens => isMatch tokens name.toList
  | .deep => true

end Part

def parts? (pattern : String) : Option (List Part) := do
  let _ ← tokens? pattern.toList
  let pieces := Text.splitOn '/' pattern.toList
  let pieces := if pieces.getLast? = some [] then pieces.dropLast else pieces
  (pieces.mapM tokens?).map fun l => l.map Part.ofTokens

/-- The working directory, as a path under which nothing is written. -/
def here : String := "."

def extend (path name : String) : String := if path = here then name else Path.join path name

/-- The path of the literal names a pattern starts with, and its other parts. An empty name leads
nowhere from the working directory. -/
def literalStart : String → List Part → Option (String × List Part)
  | path, .literal name :: rest =>
    let path := extend path name
    if path.isEmpty then none else literalStart path rest
  | path, rest => some (path, rest)

structure Place where
  path : String
  layout : Layout
  around : List Layout

namespace Place

def step? (p : Place) (name : String) : Option Place :=
  match p.layout with
  | .file => none
  | .directory children =>
    let path := extend p.path name
    if name = "" || name = "." then some { p with path }
    else if name = ".." then
      match p.around with
      | [] => none
      | outer :: around => some ⟨path, outer, around⟩
    else (children.lookup name).map fun l => ⟨path, l, p.layout :: p.around⟩

def children (p : Place) : List (String × Place) :=
  match p.layout with
  | .file => []
  | .directory children =>
    children.map fun (name, l) => (name, ⟨extend p.path name, l, p.layout :: p.around⟩)

end Place

mutual

def below (path : String) (around : List Layout) : Layout → List (String × Place)
  | .file => []
  | .directory children => belowChildren path (.directory children :: around) children

def belowChildren (path : String) (around : List Layout) :
    List (String × Layout) → List (String × Place)
  | [] => []
  | (name, l) :: rest =>
    let inner := extend path name
    (name, ⟨inner, l, around⟩) :: below inner around l ++ belowChildren path around rest

end

/-- The places a pattern leads to from one place. After `**` the next part is a name of something
below, at any depth. -/
def expand : List Part → Place → List Place
  | [], p => [p]
  | .literal name :: rest, p => ((p.step? name).map (expand rest)).getD []
  | .wild tokens :: rest, p =>
    let inner := p.children.filter fun (name, _) => isMatch tokens name.toList
    -- The two special names match only a pattern that starts with a point.
    let special := if tokens.head? = some (.char '.') then
        [".", ".."].filter fun name => isMatch tokens name.toList
      else []
    inner.flatMap (fun (_, q) => expand rest q) ++
      (special.filterMap p.step?).flatMap (expand rest)
  | .deep :: rest, p => expandDeep rest p
where
  expandDeep : List Part → Place → List Place
    | [], p => p :: ((below p.path p.around p.layout).map (·.2)).filter fun q =>
        match q.layout with
        | .directory _ => true
        | .file => false
    | .deep :: rest, p => expandDeep rest p
    | part :: rest, p =>
      ((below p.path p.around p.layout).filter fun (name, _) => part.accepts name).flatMap
        fun (_, q) => expand rest q

end WorkflowAudit.Files.Glob
