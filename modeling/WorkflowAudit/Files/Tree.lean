import WorkflowAudit.Files.Question
import WorkflowAudit.Text.Split

/-! A file system as a value: files with their bytes, in directories. Paths that do not start with a
slash lead from the working directory. -/

namespace WorkflowAudit.Files

inductive Tree
  | file (bytes : ByteArray)
  | directory (children : List (String × Tree))

namespace Tree

instance : Inhabited Tree := ⟨.directory []⟩

mutual

def layout : Tree → Layout
  | .file _ => .file
  | .directory children => .directory (layoutOfChildren children)

def layoutOfChildren : List (String × Tree) → List (String × Layout)
  | [] => []
  | (name, t) :: rest => (name, layout t) :: layoutOfChildren rest

end

def setChild (name : String) (t : Tree) : List (String × Tree) → List (String × Tree)
  | [] => [(name, t)]
  | (n, old) :: rest => if n = name then (n, t) :: rest else (n, old) :: setChild name t rest

def nameLimit : Nat := 255

/-- Walks from a place, which is a list of directories, the innermost first. -/
def walk (place : List Tree) : List String → Except Error (List Tree)
  | [] => .ok place
  | name :: rest =>
    match place with
    | .directory children :: outer =>
      if name = "" || name = "." then walk place rest
      else if name = ".." then walk (if outer.isEmpty then place else outer) rest
      else if nameLimit < name.utf8ByteSize then .error .nameTooLong
      else match children.lookup name with
        | some t => walk (t :: place) rest
        | none => .error .notFound
    | .file _ :: _ => .error .notDirectory
    | [] => .error .notFound

def insertAt (t : Tree) : List String → Tree → Tree
  | [], _ => t
  | name :: rest, .directory children =>
    let inner := (children.lookup name).getD (.directory [])
    .directory (setChild name (insertAt t rest inner) children)
  | name :: rest, .file _ => .directory [(name, insertAt t rest (.directory []))]

end Tree

structure Store where
  root : Tree
  working : List String

namespace Store

def steps (s : Store) (path : String) : List String :=
  let pieces := (Text.splitOn '/' path.toList).map String.ofList
  if path.startsWith "/" then pieces else s.working ++ pieces

def find (s : Store) (path : String) : Except Error Tree :=
  if path.isEmpty then .error .notFound
  else if path.toList.contains '\x00' then .error .zeroInPath
  else match Tree.walk [s.root] (s.steps path) with
    | .ok (t :: _) => .ok t
    | .ok [] => .error .notFound
    | .error e => .error e

def read (s : Store) (path : String) : Except Error String :=
  match s.find path with
  | .error e => .error e
  | .ok (.directory _) => .error .isDirectory
  | .ok (.file bytes) =>
    match String.fromUTF8? bytes with
    | some text => .ok text
    | none => .error .notText

def plainSteps (s : Store) (path : String) : List String :=
  (s.steps path).foldl (fun names step =>
    if step = "" || step = "." then names
    else if step = ".." then names.dropLast
    else names ++ [step]) []

def put (s : Store) (path : String) (t : Tree) : Store :=
  { s with root := Tree.insertAt t (s.plainSteps path) s.root }

def makeDirectory (s : Store) (path : String) : Except Error Store :=
  match s.find path with
  | .ok (.directory _) => .ok s
  | .ok (.file _) => .error .alreadyExists
  | .error .notFound => .ok (s.put path (.directory []))
  | .error e => .error e

def parent (path : String) : String :=
  let pieces := Text.splitOn '/' path.toList
  if pieces.length ≤ 1 then "."
  else String.ofList ("/".toList.intercalate pieces.dropLast)

def write (s : Store) (path text : String) : Except Error Store :=
  match s.find path with
  | .ok (.directory _) => .error .isDirectory
  | .ok (.file _) => .ok (s.put path (.file text.toUTF8))
  | .error .notFound =>
    match s.find (parent path) with
    | .ok (.directory _) => .ok (s.put path (.file text.toUTF8))
    | .ok (.file _) => .error .notDirectory
    | .error e => .error e
  | .error e => .error e

def answer : (q : Question) → StateM Store q.Answer
  | .layout path => fun s =>
    match s.find path with
    | .ok t => (some t.layout, s)
    | .error _ => (none, s)
  | .read path => fun s => (s.read path, s)
  | .makeDirectory path => fun s =>
    match s.makeDirectory path with
    | .ok s => (.ok (), s)
    | .error e => (.error e, s)
  | .write path text => fun s =>
    match s.write path text with
    | .ok s => (.ok (), s)
    | .error e => (.error e, s)

end Store

end WorkflowAudit.Files
