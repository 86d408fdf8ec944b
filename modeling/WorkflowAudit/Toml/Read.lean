import WorkflowAudit.Toml.Scalar

namespace WorkflowAudit.Toml

def clashes (keys : List (List String)) (k : List String) : Bool :=
  keys.any fun k' => k.isPrefixOf k' || k'.isPrefixOf k

def items (value : Reader Value) : Nat → List Value → Reader (List Value)
  | 0, _, _ => none
  | fuel + 1, done, s =>
    match skipAll s with
    | ']' :: s => some (done.reverse, s)
    | s => do
      let (v, s) ← value s
      match skipAll s with
      | ',' :: s => items value fuel (v :: done) s
      | ']' :: s => some ((v :: done).reverse, s)
      | _ => none

def entries (value : Reader Value) :
    Nat → List (List String × Value) → Reader (List (List String × Value))
  | 0, _, _ => none
  | fuel + 1, done, s => do
    let (k, s) ← key depthLimit s
    guard (k.length < depthLimit && !clashes (done.map (·.1)) k)
    let (v, s) ← value (skipBlanks (← mark '=' s))
    match skipBlanks s with
    | ',' :: s => entries value fuel ((k, v) :: done) s
    | '\x7d' :: s => some (((k, v) :: done).reverse, s)
    | _ => none

def value : Nat → Reader Value
  | 0, s => scalar s
  | depth + 1, s =>
    match s with
    | '[' :: s =>
      if depth = 0 then none
      else (items (value depth) (s.length + 1) [] s).map fun (l, s) => (.array l, s)
    | '\x7b' :: s =>
      if depth = 0 then none
      else match skipBlanks s with
        | '\x7d' :: s => some (.inlineTable [], s)
        | s => (entries (value depth) (s.length + 1) [] s).map fun (l, s) => (.inlineTable l, s)
    | s => scalar s

def lineEnd (s : List Char) : Option (List Char) :=
  match skipComment (skipBlanks s) with
  | [] => some []
  | s => newline? s

def statement (s : List Char) : Option (Statement × List Char) :=
  match s with
  | '[' :: '[' :: s => do
    let (path, s) ← key depthLimit s
    guard (path.length < depthLimit)
    let s ← lineEnd (← mark ']' (← mark ']' s))
    return (.arrayHeader path, s)
  | '[' :: s => do
    let (path, s) ← key depthLimit s
    guard (path.length < depthLimit)
    let s ← lineEnd (← mark ']' s)
    return (.header path, s)
  | s => do
    let (path, s) ← key depthLimit s
    guard (path.length < depthLimit)
    let (v, s) ← value depthLimit (skipBlanks (← mark '=' s))
    return (.entry path v, ← lineEnd s)

def statements : Nat → List Char → Option (List Statement)
  | 0, _ => none
  | fuel + 1, s =>
    match skipBlanks s with
    | [] => some []
    | '#' :: rest => do statements fuel (← lineEnd ('#' :: rest))
    | c :: rest =>
      match newline? (c :: rest) with
      | some rest => statements fuel rest
      | none => do
        let (st, rest) ← statement (c :: rest)
        return st :: (← statements fuel rest)

def setItem (name : String) (item : Item) : Table → Table
  | [] => [(name, item)]
  | (n, i) :: rest => if n = name then (n, item) :: rest else (n, i) :: setItem name item rest

/-- Changes the table under a path, making the tables on the way there if they are missing. By
dotted keys only such tables may be changed that came about without a header of their own. The
change is told whether the table came about by dotted keys. -/
def changeAt (dotted : Bool) (change : Bool → Table → Option Table) (isDotted : Bool) :
    List String → Table → Option Table
  | [], t => change isDotted t
  | name :: path, t =>
    match t.lookup name with
    | none => do
      return setItem name (.table true dotted (← changeAt dotted change dotted path [])) t
    | some (.value _) => none
    | some (.tables []) => none
    | some (.tables (last :: earlier)) => do
      return setItem name (.tables ((← changeAt dotted change false path last) :: earlier)) t
    | some (.table isImplicit isDotted inner) => do
      guard (!dotted || isImplicit)
      let changed ← changeAt dotted change isDotted path inner
      return setItem name (.table isImplicit isDotted changed) t

def addEntry (hasPath : Bool) (name : String) (v : Value) (isDotted : Bool) (t : Table) :
    Option Table := do
  guard (isDotted = hasPath && (t.lookup name).isNone)
  return t ++ [(name, .value v)]

/-- A header makes a table explicit, which must not be one already or have come from dotted keys. -/
def addTable (name : String) (t : Table) : Option Table :=
  match t.lookup name with
  | none => some (t ++ [(name, .table false false [])])
  | some (.table true false inner) => some (setItem name (.table false false inner) t)
  | _ => none

def addArrayTable (name : String) (t : Table) : Option Table :=
  match t.lookup name with
  | none => some (t ++ [(name, .tables [[]])])
  | some (.tables l) => some (setItem name (.tables ([] :: l)) t)
  | _ => none

def splitLast? (path : List String) : Option (List String × String) :=
  path.getLast?.map fun last => (path.dropLast, last)

structure Build where
  root : Table
  current : List String

def Build.add (b : Build) : Statement → Option Build
  | .entry path v => do
    let (parents, name) ← splitLast? path
    let change (_ : Bool) (t : Table) : Option Table :=
      changeAt true (addEntry (!parents.isEmpty) name v) false parents t
    return { b with root := ← changeAt false change false b.current b.root }
  | .header path => do
    let (parents, name) ← splitLast? path
    return ⟨← changeAt false (fun _ => addTable name) false parents b.root, path⟩
  | .arrayHeader path => do
    let (parents, name) ← splitLast? path
    return ⟨← changeAt false (fun _ => addArrayTable name) false parents b.root, path⟩

def read? (text : String) : Option Table := do
  let s := match text.toList with
    | '\uFEFF' :: s => s
    | s => s
  let l ← statements (s.length + 1) s
  return (← l.foldlM Build.add ⟨[], []⟩).root

end WorkflowAudit.Toml
