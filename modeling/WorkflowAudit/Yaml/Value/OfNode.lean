import WorkflowAudit.Yaml.Node
import WorkflowAudit.Yaml.Value.Plain

namespace WorkflowAudit.Yaml

/-- The number each anchor name stands for so far. A new anchor gets the number of names known, so
that a name given anew shares its number with the next new name. -/
structure Anchors where
  numbers : List (String × Nat)

namespace Anchors

def declare (name : String) (a : Anchors) : Nat × Anchors :=
  let n := a.numbers.length
  (n, ⟨(name, n) :: a.numbers.filter fun e => e.1 ≠ name⟩)

def declareIn (p : Props String) (a : Anchors) : Props Nat × Anchors :=
  match p.anchor with
  | none => (⟨none, p.tag⟩, a)
  | some name =>
    let (n, a) := a.declare name
    (⟨some n, p.tag⟩, a)

end Anchors

namespace Node

mutual

def number (a : Anchors) : Node String → Except Error (Node Nat × Anchors)
  | .alias name =>
    match a.numbers.lookup name with
    | some n => .ok (.alias n, a)
    | none => .error (.unknownAlias name)
  | .scalar p text plain =>
    let (p, a) := a.declareIn p
    .ok (.scalar p text plain, a)
  | .sequence p items => do
    let (p, a) := a.declareIn p
    let (items, a) ← numberItems a items
    return (.sequence p items, a)
  | .mapping p entries => do
    let (p, a) := a.declareIn p
    let (entries, a) ← numberEntries a entries
    return (.mapping p entries, a)

def numberItems (a : Anchors) : List (Node String) → Except Error (List (Node Nat) × Anchors)
  | [] => .ok ([], a)
  | n :: rest => do
    let (n, a) ← number a n
    let (rest, a) ← numberItems a rest
    return (n :: rest, a)

def numberEntries (a : Anchors) :
    List (Node String × Node String) → Except Error (List (Node Nat × Node Nat) × Anchors)
  | [] => .ok ([], a)
  | (k, v) :: rest => do
    let (k, a) ← number a k
    let (v, a) ← number a v
    let (rest, a) ← numberEntries a rest
    return ((k, v) :: rest, a)

end

def anchored (p : Props Nat) (n : Node Nat) : List (Nat × Node Nat) :=
  match p.anchor with
  | some i => [(i, n)]
  | none => []

mutual

def targets : Node Nat → List (Nat × Node Nat)
  | .alias _ => []
  | .scalar p text plain => anchored p (.scalar p text plain)
  | .sequence p items => anchored p (.sequence p items) ++ targetsOfItems items
  | .mapping p entries => anchored p (.mapping p entries) ++ targetsOfEntries entries

def targetsOfItems : List (Node Nat) → List (Nat × Node Nat)
  | [] => []
  | n :: rest => targets n ++ targetsOfItems rest

def targetsOfEntries : List (Node Nat × Node Nat) → List (Nat × Node Nat)
  | [] => []
  | (k, v) :: rest => targets k ++ targets v ++ targetsOfEntries rest

end

end Node

namespace Value

def localTag? (tag : Option String) : Option String :=
  match tag.map String.toList with
  | some ['!'] => some "!"
  | some ('!' :: '!' :: c :: rest) => some (String.ofList (c :: rest))
  | some ('!' :: rest) => some (String.ofList rest)
  | _ => none

abbrev Expand := StateT Nat (Except Error)

def depthLimit : Nat := 128

def mappingOf (read : Node Nat → Expand Value) :
    Mapping → List (Node Nat × Node Nat) → Expand Mapping
  | done, [] => return done.reverse
  | done, (k, v) :: rest => do
    let key ← read k
    if Mapping.hasKey done key then throw .duplicateKey
    let value ← read v
    mappingOf read ((key, value) :: done) rest

def ofContent (read : Option (Node Nat → Expand Value)) (n : Node Nat) : Expand Value :=
  let tagged (p : Props Nat) (v : Expand Value) : Expand Value :=
    match localTag? p.tag with
    | some tag => do return .tagged tag (← v)
    | none => v
  match n with
  | .alias _ => throw .expectedNode
  | .scalar p text plain =>
    match p.tag, localTag? p.tag with
    | some tag, none => Plain.taggedValue tag text
    | _, _ => tagged p (if plain then Plain.value text else return .string text)
  | .sequence p items => tagged p do
    let some read := read | throw .tooDeep
    return .sequence (← items.mapM read)
  | .mapping p entries => tagged p do
    let some read := read | throw .tooDeep
    return .mapping (← mappingOf read [] entries)

def ofTarget (targets : List (Nat × Node Nat)) (read : Option (Node Nat → Expand Value)) :
    Node Nat → Expand Value
  | .alias i => do
    let left ← get
    if left = 0 then throw .tooManyAliases
    set (left - 1)
    match targets.lookup i with
    | some n => ofContent read n
    | none => throw .expectedNode
  | n => ofContent read n

def expand (targets : List (Nat × Node Nat)) : Nat → Node Nat → Expand Value
  | 0 => ofTarget targets none
  | depth + 1 => ofTarget targets (some (expand targets depth))

/-- The value of a document. Aliases are followed at most a hundred times as often as the document
has marks. -/
def ofNode (n : Node String) : Except Error Value := do
  let (n, _) ← n.number ⟨[]⟩
  let (v, _) ← (expand n.targets.reverse depthLimit n).run (100 * n.marks)
  return v

end Value

end WorkflowAudit.Yaml
