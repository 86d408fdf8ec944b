namespace WorkflowAudit.Yaml

inductive Number
  | int (value : Int)
  | float (value : Float)

inductive Value
  | null
  | bool (value : Bool)
  | number (value : Number)
  | string (value : String)
  | sequence (items : List Value)
  | mapping (entries : List (Value × Value))
  | tagged (tag : String) (content : Value)

abbrev Mapping := List (Value × Value)

/-- Equality of numbers as keys: a double never equals an integer, all NaN are equal, and so are
the two zeros. -/
def Number.same : Number → Number → Bool
  | .int a, .int b => a = b
  | .float a, .float b => a.isNaN && b.isNaN || a == b
  | _, _ => false

namespace Value

instance : Inhabited Value := ⟨null⟩

mutual

def same : Value → Value → Bool
  | .null, .null => true
  | .bool a, .bool b => a = b
  | .number a, .number b => a.same b
  | .string a, .string b => a = b
  | .sequence as, .sequence bs => sameItems as bs
  | .mapping as, .mapping bs => as.length = bs.length && sameEntries as bs
  | .tagged s a, .tagged t b => s = t && same a b
  | _, _ => false

def sameItems : List Value → List Value → Bool
  | [], [] => true
  | a :: as, b :: bs => same a b && sameItems as bs
  | _, _ => false

def sameEntries : Mapping → Mapping → Bool
  | [], _ => true
  | (k, v) :: rest, bs => bs.any (fun (k', v') => same k k' && same v v') && sameEntries rest bs

end

def untagged : Value → Value
  | .tagged _ content => untagged content
  | v => v

def asString? (v : Value) : Option String :=
  match v.untagged with
  | .string s => some s
  | _ => none

def asBool? (v : Value) : Option Bool :=
  match v.untagged with
  | .bool b => some b
  | _ => none

def asSequence? (v : Value) : Option (List Value) :=
  match v.untagged with
  | .sequence items => some items
  | _ => none

def asMapping? (v : Value) : Option Mapping :=
  match v.untagged with
  | .mapping entries => some entries
  | _ => none

def lookup? (key : String) : Mapping → Option Value
  | [] => none
  | (.string k, v) :: rest => if k = key then some v else lookup? key rest
  | _ :: rest => lookup? key rest

def get? (v : Value) (key : String) : Option Value := v.asMapping?.bind (lookup? key)

def isMapping (v : Value) : Bool := v.asMapping?.isSome

end Value

namespace Mapping

def insert (key value : Value) : Mapping → Mapping
  | [] => [(key, value)]
  | (k, v) :: rest => if k.same key then (k, value) :: rest else (k, v) :: insert key value rest

def insertAll (m more : Mapping) : Mapping := more.foldl (fun m (k, v) => Mapping.insert k v m) m

def hasKey (m : Mapping) (key : Value) : Bool := m.any fun (k, _) => k.same key

end Mapping

end WorkflowAudit.Yaml
