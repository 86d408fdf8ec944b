import WorkflowAudit.Json.Value
import WorkflowAudit.KeyMap
import WorkflowAudit.Time.Rfc3339

/-! Reading records, choices and lists out of JSON values. A record is an object, whose unknown
members are ignored, or the array of its fields in order. -/

namespace WorkflowAudit.Json

def string? : Json → Option String
  | .str s => some s
  | _ => none

def bool? : Json → Option Bool
  | .bool b => some b
  | _ => none

def natUpTo? (most : Nat) : Json → Option Nat
  | .num (.int i) => if 0 ≤ i && i ≤ most then some i.toNat else none
  | _ => none

def nat64? : Json → Option Nat := natUpTo? (Nat.pow 2 64 - 1)

def nat32? : Json → Option Nat := natUpTo? (Nat.pow 2 32 - 1)

def float? : Json → Option Float
  | .num (.int i) => some (Float.ofInt i)
  | .num (.float x) => some x
  | _ => none

def instant? (j : Json) : Option Time.Instant := j.string?.bind Time.Rfc3339.read?

def nullable? {α : Type} (read : Json → Option α) : Json → Option (Option α)
  | .null => some none
  | j => (read j).map some

def listOf? {α : Type} (read : Json → Option α) : Json → Option (List α)
  | .arr items => items.mapM read
  | _ => none

def mapOf? {α : Type} (read : Json → Option α) : Json → Option (KeyMap α)
  | .obj members => do
    return KeyMap.ofList (← members.mapM fun (name, j) => do return (name, ← read j))
  | _ => none

/-- The fields of a record. An array may leave out the last `optional` ones. -/
def record? (names : List String) (optional : Nat) : Json → Option (List (String × Json))
  | .obj members => some members
  | .arr items =>
    if names.length ≤ items.length + optional && items.length ≤ names.length then
      some (names.zip items)
    else none
  | _ => none

def field? {α : Type} (fields : List (String × Json)) (name : String) (read : Json → Option α) :
    Option α :=
  (fields.lookup name).bind read

def nullableField? {α : Type} (fields : List (String × Json)) (name : String)
    (read : Json → Option α) : Option (Option α) :=
  match fields.lookup name with
  | none => some none
  | some j => nullable? read j

def defaultField? {α : Type} (fields : List (String × Json)) (name : String) (standard : α)
    (read : Json → Option α) : Option α :=
  match fields.lookup name with
  | none => some standard
  | some j => read j

def choice? : Json → Option (String × Option Json)
  | .str name => some (name, none)
  | .obj [(name, j)] => some (name, some j)
  | _ => none

def plainChoice? (j : Json) : Option String :=
  match choice? j with
  | some (name, none) => some name
  | some (name, some .null) => some name
  | _ => none

def ofStrings (l : List String) : Json := .arr (l.map .str)

def ofOption {α : Type} (write : α → Json) : Option α → Json
  | none => .null
  | some a => write a

def ofMap {α : Type} (write : α → Json) (m : KeyMap α) : Json :=
  .obj (m.entries.map fun (name, a) => (name, write a))

def ofInstant (t : Time.Instant) : Json := .str (Time.Rfc3339.write t)

end WorkflowAudit.Json
