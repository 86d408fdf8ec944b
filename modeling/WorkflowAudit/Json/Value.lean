namespace WorkflowAudit

inductive Json.Number
  | int (value : Int)
  | float (value : Float)

inductive Json
  | null
  | bool (value : Bool)
  | num (value : Json.Number)
  | str (value : String)
  | arr (items : List Json)
  | obj (members : List (String × Json))

namespace Json

instance : Inhabited Json := ⟨null⟩

def ofNat (n : Nat) : Json := .num (.int n)

def ofFloat (x : Float) : Json := .num (.float x)

def setMember (members : List (String × Json)) (name : String) (value : Json) :
    List (String × Json) :=
  match members with
  | [] => [(name, value)]
  | (n, v) :: rest => if n = name then (n, value) :: rest else (n, v) :: setMember rest name value

mutual

def sortNames : Json → Json
  | .arr items => .arr (sortItems items)
  | .obj members => .obj ((sortMembers members).mergeSort fun a b => decide (a.1 ≤ b.1))
  | .null => .null
  | .bool b => .bool b
  | .num n => .num n
  | .str s => .str s

def sortItems : List Json → List Json
  | [] => []
  | j :: rest => sortNames j :: sortItems rest

def sortMembers : List (String × Json) → List (String × Json)
  | [] => []
  | (name, j) :: rest => (name, sortNames j) :: sortMembers rest

end

end Json

end WorkflowAudit
