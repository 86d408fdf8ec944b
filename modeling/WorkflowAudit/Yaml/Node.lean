/-! The tree of a YAML document before its scalars have types. Anchors and aliases are names of any
kind: first those of the text, then numbers. -/

namespace WorkflowAudit.Yaml

structure Props (α : Type) where
  anchor : Option α
  tag : Option String

def Props.none {α : Type} : Props α := ⟨.none, .none⟩

inductive Node (α : Type)
  | alias (target : α)
  | scalar (props : Props α) (text : String) (plain : Bool)
  | sequence (props : Props α) (items : List (Node α))
  | mapping (props : Props α) (entries : List (Node α × Node α))

namespace Node

variable {α : Type}

def empty (props : Props α) : Node α := .scalar props "" true

mutual

def marks : Node α → Nat
  | .alias _ => 1
  | .scalar .. => 1
  | .sequence _ items => 2 + marksOfItems items
  | .mapping _ entries => 2 + marksOfEntries entries

def marksOfItems : List (Node α) → Nat
  | [] => 0
  | n :: rest => marks n + marksOfItems rest

def marksOfEntries : List (Node α × Node α) → Nat
  | [] => 0
  | (k, v) :: rest => marks k + marks v + marksOfEntries rest

end

end Node

end WorkflowAudit.Yaml
