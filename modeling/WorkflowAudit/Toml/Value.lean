namespace WorkflowAudit.Toml

inductive Value
  | string (text : String)
  | integer (value : Int)
  | float (value : Float)
  | bool (value : Bool)
  | moment
  | array (items : List Value)
  | inlineTable (entries : List (List String × Value))

inductive Item
  | value (value : Value)
  | table (isImplicit isDotted : Bool) (entries : List (String × Item))
  | tables (items : List (List (String × Item)))

abbrev Table := List (String × Item)

inductive Statement
  | entry (key : List String) (value : Value)
  | header (path : List String)
  | arrayHeader (path : List String)

end WorkflowAudit.Toml
