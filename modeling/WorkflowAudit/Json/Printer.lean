import WorkflowAudit.Decimal.Notation
import WorkflowAudit.Json.Value
import WorkflowAudit.Text.Digits

namespace WorkflowAudit.Json

def writeChar (c : Char) : String :=
  match c with
  | '"' => "\\\""
  | '\\' => "\\\\"
  | '\n' => "\\n"
  | '\r' => "\\r"
  | '\t' => "\\t"
  | '\x08' => "\\b"
  | '\x0c' => "\\f"
  | c =>
    if c.toNat < 0x20 then
      "\\u00" ++ String.ofList [Text.lowerHex (c.toNat / 16), Text.lowerHex c.toNat]
    else String.singleton c

def writeString (s : String) : String :=
  "\"" ++ s.foldl (fun text c => text ++ writeChar c) "" ++ "\""

/-- Infinities and NaN have no JSON text and are written as `null`. -/
def Number.write : Number → String
  | .int i => toString i
  | .float x => if x.isFinite then Decimal.Notation.data.write x else "null"

mutual

def write : Json → String
  | .null => "null"
  | .bool b => if b then "true" else "false"
  | .num n => n.write
  | .str s => writeString s
  | .arr items => "[" ++ writeItems items ++ "]"
  | .obj members => "\x7b" ++ writeMembers members ++ "\x7d"

def writeItems : List Json → String
  | [] => ""
  | [j] => write j
  | j :: rest => write j ++ "," ++ writeItems rest

def writeMembers : List (String × Json) → String
  | [] => ""
  | [(name, j)] => writeString name ++ ":" ++ write j
  | (name, j) :: rest => writeString name ++ ":" ++ write j ++ "," ++ writeMembers rest

end

def newline (depth : Nat) : String := "\n" ++ String.ofList (List.replicate (2 * depth) ' ')

mutual

def writeIndented (depth : Nat) : Json → String
  | .arr [] => "[]"
  | .obj [] => "\x7b\x7d"
  | .arr items => "[" ++ writeItemLines (depth + 1) items ++ newline depth ++ "]"
  | .obj members => "\x7b" ++ writeMemberLines (depth + 1) members ++ newline depth ++ "\x7d"
  | .null => "null"
  | .bool b => if b then "true" else "false"
  | .num n => n.write
  | .str s => writeString s

def writeItemLines (depth : Nat) : List Json → String
  | [] => ""
  | [j] => newline depth ++ writeIndented depth j
  | j :: rest => newline depth ++ writeIndented depth j ++ "," ++ writeItemLines depth rest

def writeMemberLines (depth : Nat) : List (String × Json) → String
  | [] => ""
  | [(name, j)] => newline depth ++ writeString name ++ ": " ++ writeIndented depth j
  | (name, j) :: rest =>
    newline depth ++ writeString name ++ ": " ++ writeIndented depth j ++ "," ++
      writeMemberLines depth rest

end

def pretty (j : Json) : String := j.writeIndented 0

end WorkflowAudit.Json
