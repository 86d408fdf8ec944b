import WorkflowAudit.Text.Digits

namespace WorkflowAudit.Program

inductive Format
  | text
  | json
  deriving DecidableEq, Repr

def Format.ofName? : String → Option Format
  | "text" => some .text
  | "json" => some .json
  | _ => none

inductive Key
  | config
  | owner
  | repository
  | token
  | apiUrl
  | days
  | limit
  | concurrency
  | format
  | exportTo
  deriving DecidableEq, Repr

namespace Key

def all : List Key :=
  [.config, .owner, .repository, .token, .apiUrl, .days, .limit, .concurrency, .format, .exportTo]

def long : Key → String
  | .config => "config"
  | .owner => "owner"
  | .repository => "repo"
  | .token => "token"
  | .apiUrl => "api-url"
  | .days => "days"
  | .limit => "limit"
  | .concurrency => "concurrency"
  | .format => "format"
  | .exportTo => "export"

def short? : Key → Option Char
  | .config => some 'c'
  | .format => some 'f'
  | _ => none

end Key

inductive UsageError
  | noCommand
  | unexpected (word : String)
  | noValue (key : Key)
  | badValue (key : Key) (value : String)
  | emptyPath
  | repeated (key : Key)
  deriving DecidableEq, Repr

def UsageError.message : UsageError → String
  | .noCommand => "a command is required"
  | .unexpected word => "unexpected argument '" ++ word ++ "'"
  | .noValue key => "a value is required for '--" ++ key.long ++ "'"
  | .badValue key value => "invalid value '" ++ value ++ "' for '--" ++ key.long ++ "'"
  | .emptyPath => "a path cannot be empty"
  | .repeated key => "'--" ++ key.long ++ "' cannot be used more than once"

structure Values where
  config : Option String := none
  owners : List String := []
  repositories : List String := []
  token : Option String := none
  apiUrl : Option String := none
  days : Option Nat := none
  limit : Option Nat := none
  concurrency : Option Nat := none
  format : Option Format := none
  exportTo : Option String := none
  path : Option String := none
  deriving DecidableEq, Repr

namespace Values

def once {α : Type} (key : Key) (read : String → Option α) (old : Option α) (value : String) :
    Except UsageError (Option α) :=
  match old, read value with
  | some _, _ => .error (.repeated key)
  | none, none => .error (.badValue key value)
  | none, some a => .ok (some a)

def path? (s : String) : Option String := if s.isEmpty then none else some s

def set (v : Values) (key : Key) (value : String) : Except UsageError Values :=
  match key with
  | .config => return { v with config := ← once key path? v.config value }
  | .owner => return { v with owners := v.owners ++ [value] }
  | .repository => return { v with repositories := v.repositories ++ [value] }
  | .token => return { v with token := ← once key some v.token value }
  | .apiUrl => return { v with apiUrl := ← once key some v.apiUrl value }
  | .days => return { v with days := ← once key (Text.signedNatural? 32 ·.toList) v.days value }
  | .limit => return { v with limit := ← once key (Text.natural? 64 ·.toList) v.limit value }
  | .concurrency =>
    return { v with concurrency := ← once key (Text.natural? 64 ·.toList) v.concurrency value }
  | .format => return { v with format := ← once key Format.ofName? v.format value }
  | .exportTo => return { v with exportTo := ← once key path? v.exportTo value }

def setPath (v : Values) (word : String) : Except UsageError Values :=
  match v.path with
  | some _ => .error (.unexpected word)
  | none => if word.isEmpty then .error .emptyPath else .ok { v with path := some word }

end Values

end WorkflowAudit.Program
