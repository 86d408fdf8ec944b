import WorkflowAudit.Program.Option

/-! Invocations of the program, read from its arguments. Options may stand before or after other
arguments, and their values in the same argument or the next one. -/

namespace WorkflowAudit.Program

inductive Word
  | separator
  | long (name : String) (value : Option String)
  | short (letter : Char) (rest : List Char)
  | plain (text : String)
  deriving DecidableEq, Repr

def Word.ofText (s : String) : Word :=
  match s.toList with
  | ['-', '-'] => .separator
  | '-' :: '-' :: rest =>
    .long (String.ofList (rest.takeWhile (· ≠ '='))) <|
      match rest.dropWhile (· ≠ '=') with
      | _ :: value => some (String.ofList value)
      | [] => none
  | '-' :: c :: rest => .short c rest
  | _ => .plain s

inductive CommandName
  | audit
  | lint
  | rules
  deriving DecidableEq, Repr

def CommandName.ofName? : String → Option CommandName
  | "audit" => some .audit
  | "lint" => some .lint
  | "rules" => some .rules
  | _ => none

inductive Place
  | start
  | after (command : CommandName)
  deriving DecidableEq, Repr

def Place.keys : Place → List Key
  | .start | .after .rules => [.config]
  | .after .audit => Key.all
  | .after .lint => [.config, .format]

structure AuditRequest where
  owners : List String
  repositories : List String
  token : Option String
  apiUrl : Option String
  days : Option Nat
  limit : Option Nat
  concurrency : Option Nat
  format : Format
  exportTo : Option String
  deriving DecidableEq, Repr

inductive Command
  | audit (request : AuditRequest)
  | lint (path : String) (format : Format)
  | rules
  deriving DecidableEq, Repr

inductive Invocation
  | run (config : Option String) (command : Command)
  | version
  | help
  deriving DecidableEq, Repr

def standardLintPath : String := ".github/workflows/"

namespace Values

def command (v : Values) : CommandName → Command
  | .audit =>
    .audit ⟨v.owners, v.repositories, v.token, v.apiUrl, v.days, v.limit, v.concurrency,
      v.format.getD .text, v.exportTo⟩
  | .lint => .lint (v.path.getD standardLintPath) (v.format.getD .text)
  | .rules => .rules

end Values

namespace Invocation

inductive Taken
  | value (key : Key) (value : String)
  | needsValue (key : Key)
  | stop (i : Invocation)

def takeLong (place : Place) (name : String) (value : Option String) : Except UsageError Taken :=
  match place.keys.find? (·.long = name), value with
  | some key, some value => .ok (.value key value)
  | some key, none => .ok (.needsValue key)
  | none, some _ => .error (.unexpected ("--" ++ name))
  | none, none =>
    if name = "help" then .ok (.stop .help)
    else if name = "version" && place = .start then .ok (.stop .version)
    else .error (.unexpected ("--" ++ name))

def takeShort (place : Place) (letter : Char) (rest : List Char) : Except UsageError Taken :=
  match place.keys.find? (·.short? = some letter), rest with
  | some key, '=' :: value => .ok (.value key (String.ofList value))
  | some key, [] => .ok (.needsValue key)
  | some key, value => .ok (.value key (String.ofList value))
  | none, _ =>
    if letter = 'h' then .ok (.stop .help)
    else if letter = 'V' && place = .start then .ok (.stop .version)
    else .error (.unexpected (String.ofList ['-', letter]))

structure State where
  place : Place
  pending : Option Key
  plainOnly : Bool
  values : Values
  config : Option String

namespace State

def initial : State := ⟨.start, none, false, {}, none⟩

def takePlain (s : State) (word : String) : Except UsageError State :=
  match s.place with
  | .start =>
    match if s.plainOnly then none else CommandName.ofName? word with
    | some command =>
      .ok { s with place := .after command, values := {}, config := s.values.config }
    | none => .error (.unexpected word)
  | .after .lint => return { s with values := ← s.values.setPath word }
  | .after _ => .error (.unexpected word)

def take (s : State) : Taken → Except UsageError (State ⊕ Invocation)
  | .value key value => return .inl { s with values := ← s.values.set key value }
  | .needsValue key => .ok (.inl { s with pending := some key })
  | .stop i => .ok (.inr i)

/-- Reads one argument. Only a plain one can be the value of an option. -/
def step (s : State) (word : String) : Except UsageError (State ⊕ Invocation) :=
  if s.plainOnly then return .inl (← s.takePlain word)
  else match Word.ofText word, s.pending with
    | .plain text, some key =>
      return .inl { s with values := ← s.values.set key text, pending := none }
    | .plain text, none => return .inl (← s.takePlain text)
    | _, some key => .error (.noValue key)
    | .separator, none => .ok (.inl { s with plainOnly := true })
    | .long name value, none => do s.take (← takeLong s.place name value)
    | .short letter rest, none => do s.take (← takeShort s.place letter rest)

/-- The invocation once all arguments are read. A token that is not given may be in the
environment. A file of settings that is named after the command counts before one named ahead. -/
def finish (s : State) (environmentToken : Option String) : Except UsageError Invocation :=
  match s.pending, s.place with
  | some key, _ => .error (.noValue key)
  | none, .start => .error .noCommand
  | none, .after name =>
    let values := { s.values with token := s.values.token.or environmentToken }
    .ok (.run (s.values.config.or s.config) (values.command name))

def awaitsCommand (s : State) : Bool := s.place = .start && s.pending.isNone && !s.plainOnly

end State

def helpOn : List String → Except UsageError Invocation
  | [] => .ok .help
  | [name] =>
    if name = "help" || (CommandName.ofName? name).isSome then .ok .help
    else .error (.unexpected name)
  | _ :: name :: _ => .error (.unexpected name)

def readFrom (environmentToken : Option String) (s : State) :
    List String → Except UsageError Invocation
  | [] => s.finish environmentToken
  | word :: rest =>
    if s.awaitsCommand && word = "help" then helpOn rest
    else match s.step word with
      | .error e => .error e
      | .ok (.inl s) => readFrom environmentToken s rest
      | .ok (.inr i) => .ok i

def read (environmentToken : Option String) (arguments : List String) :
    Except UsageError Invocation :=
  readFrom environmentToken .initial arguments

end Invocation

end WorkflowAudit.Program
