import WorkflowAudit.Yaml.Token.Name
import WorkflowAudit.Yaml.Token.Scalar

/-! The token stream of a text. What is written before a colon turns out to be a key only when the
colon is met: until then its place in the stream is remembered, and the key token is put in
there. -/

namespace WorkflowAudit.Yaml.Token

structure PossibleKey where
  place : Nat
  index : Nat
  line : Nat
  column : Nat
  required : Bool

structure Stream where
  at_ : Cursor
  tokens : List Token
  count : Nat
  indent : Int
  outer : List Int
  /-- The possible key at each level of flow nesting, the innermost first; the last one belongs to
  the block context. -/
  keys : List (Option PossibleKey)
  keyAllowed : Bool

namespace Stream

def start (text : List Char) : Stream := ⟨Cursor.start text, [], 0, -1, [], [none], true⟩

def inFlow (s : Stream) : Bool := s.keys.length > 1

def push (t : Token) (s : Stream) : Stream :=
  { s with tokens := t :: s.tokens, count := s.count + 1 }

def insertAt (place : Nat) (t : Token) (s : Stream) : Stream :=
  let later := s.count - place
  { s with tokens := s.tokens.take later ++ t :: s.tokens.drop later, count := s.count + 1 }

def dropKey (s : Stream) : Except Error Stream :=
  match s.keys with
  | some k :: outer =>
    if k.required then .error .keyWithoutColon else .ok { s with keys := none :: outer }
  | _ => .ok s

def saveKey (s : Stream) : Except Error Stream :=
  if s.keyAllowed then do
    let s ← s.dropKey
    let c := s.at_
    let key : PossibleKey :=
      ⟨s.count, c.index, c.line, c.column, !s.inFlow && s.indent = c.column⟩
    return { s with keys := some key :: s.keys.tail }
  else .ok s

/-- A key stands on one line and has at most 1024 characters. -/
def dropStaleKeys (s : Stream) : Except Error Stream := do
  let keys ← s.keys.mapM fun
    | none => pure none
    | some k =>
      if k.line < s.at_.line || k.index + 1024 < s.at_.index then
        if k.required then throw .keyWithoutColon else pure none
      else pure (some k)
  return { s with keys }

def openBlock (column : Nat) (place : Nat) (t : Token) (s : Stream) : Stream :=
  if !s.inFlow && s.indent < column then
    { s.insertAt place t with indent := column, outer := s.indent :: s.outer }
  else s

def closeBlocks (column : Int) (s : Stream) : Stream :=
  if s.inFlow then s else
    let rec go (indent : Int) (tokens : List Token) (count : Nat) : List Int → Stream
      | [] => { s with indent, outer := [], tokens, count }
      | o :: outer =>
        if indent > column then go o (.blockEnd :: tokens) (count + 1) outer
        else { s with indent, outer := o :: outer, tokens, count }
    go s.indent s.tokens s.count s.outer

def skipToToken (fuel : Nat) (s : Stream) : Stream :=
  match fuel with
  | 0 => s
  | fuel + 1 =>
    let c := s.at_
    let c := if c.column = 0 && c.peek = some '\uFEFF' then c.skip 1 else c
    let tabs := s.inFlow || !s.keyAllowed
    let c := c.skipWhile fun ch => ch = ' ' || tabs && ch = '\t'
    let c := if c.peek = some '#' then c.skipWhile fun ch => !isBreak ch else c
    if (c.peek.map isBreak).getD false then
      skipToToken fuel { s with at_ := c.skipBreak, keyAllowed := s.keyAllowed || !s.inFlow }
    else { s with at_ := c }

def indicator (t : Token) (keyAllowed : Bool) (s : Stream) : Stream :=
  { s.push t with at_ := s.at_.skip 1, keyAllowed }

def openFlow (t : Token) (s : Stream) : Except Error Stream := do
  let s ← s.saveKey
  return { s.indicator t true with keys := none :: s.keys }

def closeFlow (t : Token) (s : Stream) : Except Error Stream := do
  let s ← s.dropKey
  let keys := if s.inFlow then s.keys.tail else s.keys
  return { s.indicator t false with keys }

/-- A document marker, or with `length` 0 the end of the text: closes all blocks. -/
def closeDocument (s : Stream) : Except Error Stream := do
  let s ← (s.closeBlocks (-1)).dropKey
  return { s with keyAllowed := false }

def marker (t : Token) (s : Stream) : Except Error Stream := do
  let s ← s.closeDocument
  return { s.push t with at_ := s.at_.skip 3 }

def blockEntry (s : Stream) : Except Error Stream := do
  if !s.inFlow && !s.keyAllowed then throw .entryNotAllowed
  let s := s.openBlock s.at_.column s.count .blockSequenceStart
  let s ← s.dropKey
  return s.indicator .blockEntry true

def explicitKey (s : Stream) : Except Error Stream := do
  if !s.inFlow && !s.keyAllowed then throw .keyNotAllowed
  let s := s.openBlock s.at_.column s.count .blockMappingStart
  let s ← s.dropKey
  return s.indicator .key (!s.inFlow)

def colon (s : Stream) : Except Error Stream :=
  match s.keys with
  | some k :: outer =>
    let s := (s.insertAt k.place .key).openBlock k.column k.place .blockMappingStart
    .ok ({ s with keys := none :: outer }.indicator .value false)
  | _ =>
    if s.inFlow then .ok (s.indicator .value false)
    else if !s.keyAllowed then .error .valueNotAllowed
    else .ok ((s.openBlock s.at_.column s.count .blockMappingStart).indicator .value true)

def content (read : Cursor → Except Error (Token × Cursor)) (s : Stream) : Except Error Stream := do
  let s ← s.saveKey
  let (t, c) ← read s.at_
  return { s.push t with at_ := c, keyAllowed := false }

def blockScalar (fuel : Nat) (literal : Bool) (s : Stream) : Except Error Stream := do
  let s ← s.dropKey
  let (text, c) ← Scalar.block fuel literal s.indent (s.at_.skip 1)
  return { s.push (.scalar (String.ofList text) false) with at_ := c, keyAllowed := true }

def quotedScalar (fuel : Nat) (double : Bool) : Stream → Except Error Stream :=
  content fun c => do
    let (text, c) ← Scalar.quoted fuel double [] (c.skip 1)
    return (.scalar (String.ofList text) false, c)

def plainScalar (fuel : Nat) (s : Stream) : Except Error Stream := do
  let s ← s.saveKey
  let (text, c, broken) ←
    Scalar.plain fuel s.inFlow (s.indent + 1).toNat [] Scalar.Gap.none s.at_
  return { s.push (.scalar (String.ofList text) true) with at_ := c, keyAllowed := broken }

def startsPlain (inFlow : Bool) (ch : Char) (next : Option Char) : Bool :=
  if ch = '-' then !(next.map isSpaceOrTab).getD false
  else if ch = '?' || ch = ':' then !inFlow && !isGap next
  else !isGap ch && !",[]\x7b\x7d#&*!|>'\"%@\u0060".toList.contains ch

def next (fuel : Nat) (s : Stream) (ch : Char) (rest : List Char) : Except Error Stream :=
  let gapFollows := isGap rest.head?
  if s.at_.column = 0 && ch = '%' then do
    let s ← s.closeDocument
    let (t, c) ← readDirective fuel s.at_
    return { s.push t with at_ := c }
  else if s.at_.atMarker '-' then s.marker .documentStart
  else if s.at_.atMarker '.' then s.marker .documentEnd
  else if ch = '[' then s.openFlow .flowSequenceStart
  else if ch = '{' then s.openFlow .flowMappingStart
  else if ch = ']' then s.closeFlow .flowSequenceEnd
  else if ch = '}' then s.closeFlow .flowMappingEnd
  else if ch = ',' then do return (← s.dropKey).indicator .flowEntry true
  else if ch = '-' && gapFollows then s.blockEntry
  else if ch = '?' && (s.inFlow || gapFollows) then s.explicitKey
  else if ch = ':' && (s.inFlow || gapFollows) then s.colon
  else if ch = '*' then s.content fun c => (readName c).map fun (n, c) => (.alias n, c)
  else if ch = '&' then s.content fun c => (readName c).map fun (n, c) => (.anchor n, c)
  else if ch = '!' then s.content (readTag fuel s.inFlow)
  else if ch = '|' && !s.inFlow then s.blockScalar fuel true
  else if ch = '>' && !s.inFlow then s.blockScalar fuel false
  else if ch = '\'' then s.quotedScalar fuel false
  else if ch = '"' then s.quotedScalar fuel true
  else if startsPlain s.inFlow ch rest.head? then s.plainScalar fuel
  else .error (.noTokenStartsWith ch)

def run (fuel : Nat) (s : Stream) : Except Error (List Token) :=
  match fuel with
  | 0 => .error .unexpectedEnd
  | fuel + 1 => do
    let s := s.skipToToken (fuel + 1)
    let s ← s.dropStaleKeys
    match s.at_.rest with
    | [] => return (← s.closeDocument).tokens.reverse
    | ch :: rest => run fuel (← (s.closeBlocks s.at_.column).next (fuel + 1) ch rest)

end Stream

def isAllowed (c : Char) : Bool :=
  let n := c.toNat
  n = 0x09 || n = 0x0A || n = 0x0D || (0x20 ≤ n && n ≤ 0x7E) || n = 0x85 ||
    (0xA0 ≤ n && n ≤ 0xD7FF) || (0xE000 ≤ n && n ≤ 0xFFFD) || 0x10000 ≤ n

def ofText (text : List Char) : Except Error (List Token) :=
  match text.find? fun c => !isAllowed c with
  | some c => .error (.forbiddenCharacter c)
  | none => (Stream.start text).run (text.length + 2)

end WorkflowAudit.Yaml.Token
