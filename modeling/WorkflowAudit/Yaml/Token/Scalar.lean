import WorkflowAudit.Text.Digits
import WorkflowAudit.Yaml.Cursor
import WorkflowAudit.Yaml.Error

namespace WorkflowAudit.Yaml.Scalar

structure Breaks where
  first : List Char
  more : List Char

/-- One line end folds to a blank; of several the first one is dropped. A Unicode separator in first
place is kept. -/
def Breaks.fold (b : Breaks) : List Char :=
  if b.first = ['\n'] then if b.more.isEmpty then [' '] else b.more
  else b.first ++ b.more

/-- Blanks and line ends after a piece of text: either blanks alone, or line ends with the blanks
around them dropped. `broken` says that a line has ended. -/
structure Gap where
  blanks : List Char
  broken : Bool
  breaks : Breaks

def Gap.none : Gap := ⟨[], false, ⟨[], []⟩⟩

def Gap.text (g : Gap) : List Char := if g.broken then g.breaks.fold else g.blanks

def Gap.addBreak (g : Gap) (b : List Char) : Gap :=
  if g.broken then { g with breaks := { g.breaks with more := g.breaks.more ++ b } }
  else ⟨[], true, ⟨b, []⟩⟩

/-- Reads on through blanks and line ends. A tab left of `indent` on a new line is refused. -/
def readGap (fuel : Nat) (indent : Nat) (g : Gap) (c : Cursor) : Except Error (Gap × Cursor) :=
  match fuel with
  | 0 => .ok (g, c)
  | fuel + 1 =>
    match c.peek with
    | none => .ok (g, c)
    | some ch =>
      if isSpaceOrTab ch then
        if g.broken then
          if ch = '\t' && c.column < indent then .error .tabInIndentation
          else readGap fuel indent g (c.skip 1)
        else readGap fuel indent { g with blanks := g.blanks ++ [ch] } (c.skip 1)
      else if isBreak ch then
        let (b, c) := c.takeBreak
        readGap fuel indent (g.addBreak b) c
      else .ok (g, c)

/-! ### Plain scalars -/

def endsPlain (flow : Bool) (rest : List Char) : Bool :=
  match rest with
  | [] => true
  | ':' :: rest => isGap rest.head?
  | ch :: _ => isGap ch || flow && isFlowIndicator ch
where
  isFlowIndicator (c : Char) : Bool := c = ',' || c = '[' || c = ']' || c = '{' || c = '}'

def isStrayColon (flow : Bool) : List Char → Bool
  | ':' :: ch :: _ => flow && (endsPlain.isFlowIndicator ch || ch = '?')
  | _ => false

def plainWord (flow : Bool) : List Char → Except Error (List Char)
  | [] => .ok []
  | ch :: rest =>
    if isGap ch then .ok []
    else if isStrayColon flow (ch :: rest) then .error .unexpectedColon
    else if endsPlain flow (ch :: rest) then .ok []
    else (plainWord flow rest).map (ch :: ·)

/-- A plain scalar, given the text and the gap read so far. The last component says that lines have
ended after it. -/
def plain (fuel : Nat) (flow : Bool) (indent : Nat) (text : List Char) (gap : Gap) (c : Cursor) :
    Except Error (List Char × Cursor × Bool) :=
  match fuel with
  | 0 => .ok (text, c, gap.broken)
  | fuel + 1 =>
    if c.atAnyMarker || c.peek = some '#' then .ok (text, c, gap.broken)
    else do
      let word ← plainWord flow c.rest
      let c := c.skip word.length
      let (text, gap) := if word.isEmpty then (text, gap) else (text ++ gap.text ++ word, Gap.none)
      if isGap c.peek && c.peek.isSome then
        let (gap, c) ← readGap fuel indent gap c
        if !flow && c.column < indent then return (text, c, gap.broken)
        plain fuel flow indent text gap c
      else return (text, c, gap.broken)

/-! ### Quoted scalars -/

def escape? : Char → Option (Nat ⊕ Char)
  | '0' => some (.inr '\x00')
  | 'a' => some (.inr '\x07')
  | 'b' => some (.inr '\x08')
  | 't' => some (.inr '\t')
  | '\t' => some (.inr '\t')
  | 'n' => some (.inr '\n')
  | 'v' => some (.inr '\x0b')
  | 'f' => some (.inr '\x0c')
  | 'r' => some (.inr '\r')
  | 'e' => some (.inr '\x1b')
  | ' ' => some (.inr ' ')
  | '"' => some (.inr '"')
  | '/' => some (.inr '/')
  | '\\' => some (.inr '\\')
  | 'N' => some (.inr '\u0085')
  | '_' => some (.inr '\u00a0')
  | 'L' => some (.inr '\u2028')
  | 'P' => some (.inr '\u2029')
  | 'x' => some (.inl 2)
  | 'u' => some (.inl 4)
  | 'U' => some (.inl 8)
  | _ => none

def codePoint? (digits : List Char) : Option Char := do
  let n ← Text.hexValue? digits
  if n.isValidChar then some (Char.ofNat n) else none

/-- The text of a quoted scalar up to the next blank, line end or closing quote. The last component
says that it ended with an escaped line end. -/
def quotedWord (fuel : Nat) (double : Bool) (done : List Char) (c : Cursor) :
    Except Error (List Char × Cursor × Bool) :=
  match fuel with
  | 0 => .ok (done.reverse, c, false)
  | fuel + 1 =>
    match c.rest with
    | [] => .ok (done.reverse, c, false)
    | ch :: rest =>
      if isGap ch then .ok (done.reverse, c, false)
      else if !double then
        if ch = '\'' then
          if rest.head? = some '\'' then quotedWord fuel double ('\'' :: done) (c.skip 2)
          else .ok (done.reverse, c, false)
        else quotedWord fuel double (ch :: done) (c.skip 1)
      else if ch = '"' then .ok (done.reverse, c, false)
      else if ch = '\\' then
        match rest with
        | [] => .error .badEscape
        | e :: rest =>
          if isBreak e then .ok (done.reverse, (c.skip 1).skipBreak, true)
          else match escape? e with
            | none => .error .badEscape
            | some (.inr ch) => quotedWord fuel double (ch :: done) (c.skip 2)
            | some (.inl n) =>
              match if rest.length < n then none else codePoint? (rest.take n) with
              | none => .error .badEscape
              | some ch => quotedWord fuel double (ch :: done) (c.skip (2 + n))
      else quotedWord fuel double (ch :: done) (c.skip 1)

def quoted (fuel : Nat) (double : Bool) (text : List Char) (c : Cursor) :
    Except Error (List Char × Cursor) :=
  match fuel with
  | 0 => .error .unexpectedEnd
  | fuel + 1 =>
    if c.atAnyMarker then .error .markerInQuotes
    else if c.rest.isEmpty then .error .unexpectedEnd
    else do
      let (word, c, escapedBreak) ← quotedWord fuel double [] c
      let text := text ++ word
      if !escapedBreak && c.peek = some (if double then '"' else '\'') then return (text, c.skip 1)
      let gap := if escapedBreak then { Gap.none with broken := true } else Gap.none
      let (gap, c) ← readGap fuel 0 gap c
      quoted fuel double (text ++ gap.text) c

/-! ### Block scalars -/

inductive Chomping
  | strip
  | clip
  | keep
  deriving DecidableEq, Repr

def blockHeader (c : Cursor) : Except Error (Chomping × Option Nat × Cursor) :=
  match chomping? c with
  | some (chomping, c) =>
    match c.peek with
    | some d =>
      if d.isDigit then
        if d = '0' then .error .badBlockHeader
        else .ok (chomping, some (d.toNat - '0'.toNat), c.skip 1)
      else .ok (chomping, none, c)
    | none => .ok (chomping, none, c)
  | none =>
    match c.peek with
    | some d =>
      if d.isDigit then
        if d = '0' then .error .badBlockHeader
        else
          let digit := some (d.toNat - '0'.toNat)
          match chomping? (c.skip 1) with
          | some (chomping, c) => .ok (chomping, digit, c)
          | none => .ok (.clip, digit, c.skip 1)
      else .ok (.clip, none, c)
    | none => .ok (.clip, none, c)
where
  chomping? (c : Cursor) : Option (Chomping × Cursor) :=
    match c.peek with
    | some '+' => some (.keep, c.skip 1)
    | some '-' => some (.strip, c.skip 1)
    | _ => none

/-- Reads over indentation and empty lines. Without a known indentation all blanks count as such,
and the widest line is returned to determine it. -/
def blockBreaks (fuel : Nat) (indent : Option Nat) (breaks : List Char) (widest : Nat)
    (c : Cursor) : Except Error (List Char × Nat × Cursor) :=
  match fuel with
  | 0 => .ok (breaks, widest, c)
  | fuel + 1 =>
    let blanks := (c.rest.takeWhile (· = ' ')).length
    let c := c.skip (match indent with
      | none => blanks
      | some n => min blanks (n - c.column))
    let widest := max widest c.column
    let within := match indent with
      | none => true
      | some n => c.column < n
    if within && c.peek = some '\t' then .error .tabInIndentation
    else if (c.peek.map isBreak).getD false then
      let (b, c) := c.takeBreak
      blockBreaks fuel indent (breaks ++ b) widest c
    else .ok (breaks, widest, c)

/-- The lines of a block scalar. `pending` is the line end before the current line and `more` those
of the empty lines after it; `wasBlank` says that the line before started with a blank. -/
def blockLines (fuel : Nat) (literal : Bool) (indent : Nat) (text pending more : List Char)
    (wasBlank : Bool) (c : Cursor) :
    Except Error (List Char × List Char × List Char × Cursor) :=
  match fuel with
  | 0 => .ok (text, pending, more, c)
  | fuel + 1 =>
    match c.peek with
    | none => .ok (text, pending, more, c)
    | some ch =>
      if c.column ≠ indent then .ok (text, pending, more, c)
      else
        let blank := isSpaceOrTab ch
        let text :=
          if !literal && pending = ['\n'] && !wasBlank && !blank then
            text ++ (if more.isEmpty then [' '] else more)
          else text ++ pending ++ more
        let (line, c) := c.takeWhile fun ch => !isBreak ch
        let (pending, c) := c.takeBreak
        do
          let (more, _, c) ← blockBreaks fuel (some indent) [] 0 c
          blockLines fuel literal indent (text ++ line) pending more blank c

def block (fuel : Nat) (literal : Bool) (parent : Int) (c : Cursor) :
    Except Error (List Char × Cursor) := do
  let (chomping, digit, c) ← blockHeader c
  let c := c.skipToLineEnd
  if !((c.peek.map isBreak).getD true) then throw .badBlockHeader
  let c := c.skipBreak
  let given := digit.map fun n => (max parent 0).toNat + n
  let (more, widest, c) ← blockBreaks fuel given [] 0 c
  let indent := given.getD (max widest (max (parent + 1) 1).toNat)
  let (text, pending, more, c) ← blockLines fuel literal indent [] [] more false c
  return (text ++ (if chomping = .strip then [] else pending) ++
    (if chomping = .keep then more else []), c)

end WorkflowAudit.Yaml.Scalar
