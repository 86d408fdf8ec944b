namespace WorkflowAudit.Text

/-- A character with the Unicode property `White_Space`. -/
def isBlank (c : Char) : Bool :=
  let n := c.toNat
  (0x09 ≤ n && n ≤ 0x0D) || n == 0x20 || n == 0x85 || n == 0xA0 || n == 0x1680 ||
    (0x2000 ≤ n && n ≤ 0x200A) || n == 0x2028 || n == 0x2029 || n == 0x202F || n == 0x205F ||
    n == 0x3000

def trimStart (s : List Char) : List Char := s.dropWhile isBlank

def trimEnd (s : List Char) : List Char := (s.reverse.dropWhile isBlank).reverse

def trim (s : List Char) : List Char := trimEnd (trimStart s)

def firstWord? (s : List Char) : Option (List Char) :=
  match trimStart s with
  | [] => none
  | t => some (t.takeWhile fun c => !isBlank c)

/-- The lines of a text. A line ends with `\n` or `\r\n`, and the last one may end without;
a carriage return anywhere else belongs to its line. -/
def lines : List Char → List (List Char)
  | [] => []
  | '\n' :: rest => [] :: lines rest
  | '\r' :: '\n' :: rest => [] :: lines rest
  | c :: rest =>
    match lines rest with
    | [] => [[c]]
    | l :: ls => (c :: l) :: ls

def unlines (ls : List (List Char)) : List Char := ls.flatMap (· ++ ['\n'])

def byteCount (s : List Char) : Nat := (s.map Char.utf8Size).foldr (· + ·) 0

def dropBytes? : Nat → List Char → Option (List Char)
  | 0, s => some s
  | _ + 1, [] => none
  | n + 1, c :: s => if c.utf8Size ≤ n + 1 then dropBytes? (n + 1 - c.utf8Size) s else none
termination_by _ s => s.length

def indentation (line : List Char) : Nat := byteCount (line.takeWhile isBlank)

def contains (s part : List Char) : Bool :=
  part.isPrefixOf s || match s with
    | [] => false
    | _ :: rest => contains rest part

/-- Whether `part` occurs in `s` once the ASCII letters of `s` are lowered. This is also the answer
of full Unicode lowering for every `part` of lower ASCII without `k` and without `i` at its end:
outside ASCII only the Kelvin sign lowers to an ASCII letter alone, and the dotted capital I to an
`i` with a combining dot. -/
def containsLowered (s : String) (part : String) : Bool :=
  contains (s.toList.map Char.toLower) part.toList

/-- Whether `s` ends in `part` once its ASCII letters are lowered; on the suffixes it is used with
this agrees with full Unicode lowering, as for `containsLowered`. -/
def endsLowered (s : String) (part : String) : Bool :=
  part.toList.isSuffixOf (s.toList.map Char.toLower)

def joined (separator : String) : List String → String
  | [] => ""
  | [s] => s
  | s :: rest => s ++ separator ++ joined separator rest

end WorkflowAudit.Text
