import WorkflowAudit.Text.Blank
import WorkflowAudit.Text.Digits
import WorkflowAudit.Text.Split

/-! Web addresses, read as tolerantly as browsers do and written in normal form: what may not stand
in a part is percent-encoded, dot segments are resolved, and backslashes are slashes. -/

namespace WorkflowAudit.Http

structure Url where
  scheme : String
  authority : String
  segments : List String
  query : Option String
  fragment : Option String
  deriving DecidableEq, Repr

namespace Url

inductive Error
  | relative
  | emptyHost
  | invalidHost
  deriving DecidableEq, Repr

def percentByte (b : UInt8) : List Char := '%' :: Text.upperHexDigits 2 b.toNat

def encode (escaped : Char → Bool) (s : List Char) : List Char :=
  s.flatMap fun c =>
    if escaped c || c.toNat ≤ 0x20 || 0x7F ≤ c.toNat then
      (String.singleton c).toUTF8.toList.flatMap percentByte
    else [c]

def isEscapedInPath (c : Char) : Bool := "\"#<>?\u0060\x7b\x7d".toList.contains c

def isEscapedInQuery (c : Char) : Bool := "\"#<>'".toList.contains c

def isEscapedInFragment (c : Char) : Bool := "\"<>\u0060".toList.contains c

def isSlash (c : Char) : Bool := c = '/' || c = '\\'

def isDot (segment : List Char) : Bool := [".", "%2e"].contains (String.ofList segment).toLower

def isDoubleDot (segment : List Char) : Bool :=
  ["..", ".%2e", "%2e.", "%2e%2e"].contains (String.ofList segment).toLower

/-- The segments of a path once dots are resolved. A dot at the end leaves an empty segment. -/
def resolve : List (List Char) → List (List Char) → List (List Char)
  | done, [] => done.reverse
  | done, s :: rest =>
    if isDoubleDot s then resolve (if rest.isEmpty then [] :: done.drop 1 else done.drop 1) rest
    else if isDot s then resolve (if rest.isEmpty then [] :: done else done) rest
    else resolve (s :: done) rest

def isForbiddenInHost (c : Char) : Bool :=
  c.toNat ≤ 0x20 || c = '\x7f' || "#%/<>?@\\^|".toList.contains c

def defaultService : String → List Char
  | "http" => ":80".toList
  | "https" => ":443".toList
  | _ => []

/-- An authority in normal form: the host in lower case, and no number that goes without saying. -/
def authorityOf (scheme : String) (s : List Char) : Except Error String :=
  let user := (s.reverse.dropWhile (· ≠ '@')).reverse
  let place := s.drop user.length
  let service := defaultService scheme
  let place :=
    if service.isSuffixOf place then place.take (place.length - service.length) else place
  let place := if place.getLast? = some ':' then place.dropLast else place
  if place.isEmpty then .error .emptyHost
  else if place.any isForbiddenInHost then .error .invalidHost
  else .ok (String.ofList (user ++ place.map Char.toLower))

/-- Reads an address. Tabs and line ends in it, and blanks around it, do not count. -/
def read (text : String) : Except Error Url := do
  let isControl (c : Char) : Bool := c.toNat ≤ 0x20
  let s := ((text.toList.dropWhile isControl).reverse.dropWhile isControl).reverse
  let s := s.filter fun c => c ≠ '\t' && c ≠ '\n' && c ≠ '\r'
  let scheme := s.takeWhile fun c => c.isAlphanum || c = '+' || c = '-' || c = '.'
  let rest ← match s.drop scheme.length with
    | ':' :: rest =>
      if (scheme.head?.map Char.isAlpha).getD false then .ok rest else .error .relative
    | _ => .error .relative
  let scheme := (String.ofList scheme).toLower
  let rest := rest.dropWhile isSlash
  let authority ← authorityOf scheme
    (rest.takeWhile fun c => !isSlash c && c ≠ '?' && c ≠ '#')
  let rest := rest.dropWhile fun c => !isSlash c && c ≠ '?' && c ≠ '#'
  let path := rest.takeWhile fun c => c ≠ '?' && c ≠ '#'
  let rest := rest.drop path.length
  let pieces := Text.splitOn '/' ((path.map fun c => if c = '\\' then '/' else c).drop 1)
  let segments := (resolve [] pieces).map fun p => String.ofList (encode isEscapedInPath p)
  let query := match rest with
    | '?' :: rest => some (String.ofList (encode isEscapedInQuery (rest.takeWhile (· ≠ '#'))))
    | _ => none
  let fragment := match rest.dropWhile (· ≠ '#') with
    | '#' :: rest => some (String.ofList (encode isEscapedInFragment rest))
    | _ => none
  return ⟨scheme, authority, segments, query, fragment⟩

def path (u : Url) : String := "/" ++ Text.joined "/" u.segments

def write (u : Url) : String :=
  u.scheme ++ "://" ++ u.authority ++ u.path ++ (u.query.map ("?" ++ ·)).getD "" ++
    (u.fragment.map ("#" ++ ·)).getD ""

def withQuery (u : Url) (parameters : List (String × String)) : Url :=
  if parameters.isEmpty then u else
    let more := Text.joined "&" (parameters.map fun (name, value) => name ++ "=" ++ value)
    match u.query with
    | none => { u with query := some more }
    | some "" => { u with query := some more }
    | some query => { u with query := some (query ++ "&" ++ more) }

end Url

end WorkflowAudit.Http
