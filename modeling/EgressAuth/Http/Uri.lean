/-
  EgressAuth.Http.Uri

  Request targets: a path and query alone, a full URI, or an authority alone.
  A fragment is read over and dropped.
-/
import EgressAuth.Http.Authority
import EgressAuth.Text.Ascii

namespace EgressAuth.Http

/-! ## Path and query -/

/-- The characters beyond ASCII; the delete character is none of them. -/
def beyondAscii (c : Char) : Bool := 0x80 ≤ c.toNat

/-- The characters of a path. -/
def isPathChar (c : Char) : Bool :=
  let n := c.toNat
  n == 0x21 || n == 0x22 || (0x24 ≤ n && n ≤ 0x3B) || n == 0x3D || (0x40 ≤ n && n ≤ 0x5F) ||
    (0x61 ≤ n && n ≤ 0x7E) || beyondAscii c

/-- The characters of a query. -/
def isQueryChar (c : Char) : Bool :=
  let n := c.toNat
  n == 0x21 || (0x24 ≤ n && n ≤ 0x3B) || n == 0x3D || (0x3F ≤ n && n ≤ 0x7E) || beyondAscii c

/-- A path, possibly empty, and the query after the question mark, if there is one. -/
structure PathAndQuery where
  path : List Char
  query : Option (List Char)
  deriving DecidableEq, Repr

namespace PathAndQuery

/-- Reads a query up to the end or the fragment. -/
def readQuery (cs : List Char) : Except UriError (List Char) :=
  let query := cs.takeWhile (· != '#')
  if query.all isQueryChar then .ok query else .error .invalidCharacter

/-- Reads a path and its query. -/
def read (cs : List Char) : Except UriError PathAndQuery :=
  let inPath (c : Char) : Bool := c != '?' && c != '#'
  let path := cs.takeWhile inPath
  if path.all isPathChar then
    match cs.dropWhile inPath with
    | '?' :: rest => (readQuery rest).map fun q => ⟨path, some q⟩
    | _ => .ok ⟨path, none⟩
  else .error .invalidCharacter

/-- The path, `/` for an empty one. -/
def shownPath (p : PathAndQuery) : List Char := if p.path.isEmpty then ['/'] else p.path

/-- The query with its question mark. -/
def queryText (p : PathAndQuery) : List Char :=
  match p.query with
  | some q => '?' :: q
  | none => []

/-- Path and query as given, `/` if there is neither. -/
def text (p : PathAndQuery) : List Char :=
  let t := p.path ++ p.queryText
  if t.isEmpty then ['/'] else t

end PathAndQuery

/-! ## Schemes -/

/-- The characters of a scheme. -/
def isSchemeChar (c : Char) : Bool :=
  c.isAlphanum || c == '+' || c == '-' || c == '.' || c == '~'

def maxSchemeLength : Nat := 64

/-- The scheme at the head of a text and what follows its `://`. The schemes `http` and `https`
are kept in small letters. A scheme may be empty, unless its mark is the whole text. -/
def splitScheme (cs : List Char) : Except UriError (Option (List Char) × List Char) :=
  let word := cs.takeWhile isSchemeChar
  match cs.dropWhile isSchemeChar with
  | ':' :: '/' :: '/' :: rest =>
    let small := word.map Char.toLower
    if small = "http".toList ∨ small = "https".toList then .ok (some small, rest)
    else if word.isEmpty && rest.isEmpty then .ok (none, cs)
    else if maxSchemeLength < word.length then .error .schemeTooLong
    else .ok (some word, rest)
  | _ => .ok (none, cs)

/-! ## Targets -/

/-- A request target. -/
inductive Uri where
  | origin (target : PathAndQuery)
  | absolute (scheme authority : List Char) (target : PathAndQuery)
  | authority (authority : List Char)
  deriving DecidableEq, Repr

namespace Uri

/-- The greatest length of a target in bytes. -/
def maxLength : Nat := 65534

/-- Reads a target that has a scheme or is an authority. -/
def readFull (cs : List Char) : Except UriError Uri := do
  let (scheme, rest) ← splitScheme cs
  if rest.isEmpty then throw .empty
  let (name, rest) := Authority.split rest
  Authority.check name
  match scheme with
  -- Without a scheme there is only an authority.
  | none => if rest.isEmpty then return .authority name else throw .invalidFormat
  | some scheme =>
    if name.isEmpty then throw .invalidFormat
    return .absolute scheme name (← PathAndQuery.read rest)

/-- Reads a target. A single character that is neither path nor authority is a bad character. -/
def read (s : String) : Except UriError Uri :=
  if maxLength < s.utf8ByteSize then .error .tooLong
  else match s.toList with
    | [] => .error .empty
    | ['*'] => .ok (.origin ⟨['*'], none⟩)
    | '/' :: cs => (PathAndQuery.read ('/' :: cs)).map .origin
    | [c] => if Authority.endsAuthority c then .error .invalidCharacter else readFull [c]
    | cs => readFull cs

/-- The scheme. -/
def scheme? : Uri → Option String
  | absolute s _ _ => some (String.ofList s)
  | _ => none

/-- The authority. -/
def authority? : Uri → Option String
  | absolute _ a _ => some (String.ofList a)
  | authority a => some (String.ofList a)
  | origin _ => none

/-- The text of path and query; an authority alone has none. -/
def pathAndQuery? : Uri → Option String
  | absolute _ _ t => some (String.ofList t.text)
  | origin t => some (String.ofList t.text)
  | authority _ => none

/-- The path, empty for an authority alone. -/
def path : Uri → String
  | absolute _ _ t => String.ofList t.shownPath
  | origin t => String.ofList t.shownPath
  | authority _ => ""

/-- The target as text. -/
def text : Uri → String
  | absolute s a t => String.ofList (s ++ "://".toList ++ a ++ t.shownPath ++ t.queryText)
  | origin t => String.ofList (t.shownPath ++ t.queryText)
  | authority a => String.ofList a

end Uri
end EgressAuth.Http
