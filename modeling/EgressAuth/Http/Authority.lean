/-
  EgressAuth.Http.Authority

  The authority of a URI: user part, host, and a number. It is checked from
  left to right; counted colons and a percent sign are forgiven if they turn
  out to stand in the user part or between brackets. The number is not looked at.
-/
import EgressAuth.Text.Pieces

namespace EgressAuth.Http

/-- Why a text is not a URI. -/
inductive UriError where
  | empty
  | tooLong
  | schemeTooLong
  | invalidCharacter
  | invalidAuthority
  | invalidFormat
  deriving DecidableEq, Repr

/-- The wording of a URI error. -/
def UriError.message : UriError → String
  | empty => "empty string"
  | tooLong => "uri too long"
  | schemeTooLong => "scheme too long"
  | invalidCharacter => "invalid uri character"
  | invalidAuthority => "invalid authority"
  | invalidFormat => "invalid format"

namespace Authority

/-- The characters that end an authority. -/
def endsAuthority (c : Char) : Bool := c == '/' || c == '?' || c == '#'

/-- The characters of an authority that have no meaning of their own. -/
def isPlain (c : Char) : Bool := c.isAlphanum || "!$&'()*+,-.;=_~".toList.contains c

/-- What the check has to remember of the characters seen. -/
structure Scan where
  colons : Nat := 0
  opened : Bool := false
  closed : Bool := false
  percent : Bool := false
  endsInAt : Bool := false
  deriving DecidableEq, Repr

/-- More colons than an address between brackets and a number need. -/
def maxColons : Nat := 8

/-- Takes note of one character. -/
def Scan.step (s : Scan) (c : Char) : Except UriError Scan :=
  if c = ':' then
    if maxColons ≤ s.colons then .error .invalidAuthority
    else .ok { s with colons := s.colons + 1, endsInAt := false }
  else if c = '[' then
    if s.percent ∨ s.opened then .error .invalidAuthority
    else .ok { s with opened := true, endsInAt := false }
  else if c = ']' then
    if ¬s.opened ∨ s.closed then .error .invalidAuthority
    -- What was counted so far belongs to the address between the brackets.
    else .ok { s with closed := true, colons := 0, percent := false, endsInAt := false }
  -- What was counted so far belongs to the user part.
  else if c = '@' then .ok { s with colons := 0, percent := false, endsInAt := true }
  else if c = '%' then .ok { s with percent := true, endsInAt := false }
  else if isPlain c then .ok { s with endsInAt := false }
  else .error .invalidCharacter

/-- Takes note of all characters. -/
def Scan.steps : Scan → List Char → Except UriError Scan
  | s, [] => .ok s
  | s, c :: cs => match s.step c with
    | .ok s => s.steps cs
    | .error e => .error e

/-- Whether the authority may end here. -/
def Scan.complete (s : Scan) : Bool :=
  s.opened == s.closed && s.colons ≤ 1 && !s.endsInAt && !s.percent

/-- Checks the characters of an authority. -/
def check (cs : List Char) : Except UriError Unit :=
  match Scan.steps {} cs with
  | .ok s => if s.complete then .ok () else .error .invalidAuthority
  | .error e => .error e

/-- The authority at the head of a text and what follows it. -/
def split (cs : List Char) : List Char × List Char :=
  (cs.takeWhile fun c => !endsAuthority c, cs.dropWhile fun c => !endsAuthority c)

/-- Whether a text is an authority from end to end. -/
def isAuthority (cs : List Char) : Bool :=
  !cs.isEmpty && (split cs).2.isEmpty &&
    match check cs with
    | .ok _ => true
    | .error _ => false

/-- The part after the last `@`. -/
def afterUser (cs : List Char) : List Char := ((Text.pieces '@' cs).getLast?).getD []

/-- The host of an authority: brackets and what is between them, or all before the colon. -/
def host (cs : List Char) : List Char :=
  match afterUser cs with
  | '[' :: r => '[' :: (r.takeWhile (· != ']') ++ [']'])
  | r => (Text.cut ':' r).1

end Authority
end EgressAuth.Http
