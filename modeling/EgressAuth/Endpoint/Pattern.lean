/-
  EgressAuth.Endpoint.Pattern

  Path patterns: globs whose matching programs stay within a size limit. There
  are two of them, one that reads a path from its beginning and one that reads
  it from its end. Either takes 32 bytes for every byte of literal text. The
  first one takes 464 bytes for every star and 192 bytes for the ends of the
  path and of the match, the second one 1040 and 128 bytes.
-/
import EgressAuth.Endpoint.Glob

namespace EgressAuth.Endpoint

/-- The size in bytes of the larger program for a pattern. -/
def programSize (pattern : String) : Nat :=
  let stars := pattern.toList.count Glob.star
  let literal := 32 * (pattern.utf8ByteSize - stars)
  max (192 + literal + 464 * stars) (128 + literal + 1040 * stars)

/-- The greatest size of a program. -/
def maxProgramSize : Nat := 10 * 1024 * 1024

/-- A glob pattern for request paths. -/
structure PathPattern where
  text : String
  fits : programSize text ≤ maxProgramSize
  deriving DecidableEq

namespace PathPattern

/-- The pattern that a text spells, if its program is not too large. -/
def ofText? (s : String) : Option PathPattern :=
  if h : programSize s ≤ maxProgramSize then some ⟨s, h⟩ else none

/-- Whether the pattern matches the whole path. -/
def accepts (p : PathPattern) (path : String) : Bool := Glob.accepts p.text.toList path.toList

/-- The length in bytes, by which competing patterns are ranked. -/
def length (p : PathPattern) : Nat := p.text.utf8ByteSize

end PathPattern
end EgressAuth.Endpoint
