/-
  EgressAuth.Http.Token

  Tokens, the words of HTTP, and request methods, which are non-empty tokens
  told apart by case.
-/
import EgressAuth.Text.Bytes

namespace EgressAuth.Http

/-- The characters of a token: letters and digits of ASCII and a few signs. -/
def isTokenChar (c : Char) : Bool :=
  c.isAlphanum || "!#$%&'*+-.^_".toList.contains c || c == Char.ofNat 0x60 || c == '|' || c == '~'

/-- A request method. -/
structure Method where
  text : String
  valid : text.toList ≠ [] ∧ text.toList.all isTokenChar = true
  deriving DecidableEq

namespace Method

/-- The method that a text names. -/
def ofText? (s : String) : Option Method :=
  if h : s.toList ≠ [] ∧ s.toList.all isTokenChar = true then some ⟨s, h⟩ else none

def get : Method := ⟨"GET", by decide⟩

def head : Method := ⟨"HEAD", by decide⟩

/-- What is said of a text that names no method. -/
def invalidMessage : String := "invalid HTTP method"

end Method
end EgressAuth.Http
