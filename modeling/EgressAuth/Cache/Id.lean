/-
  EgressAuth.Cache.Id

  Cache slots. Every configured endpoint has the slot that its domain and path
  hash to; one slot serves all requests while endpoints are not told apart.
-/
import EgressAuth.Decimal.Digits
import EgressAuth.Digest.Sha256

namespace EgressAuth.Cache

/-- The number of a slot. -/
structure Id where
  number : UInt32
  deriving DecidableEq, Repr

namespace Id

/-- The slot shared by all requests while endpoint matching is off. -/
def shared : Id := ⟨0⟩

/-- The slot of an endpoint: the first four bytes of the hash of domain and path in a row. -/
def ofEndpoint (domain path : String) : Id :=
  match Digest.Sha256.hash (Text.encode domain ++ Text.encode path) with
  | a :: b :: c :: d :: _ => ⟨Digest.Sha256.wordOf a b c d⟩
  | _ => ⟨0⟩

/-- The key of the slot in the shared store. -/
def key (i : Id) : String := Decimal.natText i.number.toNat

end Id
end EgressAuth.Cache
