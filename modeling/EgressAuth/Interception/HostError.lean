/-
  EgressAuth.Interception.HostError

  How a request to the host, for stored data or for a call to another service,
  can fail.
-/
import EgressAuth.Text.Duration

namespace EgressAuth

/-- Why the host did not do what it was asked. -/
inductive HostError where
  | notFound (what : String)
  | casMismatch (key : String)
  | badArgument (reason : String)
  | timeout (after : Duration)
  | internalFailure (reason : String)
  deriving DecidableEq, Repr

/-- The wording of a host error. -/
def HostError.message : HostError → String
  | notFound what => "Not found: " ++ what
  | casMismatch key => "Compare-and-swap mismatch for key " ++ key
  | badArgument reason => "Bad argument: " ++ reason
  | timeout after => "Call timed out after " ++ after.text
  | internalFailure reason => "Internal failure: " ++ reason

end EgressAuth
