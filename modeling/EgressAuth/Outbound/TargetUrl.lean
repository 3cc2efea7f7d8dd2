/-
  EgressAuth.Outbound.TargetUrl

  Base URLs of services. They start with `http://` or `https://`; paths are
  appended to the URL without its trailing slashes.
-/
import EgressAuth.Http.Uri

namespace EgressAuth.Outbound

/-- Whether a text starts like the URL of a web service. -/
def startsLikeUrl (s : String) : Bool :=
  "http://".toList.isPrefixOf s.toList || "https://".toList.isPrefixOf s.toList

/-- The base URL of a service. -/
structure TargetUrl where
  text : String
  valid : startsLikeUrl text = true
  deriving DecidableEq

namespace TargetUrl

/-- The URL that a text spells. -/
def ofText? (s : String) : Option TargetUrl :=
  if h : startsLikeUrl s = true then some ⟨s, h⟩ else none

/-- What is said of a text that is no such URL. -/
def invalidMessage : String := "TargetUrl failed the predicate test."

/-- The URL without trailing slashes, ready for a path. -/
def base (u : TargetUrl) : String :=
  String.ofList ((u.text.toList.reverse.dropWhile (· == '/')).reverse)

/-- The URI at a path below the base. -/
def resolve (u : TargetUrl) (path : String) : Except Http.UriError Http.Uri :=
  Http.Uri.read (u.base ++ path)

end TargetUrl

/-! ## Tables of clusters -/

/-- A URL in the settings that is not one of a service. -/
structure InvalidUrl where
  name : String
  url : String
  deriving DecidableEq, Repr

/-- The wording for an invalid URL. -/
def InvalidUrl.message (e : InvalidUrl) : String := "Invalid URL for " ++ e.name ++ ": " ++ e.url

/-- The base URLs of named clusters. -/
abbrev ClusterTable := List (String × TargetUrl)

/-- The table of clusters given as texts, or the first one that is invalid. -/
def ClusterTable.ofTexts : List (String × String) → Except InvalidUrl ClusterTable
  | [] => .ok []
  | (name, url) :: rest => match TargetUrl.ofText? url with
    | none => .error ⟨"cluster " ++ name, url⟩
    | some u => (ofTexts rest).map ((name, u) :: ·)

end EgressAuth.Outbound
