/-
  EgressAuth.Setup.Settings

  The settings of the sidecar. Files and the environment are gathered in one
  tree, the later ones over the earlier; this tree is laid over the defaults,
  and the settings are read from it by type.
-/
import EgressAuth.Setup.Files
import EgressAuth.Setup.Value

namespace EgressAuth.Setup

/-! ## Settings -/

/-- The settings of a sidecar. -/
structure Settings where
  listenHost : String
  listenPort : Nat
  backendUrl : String
  backendTimeoutMs : Nat
  pluginPath : Option String
  clusters : List (String × String)
  logLevel : String
  deriving DecidableEq, Repr

namespace Settings

def defaultClusters : List (String × String) := [("ext-authz", "http://127.0.0.1:7080")]

/-- The tree before any source is read. -/
def defaults : Value :=
  .table
    [("server", .table [("host", .text "0.0.0.0"), ("port", .int 15001)]),
      ("upstream", .table
        [("url", .text "http://127.0.0.1:8080"), ("request_timeout_ms", .int 30000)]),
      ("logging", .table [("level", .text "info")])]

/-- The path of the plugin file in the section that may give it. -/
def pluginPath? : Option Value → Option (Option String)
  | none => some none
  | some (.table ms) => match ms.lookup "plugin_config_path" with
    | none => some none
    | some .nothing => some none
    | some v => v.asText?.map some
  | some (.list (.nothing :: _)) => some none
  | some (.list (v :: _)) => v.asText?.map some
  | some _ => none

/-- The clusters in the section that may give them. -/
def clusters? : Option Value → Option (List (String × String))
  | none => some defaultClusters
  | some (.table ms) => ms.mapM fun m => m.2.asText?.map fun t => (m.1, t)
  | some _ => none

/-- Reads the settings from a tree. -/
def ofTree? (tree : Value) : Option Settings := do
  let server ← tree.member? "server"
  let backend ← tree.member? "upstream"
  let logging ← tree.member? "logging"
  return {
    listenHost := ← (← server.field? "host" 0).asText?
    listenPort := ← (← server.field? "port" 1).asNaturalUpTo? 65535
    backendUrl := ← (← backend.field? "url" 0).asText?
    backendTimeoutMs := ← (← backend.field? "request_timeout_ms" 1).asNatural?
    pluginPath := ← pluginPath? (tree.member? "filter")
    clusters := ← clusters? (tree.member? "clusters")
    logLevel := ← (← logging.field? "level" 0).asText? }

/-! ## Sources -/

/-- The members that a file of JSON gives. It has to hold an object; a byte order mark before it is
dropped. -/
def fileMembers? (text : String) : Option (List (String × Value)) :=
  let content := match text.toList with
    | '\uFEFF' :: cs => String.ofList cs
    | _ => text
  match Json.read? (Text.encode content) with
  | some (.object ms) => some (Value.ofJson (.object ms)).members
  | _ => none

/-- What the names of environment variables that are settings start with. -/
def variablePrefix : String := "auth_filter__"

/-- The small letter of a character. Of the letters outside ASCII only the Kelvin sign has a small
letter within it; the others can be no part of a name in a key, in whatever case. -/
def smallLetter (c : Char) : Char := if c = '\u212A' then 'k' else c.toLower

/-- The characters with every pair of underscores replaced by a dot. -/
def dotted : List Char → List Char
  | '_' :: '_' :: cs => '.' :: dotted cs
  | c :: cs => c :: dotted cs
  | [] => []

/-- The members that the environment gives: variables with the right beginning, in small letters. -/
def variableMembers (assignments : List (String × String)) : List (String × Value) :=
  assignments.filterMap fun (name, value) =>
    let cs := name.toList.map smallLetter
    let start := variablePrefix.toList
    if start.isPrefixOf cs then
      some (String.ofList (dotted (cs.drop start.length)), .text value)
    else none

/-- Why there are no settings: a file, or the tree of all sources, does not have the form that it
should have; or a key asks for a list that is too long. -/
inductive Fault where
  | malformed
  | listTooLong
  deriving DecidableEq, Repr

/-- The tree with the members of a source laid over it. -/
def addMembers (tree : Value) (source : List (String × Value)) : Except Fault Value :=
  (tree.layer? source).elim (.error .listTooLong) .ok

/-- The tree with the members of a file laid over it. -/
def addFile (tree : Value) (text : String) : Except Fault Value :=
  (fileMembers? text).elim (.error .malformed) (addMembers tree)

/-- The settings in the tree of all sources, which goes over the defaults. -/
def ofSources (tree : Value) : Except Fault Settings :=
  (ofTree? (defaults.merge tree)).elim (.error .malformed) .ok

/-- The settings of one file; there are none if the file does not exist. -/
def ofFile : Option String → Except Fault Settings
  | some text => do ofSources (← addFile (.table []) text)
  | none => .error .malformed

def defaultEnvironment : String := "development"

/-- The settings of the files for all environments, for this one, and for this machine, and of the
environment variables, in this order. Files need not exist, but those that do must be
well-formed. -/
def gather (files : Files) (environment : Option String)
    (assignments : List (String × String)) : Except Fault Settings := do
  let paths := ["default", environment.getD defaultEnvironment, "local"]
  let tree ← (paths.filterMap files.find?).foldlM addFile (.table [])
  ofSources (← addMembers tree (variableMembers assignments))

end Settings
end EgressAuth.Setup
