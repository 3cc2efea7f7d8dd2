/-
  EgressAuth.Setup.Files

  The files that settings may come from, and how a path finds one of them. All
  stand in or beside the folder `config`. A path need not give the extension,
  and it may go through folders that exist, upwards too.
-/
import EgressAuth.Text.Pieces

namespace EgressAuth.Setup

/-- The names of folders from the working folder down, and of a file in the last of them. -/
abbrev Location := List String

/-- Files of JSON by location. Of two files at one location the first one counts. -/
structure Files where
  entries : List (Location × String)
  deriving DecidableEq, Repr

namespace Files

def folder : String := "config"

def extension : String := ".json"

/-- The names between the slashes of a path. -/
def components (path : String) : List String :=
  (Text.pieces '/' path.toList).map String.ofList

/-- Whether a component leads nowhere else. -/
def isIdle (component : String) : Bool := component == "" || component == "."

/-- Where components lead from a location, through folders only. There is no way out of the working
folder. -/
def follow (isFolder : Location → Bool) (here : Location) : List String → Option Location
  | [] => some here
  | component :: rest =>
    if !isFolder here then none
    else if isIdle component then follow isFolder here rest
    else if component = ".." then
      if here.isEmpty then none else follow isFolder here.dropLast rest
    else follow isFolder (here ++ [component]) rest

/-- The files with these names in the folder of settings files, their extension left out. Of two
files at one location the last one counts. -/
def ofNames (files : List (String × String)) : Files :=
  ⟨(files.filterMap fun (name, content) =>
    (follow (fun _ => true) [folder] (components (name ++ extension))).map (·, content)).reverse⟩

/-- Whether a location is that of a folder: the working folder, the folder of settings files, and
those that hold a file. -/
def isFolder (fs : Files) (here : Location) : Bool :=
  here.isEmpty || here == [folder] ||
    fs.entries.any fun e => here.isPrefixOf e.1 && here.length < e.1.length

/-- The file that components lead to from the working folder. -/
def at? (fs : Files) (path : List String) : Option (Location × String) := do
  let here ← follow fs.isFolder [] path
  return (here, ← fs.entries.lookup here)

/-- Whether a name has an extension of its own: a dot that is not its first character. -/
def hasExtension (name : String) : Bool := (name.toList.drop 1).contains '.'

/-- The components of a path with the extension `.json` added. It is added to the last name; but if
that name has an extension of its own, to the path as it stands, and a path that ends in a slash so
comes to name a file in a folder. A path that ends in `..` has no name to add it to. -/
def extended? (path : List String) : Option (List String) :=
  match (path.filter fun c => !isIdle c).reverse with
  | [] => none
  | ".." :: _ => none
  | name :: folders =>
    if hasExtension name then
      let last := path.getLast?.getD name
      some (path.dropLast ++ [(if last = "" then ".placeholder" else last) ++ extension])
    else some ((name ++ extension) :: folders).reverse

/-- The content of the file that a path in the folder of settings files names, the extension being
given or not. A file whose whole name is the extension is of no known kind. -/
def find? (fs : Files) (path : String) : Option String :=
  let path := folder :: components path
  match fs.at? path with
  | some (here, content) => if here.getLast? = some extension then none else some content
  | none => ((extended? path).bind fs.at?).map Prod.snd

example : (ofNames [("staging", "x")]).find? "../config/staging/" = some "x" := by decide +kernel

example : (ofNames [("staging", "x")]).find? "staging.json/" = none := by decide +kernel

example : (ofNames [("eu.staging", "x")]).find? "eu.staging/" = none := by decide +kernel

end Files
end EgressAuth.Setup
