import RadarTimeline.Files.Tree

namespace RadarTimeline

structure FoundFile where
  directory : String
  /-- The name of the file without directory and extension. -/
  name : String
  path : String
deriving Repr, DecidableEq

structure FileNotFound where
  name : String
  searched : List String
deriving Repr, DecidableEq

def FileNotFound.message (f : FileNotFound) : String :=
  if f.searched.isEmpty then s!"Experiment file {f.name} not found"
  else
    let places := String.intercalate ", " f.searched
    s!"Experiment file {f.name} not found (searched {places})"

namespace FoundFile

def ofPath (path : String) : FoundFile := ⟨Path.directory path, Path.stem path, path⟩

/-- A name without the first of the roots it begins with. -/
def belowRoot (name : String) : List String → String
  | [] => name
  | root :: rest =>
    let start := if root.endsWith "/" then root else root ++ "/"
    if name.startsWith start then String.ofList (name.toList.drop start.length)
    else belowRoot name rest

def candidates (name ending : String) (roots : List String) : List String :=
  let name := if name.endsWith ending then name else name ++ ending
  let below := belowRoot name roots
  name :: roots.map (Path.join · below)

def find (tree : FileTree) (name ending : String) (roots : List String) :
    Except FileNotFound FoundFile :=
  let places := candidates name ending roots
  match places.find? tree.isFile with
  | some path => .ok (ofPath path)
  | none => .error ⟨name, places⟩

def programPath (compiled : String) : String := Path.withoutExtension compiled ++ ".tlan"

end FoundFile

end RadarTimeline
