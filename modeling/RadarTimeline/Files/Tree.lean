import RadarTimeline.Files.Path

namespace RadarTimeline

inductive FileNode where
  | file (text : String)
  | directory
deriving Repr, DecidableEq

/-- Why a path cannot be read as a file. -/
inductive FileFault where
  | missing (path : String)
  | throughFile (path : String)
  | isDirectory
deriving Repr, DecidableEq

def FileFault.message : FileFault → String
  | .missing path => s!"ENOENT: no such file or directory, open '{path}'"
  | .throughFile path => s!"ENOTDIR: not a directory, open '{path}'"
  | .isDirectory => "EISDIR: illegal operation on a directory, read"

/-- Files by the components of their absolute paths, and the directory relative paths start from.
Directories that hold something need no entry of their own. -/
structure FileTree where
  working : List String
  nodes : List (List String × FileNode)

namespace FileTree

def empty : FileTree := ⟨[], []⟩

def node? (tree : FileTree) (place : List String) : Option FileNode :=
  match tree.nodes.find? (·.1 = place) with
  | some (_, node) => some node
  | none =>
    if place.isPrefixOf tree.working || tree.nodes.any (place.isPrefixOf ·.1) then some .directory
    else none

/-- Walks the pieces of a path from a directory. `path` is named in the fault. -/
def walk (tree : FileTree) (path : String) (here : List String) :
    List String → Except FileFault FileNode
  | [] => .ok .directory
  | piece :: rest =>
    if piece = "" || piece = "." then walk tree path here rest
    else if piece = ".." then walk tree path here.dropLast rest
    else match tree.node? (here ++ [piece]) with
      | none => .error (.missing path)
      | some .directory => walk tree path (here ++ [piece]) rest
      | some (.file text) => if rest.isEmpty then .ok (.file text) else .error (.throughFile path)

/-- What a path names. The empty path names nothing. -/
def find (tree : FileTree) (path : String) : Except FileFault FileNode :=
  if path = "" then .error (.missing path)
  else walk tree path (if Path.isAbsolute path then [] else tree.working) (Path.pieces path)

def read (tree : FileTree) (path : String) : Except FileFault String :=
  match tree.find path with
  | .ok (.file text) => .ok text
  | .ok .directory => .error .isDirectory
  | .error fault => .error fault

def isFile (tree : FileTree) (path : String) : Bool :=
  match tree.find path with
  | .ok (.file _) => true
  | _ => false

end FileTree

end RadarTimeline
