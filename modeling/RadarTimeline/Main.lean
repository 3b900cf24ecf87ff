import RadarTimeline.CommandLine.Run

namespace RadarTimeline.Main

/-- The files from a directory entry down. What cannot be read as text is left out. -/
def nodes (place : List String) : Nat → IO.FS.DirEntry → IO (List (List String × FileNode))
  | 0, _ => return []
  | depth + 1, entry => do
    if ← entry.path.isDir then
      let below ← try entry.path.readDir catch _ => pure #[]
      let inner ← below.toList.mapM fun e => nodes (place ++ [e.fileName]) depth e
      return (place, .directory) :: inner.flatten
    else
      let bytes? ← try some <$> IO.FS.readBinFile entry.path catch _ => pure none
      return ((bytes?.bind String.fromUTF8?).map fun text => (place, .file text)).toList

def nodesOf (working : List String) (depth : Nat) (path : String) :
    IO (List (List String × FileNode)) :=
  let place := Path.components (if Path.isAbsolute path then path else
    Path.join ("/" ++ String.intercalate "/" working) path)
  nodes place depth ⟨"/" ++ String.intercalate "/" place, ""⟩

/-- The files a command line can see: those below the working directory and the directories of
experiments, and those next to the files it names. -/
def visible (words : List String) : IO FileTree := do
  let working := Path.components (← IO.currentDir).toString
  let below ← ("." :: ({} : Configuration).roots).mapM (nodesOf working 8)
  let beside ← (words.map Path.directory).eraseDups.mapM (nodesOf working 2)
  return { working, nodes := below.flatten ++ beside.flatten }

def write (piece : Log.Channel × String) : IO Unit :=
  match piece.1 with
  | .out => IO.print piece.2
  | _ => IO.eprint piece.2

end RadarTimeline.Main

open RadarTimeline in
def main (words : List String) : IO UInt32 := do
  let outcome := CommandLine.run (← Main.visible words) words
  (outcome.pieces ++ outcome.complaint).forM Main.write
  return if outcome.result.isOk then 0 else 1
