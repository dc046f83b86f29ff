import LintEngine.CommandLine.Run

/-!
The program. It takes a picture of the files that the command line speaks of,
carries the command line out on that picture, and writes what comes of it.
-/

namespace LintEngine.CommandLine

/-- The directories that a picture goes down at most. -/
def maxDepth : Nat := 64

/-- The files at or below a path. What cannot be read is left out. -/
def snapshot : Nat → String → IO (List (Place × ByteArray))
  | 0, _ => return []
  | n + 1, path => do
    try
      let real ← IO.FS.realPath path
      if ← real.isDir then
        let entries ← real.readDir
        let parts ← entries.toList.mapM fun e => snapshot n e.path.toString
        return parts.flatten
      else
        return [((Text.split '/' real.toString).filter (· != ""), ← IO.FS.readBinFile real)]
    catch _ => return []

/-- The paths that a request speaks of. -/
def Request.paths : Request → List String
  | .analyze o =>
    ["."] ++ ([o.path] ++ o.config.toList ++ o.apiDatabase.toList).map (·.text)
  | _ => []

/-- There is no network to send requests over. -/
def noNetwork : Versions.Central.Transport Versions.Central.Client :=
  fun _ world => (.refused "no network", world)

def program (args : List String) : IO UInt32 := do
  let here ← IO.FS.realPath "."
  let files ← (parse args).paths.mapM (snapshot maxDepth)
  let fs : FileSystem :=
    { files := files.flatten, here := (Text.split '/' here.toString).filter (· != "") }
  let outcome := run fs noNetwork args
  IO.print outcome.output
  if let some text := outcome.complaint then IO.eprintln text
  if let some (path, text) := outcome.written then IO.FS.writeFile path.text text
  return outcome.exit

end LintEngine.CommandLine

def main (args : List String) : IO UInt32 := LintEngine.CommandLine.program args
