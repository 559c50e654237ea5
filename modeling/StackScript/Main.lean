import StackScript.CommandLine

/-!
The program: the command line joined to the world.

What a command does is decided by `CommandLine.run`, on a console that is filled before it runs and
emptied after it. Only the prompt is served line by line, by `Repl.respond`.

* `Program.load`: the part of the file system that a command may reach;
* `Program.serve`: the prompt, up to the end of the input or the line that leaves it;
* `main`: a whole run.
-/

namespace StackScript

namespace Program

/-! ### Files -/

/-- The places that a path leads through, the last one first; a component that leads upwards takes the
one before it back. -/
def placesOf (current : List String) (path : String) : List (List String) :=
  let start := if path.startsWith "/" then [] else current
  (Path.components path).foldl
    (fun places name =>
      let place := places.headD []
      (if name = ".." then place.dropLast else place ++ [name]) :: places)
    [start]

/-- The path of a place. -/
def pathOf (place : List String) : String := "/" ++ "/".intercalate place

/-- The directory that the program runs in. -/
def currentPlace : IO (List String) := do
  return Path.components (← IO.currentDir).toString

/-- Add what is at a place, if anything is there and it has not been added before. -/
def addPlace (t : FileTree) (place : List String) : IO FileTree := do
  let path := (← IO.currentDir) / pathOf place
  if t.files.any (·.1 = place) then return t
  else if ← path.isDir then return { t with directories := place :: t.directories }
  else if ← path.pathExists then
    let bytes ← IO.FS.readBinFile path
    return { t with files := (place, String.fromUTF8? bytes) :: t.files }
  else return t

/-- Add what is at a place and, as far as `fuel` lasts, all that is below it. -/
def addBelow : (fuel : Nat) → FileTree → List String → IO FileTree
  | 0, t, _ => return t
  | fuel + 1, t, place => do
    let t ← addPlace t place
    let path := (← IO.currentDir) / pathOf place
    if ← path.isDir then
      let entries ← path.readDir
      entries.foldlM (fun t e => addBelow fuel t (place ++ [e.fileName])) t
    else return t

/-- The paths that a command may read from or write to. -/
def pathsOf : Command → List String
  | .run file => [file]
  | .tokens file => [file]
  | .ast file => [file]
  | .compile file targets =>
    file :: (targets.output.toList ++ targets.unit.toList ++ targets.report.toList)
  | .link inputs output _ => inputs ++ output.toList
  | .repl => []
  | .usage => []

/-- The paths that a command may look below, as far as they are directories. -/
def inputsOf : Command → List String
  | .link inputs _ _ => inputs
  | _ => []

/-- The levels of directories that a command looks through. -/
def levels : Nat := 64

/-- The part of the file system that a command may reach. -/
def load (command : Command) : IO FileTree := do
  let current ← currentPlace
  let places := (pathsOf command).flatMap (placesOf current)
  let t ← places.foldlM addPlace { current }
  (inputsOf command).foldlM (fun t input => addBelow levels t ((placesOf current input).headD [])) t

/-- Write the files that have changed. -/
def store (before after : FileTree) : IO Unit :=
  after.files.forM fun f =>
    if before.files.contains f then pure ()
    else f.2.forM fun text => IO.FS.writeFile (pathOf f.1) text

/-! ### Streams -/

/-- The rest of the input. -/
partial def readInput (input : IO.FS.Stream) (done : String) : IO String := do
  let line ← input.getLine
  if line.isEmpty then return done else readInput input (done ++ line)

/-- Serve the prompt. -/
partial def serve (settings : Settings) (filter : LogFilter) (input : IO.FS.Stream) (m : Machine) :
    IO Unit := do
  IO.print Repl.prompt
  (← IO.getStdout).flush
  let line ← input.getLine
  if line.isEmpty then IO.println ""
  else
    let (reply, m) := Repl.respond settings m line
    IO.eprint (filter.lines reply.notices)
    IO.print reply.output
    IO.eprint reply.errors
    if reply.leaves then return () else serve settings filter input m

/-- Run a command on what it may reach. -/
def runCommand (arguments : List String) (command : Command) (filter : LogFilter) : IO Nat := do
  let files ← load command
  let input ← if (pathsOf command).contains "-" then readInput (← IO.getStdin) "" else pure ""
  let (status, c) := CommandLine.run arguments { files, input, filter }
  store files c.files
  IO.print c.output
  IO.eprint c.errors
  return status

/-- Run a command line; the answer is the exit status. -/
def start (arguments : List String) : IO Nat := do
  let filter := LogFilter.ofSetting (← IO.getEnv "CODEX_LOG")
  match Invocation.ofArguments? arguments with
  | none => do
    IO.eprint (filter.warnings ++ Console.usage)
    return CommandLine.usageStatus
  | some ⟨.repl, settings⟩ => do
    IO.eprint filter.warnings
    IO.print Repl.banner
    serve settings filter (← IO.getStdin) {}
    return 0
  | some ⟨command, _⟩ => runCommand arguments command filter

end Program

end StackScript

/-- Run the program. -/
def main (arguments : List String) : IO UInt32 := do
  return UInt32.ofNat (← StackScript.Program.start arguments)
