/-!
Paths: slashes separate the components of a file name.

* `Path.components`: the components that name something, without empty ones and single dots;
* `Path.fileName?`, `Path.stem?`, `Path.extension?`: the last component and its two parts;
* `Path.join`, `Path.precedes`: a path below a directory, and the order of paths.
-/

namespace StackScript

namespace Path

/-- The components of a path that count; a dot stands for the directory it is in. -/
def components (path : String) : List String :=
  (path.splitOn "/").filter fun c => c ≠ "" ∧ c ≠ "."

/-- The last component, unless it leads to the directory above. -/
def fileName? (path : String) : Option String :=
  match (components path).getLast? with
  | some ".." => none
  | last => last

/-- A file name before and after its last dot; a dot at its start separates nothing. -/
def splitAtDot (name : String) : String × Option String :=
  let reversed := name.toList.reverse
  let after := reversed.takeWhile (· != '.')
  match reversed.drop after.length with
  | '.' :: before =>
    if before.isEmpty then (name, none)
    else (String.ofList before.reverse, some (String.ofList after.reverse))
  | _ => (name, none)

/-- The file name before its last dot. -/
def stem? (path : String) : Option String :=
  (fileName? path).map fun name => (splitAtDot name).1

/-- The file name after its last dot. -/
def extension? (path : String) : Option String :=
  (fileName? path).bind fun name => (splitAtDot name).2

/-- The path of something in a directory. -/
def join (directory name : String) : String :=
  if directory.endsWith "/" then directory ++ name else directory ++ "/" ++ name

/-- Paths are ordered component by component, and components by their characters. -/
def precedes (a b : List String) : Bool :=
  match a, b with
  | [], _ => true
  | _ :: _, [] => false
  | x :: xs, y :: ys => if x = y then precedes xs ys else x < y

end Path

/-- The name of the unit that a source file compiles to: the file name before its last dot. -/
def unitName (filename : String) : String :=
  if filename = "-" then "<stdin>" else (Path.stem? filename).getD filename

end StackScript
