import StackScript.Path

/-!
File trees: the files that a command sees.

A tree holds text files under absolute paths, given by their components, and the directory that
relative paths start from. Directories are there as far as something is in them, or as they are given.

* `FileTree`, `FileError`: the files, and why a path cannot be read or written;
* `FileTree.step`, `FileTree.follow`, `FileTree.resolve`: what a path leads to;
* `FileTree.read`, `FileTree.write`, `FileTree.isDirectory`: the operations on single paths;
* `FileTree.filesBelow`: all files below a directory, in the order of their paths.
-/

namespace StackScript

/-- Why a path cannot be read or written. -/
inductive FileError where
  | notFound | notADirectory | isADirectory | nameTooLong
  /-- The bytes of the file are no text. -/
  | notText
deriving DecidableEq

/-- The error in words. -/
def FileError.message : FileError → String
  | notFound => "No such file or directory (os error 2)"
  | notADirectory => "Not a directory (os error 20)"
  | isADirectory => "Is a directory (os error 21)"
  | nameTooLong => "File name too long (os error 36)"
  | notText => "stream did not contain valid UTF-8"

/-- Files by the components of their paths, further directories, and the directory that relative
paths start from. A file without contents is one whose bytes are no text. -/
structure FileTree where
  files : List (List String × Option String) := []
  directories : List (List String) := []
  current : List String := []

namespace FileTree

/-- What is at a place. -/
inductive Entry where
  | file (contents : Option String)
  | directory
  | missing

/-- What the components of an absolute path without dots lead to. -/
def entryAt (t : FileTree) (place : List String) : Entry :=
  match t.files.find? (·.1 = place) with
  | some f => .file f.2
  | none =>
    if place.isPrefixOf t.current || t.directories.any place.isPrefixOf
        || t.files.any (place.isPrefixOf ·.1) then .directory
    else .missing

/-! ### Following paths -/

/-- The bytes that a single name may have. -/
def longestName : Nat := 255

/-- The bytes that a whole path may have. -/
def longestPath : Nat := 4095

/-- A place holds a directory. -/
def checkDirectory (t : FileTree) (place : List String) : Except FileError Unit :=
  match t.entryAt place with
  | .directory => .ok ()
  | .file _ => .error .notADirectory
  | .missing => .error .notFound

/-- The place that a name leads to from another place, which has to be a directory. -/
def step (t : FileTree) (place : List String) (name : String) : Except FileError (List String) := do
  t.checkDirectory place
  if name = "." then .ok place
  else if name = ".." then .ok place.dropLast
  else if longestName < name.utf8ByteSize then .error .nameTooLong
  else .ok (place ++ [name])

/-- The place that names lead to one after the other. -/
def follow (t : FileTree) (place : List String) : List String → Except FileError (List String)
  | [] => .ok place
  | name :: rest => do t.follow (← t.step place name) rest

/-- The names in a path, dots among them. -/
def names (path : String) : List String :=
  (path.splitOn "/").filter (· ≠ "")

/-- The place that a path begins at. -/
def start (t : FileTree) (path : String) : List String :=
  if path.startsWith "/" then [] else t.current

/-- A path can be followed at all. -/
def checkPath (path : String) : Except FileError Unit :=
  if path = "" then .error .notFound
  else if longestPath < path.utf8ByteSize then .error .nameTooLong
  else .ok ()

/-- The place that a path leads to, which need not hold anything. -/
def resolve (t : FileTree) (path : String) : Except FileError (List String) := do
  checkPath path
  t.follow (t.start path) (names path)

/-- A path with a slash at its end can lead to a directory only. -/
def wantsDirectory (path : String) : Bool := path.endsWith "/"

/-! ### Reading and writing -/

/-- A path leads to a directory. -/
def isDirectory (t : FileTree) (path : String) : Bool :=
  match t.resolve path with
  | .error _ => false
  | .ok place =>
    match t.entryAt place with
    | .directory => true
    | _ => false

/-- The text of a file. -/
def read (t : FileTree) (path : String) : Except FileError String := do
  match t.entryAt (← t.resolve path) with
  | .missing => .error .notFound
  | .directory => .error .isADirectory
  | .file contents =>
    if wantsDirectory path then .error .notADirectory
    else
      match contents with
      | some text => .ok text
      | none => .error .notText

/-- Put a text into a file, in place of what it held. -/
def put (t : FileTree) (place : List String) (text : String) : FileTree :=
  if t.files.any (·.1 = place) then
    { t with files := t.files.map fun f => if f.1 = place then (place, some text) else f }
  else { t with files := t.files ++ [(place, some text)] }

/-- Write a file. Its directory has to be there, and a path with a slash at its end is refused before
what it leads to is looked at. -/
def write (t : FileTree) (path : String) (text : String) : Except FileError FileTree := do
  checkPath path
  if wantsDirectory path then
    t.checkDirectory (← t.follow (t.start path) (names path).dropLast)
    .error .isADirectory
  else
    let place ← t.resolve path
    match t.entryAt place with
    | .directory => .error .isADirectory
    | _ => .ok (t.put place text)

/-- The paths below a directory of all its files, as components from there on, in their order. -/
def filesBelow (t : FileTree) (path : String) : List (List String) :=
  match t.resolve path with
  | .error _ => []
  | .ok place =>
    let below := t.files.filterMap fun f =>
      if place.isPrefixOf f.1 then some (f.1.drop place.length) else none
    below.mergeSort Path.precedes

end FileTree

end StackScript
