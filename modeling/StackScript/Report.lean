import StackScript.Report.Json
import StackScript.Source

/-!
Compile reports: the outcome of a compilation, as it is stored.

* `CompileReport`: the source with its listing, or with the error that kept it from compiling;
* `Source.report`: the report of a source, with the notices of its compilation;
* `CompileReport.store`, `CompileReport.load?`: a report as a text of a codec, and back;
* `CompileReport.toJson`, `CompileReport.ofJson?`: a report as JSON text, and back.
-/

namespace StackScript

/-- The outcome of a compilation. -/
structure CompileReport where
  source : String
  objectCode : Option String
  success : Bool
  failure : Option String
deriving DecidableEq

namespace CompileReport

/-- The report of a source that compiled to a listing. -/
def compiled (source listing : String) : CompileReport :=
  ⟨source, some listing, true, none⟩

/-- The report of a source that did not compile. -/
def failed (source : String) (e : ScriptError) : CompileReport :=
  ⟨source, none, false, some e.message⟩

/-! ### Writing -/

/-- A text that may be missing. -/
def optionalText : Option String → Json.Scalar
  | some s => .text s
  | none => .null

/-- The members of a report as an object. -/
def members (r : CompileReport) : List (String × Json.Scalar) :=
  [("source", .text r.source),
   ("object_code", optionalText r.objectCode),
   ("success", .bool r.success),
   ("error", optionalText r.failure)]

/-- The text of a report in a codec. -/
def store (codec : Json.Codec) (r : CompileReport) : Option String :=
  codec.write r.members

/-- The report as JSON text: an object with a member to a line. -/
def toJson (r : CompileReport) : String :=
  Json.writeObject r.members

/-! ### Reading -/

/-- A text. -/
def text? : Json → Option String
  | .string text => text
  | _ => none

/-- A text, or nothing in its place. -/
def optional? : Json → Option (Option String)
  | .null => some none
  | .string text => text.map some
  | _ => none

/-- A truth value. -/
def truth? : Json → Option Bool
  | .bool b => some b
  | _ => none

/-- The value of a member that must not be repeated, none if there is no such member. -/
def member? (members : List (Option String × Json)) (name : String) : Option (Option Json) :=
  match members.filter (·.1 = some name) with
  | [] => some none
  | [m] => some (some m.2)
  | _ => none

/-- A member that has to be there. -/
def required? {α : Type} (read : Json → Option α) (members : List (Option String × Json))
    (name : String) : Option α :=
  (member? members name).bind fun value => value.bind read

/-- A text in a member that may be missing. -/
def missable? (members : List (Option String × Json)) (name : String) :
    Option (Option String) :=
  (member? members name).bind fun value => (value.map optional?).getD (some none)

/-- The report of JSON data: an object, whose other members do not matter as long as their names are
texts, or an array of the four values in order. -/
def ofData? : Json → Option CompileReport
  | .object members => do
    guard (members.all (·.1.isSome))
    let source ← required? text? members "source"
    let objectCode ← missable? members "object_code"
    let success ← required? truth? members "success"
    let failure ← missable? members "error"
    return ⟨source, objectCode, success, failure⟩
  | .array [source, objectCode, success, failure] => do
    return ⟨← text? source, ← optional? objectCode, ← truth? success, ← optional? failure⟩
  | _ => none

/-- The report of a text in a codec. -/
def load? (codec : Json.Codec) (text : String) : Option CompileReport :=
  (codec.read text).bind ofData?

/-- The report of a JSON text. -/
def ofJson? (text : String) : Option CompileReport :=
  load? Json.standardCodec text

@[simp] theorem store_standardCodec (r : CompileReport) :
    r.store Json.standardCodec = some r.toJson := rfl

end CompileReport

/-- The report of a source, and the notices of its compilation. -/
def Source.report (s : Source) : CompileReport × List Notice :=
  match s.unit with
  | (.ok u, notices) => (.compiled s.text u.listing, notices)
  | (.error e, notices) =>
    (.failed s.text e, notices ++ [.compilationFailed s.filename e.message])

end StackScript
