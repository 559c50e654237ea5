import StackScript.Log
import StackScript.Text.Pattern.Meaning
import StackScript.Text.Terminal

/-!
Filters of the log: which notices are written to the error stream.

The text of a filter is a list of items between commas: a level for all components, a component that may
log everything, or a component with its level. Behind a slash it may have a pattern that messages have to
match. What is wrong in such a text is left out, and reported.

* `LogRule`, `LogFilter`, `FilterFault`: filters, and what is wrong with their texts;
* `LogFilter.admits`, `LogFilter.lines`: the notices that are let through, and their lines;
* `LogFilter.ofText`, `LogFilter.ofSetting`: the filter of a text, and of a text that may be missing.
-/

namespace StackScript

/-- One rule of a filter: the components that it is for, those whose name begins with its text or all
of them, and the least urgent level that it lets through, none if it lets nothing through. -/
structure LogRule where
  component : Option String
  level : Option Level

/-- What is wrong with the text of a filter. -/
inductive FilterFault where
  | tooManySlashes (text : String)
  | badItem (item : String)
  | badPattern (text : String) (fault : PatternFault)

/-- The fault in words. -/
def FilterFault.message : FilterFault → String
  | tooManySlashes text => "invalid logging spec '" ++ text ++ "' (too many '/'s)"
  | badItem item => "invalid logging spec '" ++ item ++ "'"
  | badPattern text fault => "invalid regex filter - " ++ fault.message text

/-- A filter: its rules, the pattern that messages have to match, and what was left out of it. -/
structure LogFilter where
  rules : List LogRule
  pattern : Option Pattern := none
  faults : List FilterFault := []

namespace LogRule

/-- A rule is for a component. -/
def covers (rule : LogRule) (component : String) : Bool :=
  match rule.component with
  | some text => component.startsWith text
  | none => true

/-- How much of the names of components a rule asks for, in bytes. -/
def breadth (rule : LogRule) : Nat :=
  (rule.component.getD "").utf8ByteSize

end LogRule

namespace LogFilter

/-! ### What is let through -/

/-- A component's rule is the one that asks for most of its name, the last of two that ask for as
much. -/
def ruleFor? (filter : LogFilter) (component : String) : Option LogRule :=
  filter.rules.foldl (fun best rule =>
    if rule.covers component then
      match best with
      | none => some rule
      | some b => if b.breadth ≤ rule.breadth then some rule else best
    else best) none

/-- A notice is let through when the rule for its component reaches its level, and the pattern, if there
is one, matches its message. -/
def admits (filter : LogFilter) (n : Notice) : Bool :=
  match filter.ruleFor? n.component with
  | some ⟨_, some level⟩ =>
    n.level.rank ≤ level.rank && filter.pattern.all (·.occursIn n.message)
  | _ => false

/-- The lines of the notices that are let through. Names and messages in them may hold anything, and what
would control a terminal is left out, of each line with its end apart from the others. -/
def lines (filter : LogFilter) (notices : List Notice) : String :=
  String.join ((notices.filter filter.admits).map fun n => withoutControls (n.line ++ "\n"))

/-- The lines about what was left out of a filter. -/
def warnings (filter : LogFilter) : String :=
  String.join (filter.faults.map fun f => "warning: " ++ f.message ++ ", ignoring it\n")

/-! ### Reading filters -/

/-- The word for a level in a filter, in any case; the word `off` lets nothing through. -/
def readLevel? (word : String) : Option (Option Level) :=
  match String.ofList (word.toList.map Char.toLower) with
  | "off" => some none
  | "error" => some (some .error)
  | "warn" => some (some .warn)
  | "info" => some (some .info)
  | "debug" => some (some .debug)
  | "trace" => some (some .trace)
  | _ => none

/-- The rule of an item. White space around a level does not matter, and a component without a level may
log everything. -/
def readRule (item : String) : Except FilterFault LogRule :=
  match item.splitOn "=" with
  | [word] =>
    match readLevel? word with
    | some level => .ok ⟨none, level⟩
    | none => .ok ⟨some word, some .trace⟩
  | [component, word] =>
    let word := trimmed word
    if word = "" then .ok ⟨some component, some .trace⟩
    else
      match readLevel? word with
      | some level => .ok ⟨some component, level⟩
      | none => .error (.badItem word)
  | _ => .error (.badItem item)

/-- Later rules take the place of earlier ones for the same components. -/
def addRule (rules : List LogRule) (rule : LogRule) : List LogRule :=
  if rules.any (·.component = rule.component) then
    rules.map fun r => if r.component = rule.component then rule else r
  else rules ++ [rule]

/-- Add the rule of an item, or what is wrong with it. -/
def addItem (filter : LogFilter) (item : String) : LogFilter :=
  match readRule item with
  | .ok rule => { filter with rules := addRule filter.rules rule }
  | .error fault => { filter with faults := filter.faults ++ [fault] }

/-- Add the pattern of a text, or what is wrong with it. -/
def addPattern (filter : LogFilter) (text : String) : LogFilter :=
  match Pattern.ofText text with
  | .ok p => { filter with pattern := some p }
  | .error fault => { filter with faults := filter.faults ++ [.badPattern text fault] }

/-- Errors of all components are let through where there is no rule. -/
def orErrors (filter : LogFilter) : LogFilter :=
  if filter.rules.isEmpty then { filter with rules := [⟨none, some .error⟩] } else filter

/-- The filter of the items of a text. -/
def ofItems (text : String) : LogFilter :=
  (((text.splitOn ",").map trimmed).filter (· ≠ "")).foldl addItem { rules := [] }

/-- The filter of a text. -/
def ofText (text : String) : LogFilter :=
  match text.splitOn "/" with
  | [items] => (ofItems items).orErrors
  | [items, pattern] => ((ofItems items).addPattern pattern).orErrors
  | _ => orErrors { rules := [], faults := [.tooManySlashes text] }

/-- Warnings and errors of all components. -/
def standard : LogFilter := { rules := [⟨none, some .warn⟩] }

/-- The filter that is set, if one is. -/
def ofSetting (setting : Option String) : LogFilter :=
  (setting.map ofText).getD standard

end LogFilter

end StackScript
