import CssLex.Config.Basic
import CssLex.Toml.Document

/-!
Settings read from a document. A section is a table whose keys are all known, or an array with its
values in order; what is left out has its default.
-/

namespace CssLex
namespace Config

/-- The values of some fields: under their names in a table that has no other names, or in their
order in an array. -/
def fieldsOf (names : List String) (section_ : Toml) : Option (List (Option Toml)) :=
  match section_.entries?, section_.items? with
  | some entries, _ =>
    if entries.all fun entry => names.contains entry.1 then
      some (names.map fun name => entries.lookup name)
    else none
  | none, some items => some ((List.range names.length).map fun i => items[i]?)
  | none, none => none

/-- A setting that is either on or off. -/
def switch (default : Bool) : Option Toml → Option Bool
  | none => some default
  | some (.boolean b) => some b
  | some _ => none

/-- A setting that is a number of things. -/
def quantity (default : Nat) : Option Toml → Option Nat
  | none => some default
  | some (.integer n) => if 0 ≤ n then some n.toNat else none
  | some _ => none

/-- The name of a choice: a string, or a table with the name as its only key and nothing under
it. -/
def choiceName? : Toml → Option String
  | .string name => some name
  | .table _ [(name, .table _ [])] => some name
  | .table _ [(name, .array [])] => some name
  | _ => none

/-- A setting that is one of several named values. -/
def choice {α : Type} (default : α) (named : List (String × α)) : Option Toml → Option α
  | none => some default
  | some value => (choiceName? value).bind fun name => named.lookup name

/-- The fields of a section of the document, all absent if the section is. -/
def sectionFields (names : List String) : Option Toml → Option (List (Option Toml))
  | none => some (names.map fun _ => none)
  | some section_ => fieldsOf names section_

/-- The settings that a document makes. -/
def ofEntries? (entries : Toml.Entries) : Option Config := do
  let sections ←
    fieldsOf ["tokenizer", "diagnostics", "output"] (.table .declared entries)
  let tokenizer ←
    sectionFields ["skip_insignificant", "reader_buffer_size"] (sections[0]?.join)
  let diagnostics ← sectionFields ["malformed"] (sections[1]?.join)
  let output ← sectionFields ["format"] (sections[2]?.join)
  let defaults : Config := {}
  let skipInsignificant ← switch defaults.skipInsignificant (tokenizer[0]?.join)
  let bufferSize ← quantity defaults.bufferSize (tokenizer[1]?.join)
  let malformed ←
    choice defaults.malformed [("error", .error), ("warning", .warning), ("ignore", .ignore)]
      (diagnostics[0]?.join)
  let format ←
    choice defaults.format [("text", .text), ("json", .json), ("css", .css)] (output[0]?.join)
  pure { skipInsignificant, bufferSize, malformed, format }

/-- The settings that a text makes. An empty buffer is found last. -/
def parse (text : String) : Except ConfigError Config :=
  match (Toml.read? text).bind ofEntries? with
  | none => .error .malformed
  | some config => if config.bufferSize = 0 then .error .emptyBuffer else .ok config

end Config
end CssLex
