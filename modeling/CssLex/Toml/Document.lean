import CssLex.Toml.Scalar

/-!
Arrays, tables and whole documents of the configuration format.
-/

namespace CssLex
namespace Toml.Grammar

open Reader

/-- An array of values, with a comma behind the last one or without. -/
def arrayOf (value : Reader Toml) : Reader Toml := do
  let item : Reader Toml := do
    gap
    let v ← value
    gap
    pure v
  let comma : Reader Unit := do
    let _ ← char ','
    pure ()
  let _ ← char '['
  let items ← option (separated comma item)
  if items.isSome then
    let _ ← option comma
  gap
  let _ ← char ']'
  pure (.array (items.getD []))

/-- A key and its value. -/
def pairOf (value : Reader Toml) : Reader ((List String × String) × Toml) := do
  let k ← key
  let _ ← char '='
  space
  let v ← value
  pure (k, v)

/-- The table that some keys with their values make up, unless a key comes twice. -/
def tableOfPairs : List ((List String × String) × Toml) → Entries → Option Entries
  | [], entries => some entries
  | ((path, key), value) :: pairs, entries => do
    let entries ← entries.define path key value .braces
    tableOfPairs pairs entries

/-- A table in braces on one line, without a comma behind its last value. -/
def bracesOf (value : Reader Toml) : Reader Toml := do
  let comma : Reader Unit := do
    let _ ← char ','
    pure ()
  let pair : Reader ((List String × String) × Toml) := do
    let p ← pairOf value
    space
    pure p
  let _ ← char '\x7b'
  let pairs ← option (separated comma pair)
  space
  let _ ← char '\x7d'
  match tableOfPairs (pairs.getD []) [] with
  | some entries => pure (.table .braces entries)
  | none => failure

/-- A value whose parts are nested at most this deep. -/
def valueWithin : Nat → Reader Toml
  | 0 => scalar
  | depth + 1 =>
    scalar <|> arrayOf (valueWithin depth) <|> bracesOf (valueWithin depth)

/-- A value. -/
def value : Reader Toml := valueWithin depthLimit

/-- The statements of a document. -/
inductive Statement where
  /-- A line without content. -/
  | blank
  | pair (path : List String) (key : String) (value : Toml)
  | header (path : List String) (key : String)
  | repeatedHeader (path : List String) (key : String)

/-- A statement with the end of its line. -/
def statement : Reader Statement :=
  (do
    let _ ← option comment
    newline
    pure .blank) <|>
  (do
    comment
    endOfInput
    pure .blank) <|>
  (do
    exactly ['[', '[']
    let (path, last) ← key
    exactly [']', ']']
    trailing
    pure (.repeatedHeader path last)) <|>
  (do
    let _ ← char '['
    let (path, last) ← key
    let _ ← char ']'
    trailing
    pure (.header path last)) <|>
  (do
    let ((path, last), v) ← pairOf value
    trailing
    pure (.pair path last v))

/-- All statements of a document, which may start with a byte order mark. -/
def statements : Reader (List Statement) := do
  let _ ← option (char '\uFEFF')
  space
  let found ← many do
    let s ← statement
    space
    pure s
  endOfInput
  pure found

end Toml.Grammar

namespace Toml

/-- Carries statements out behind a header. -/
def carryOut : List Grammar.Statement → List String → Entries → Option Entries
  | [], _, entries => some entries
  | .blank :: rest, header, entries => carryOut rest header entries
  | .pair path key value :: rest, header, entries => do
    let entries ← entries.defineUnder header path key value
    carryOut rest header entries
  | .header path key :: rest, _, entries => do
    let entries ← entries.openTable path key
    carryOut rest (path ++ [key]) entries
  | .repeatedHeader path key :: rest, _, entries => do
    let entries ← entries.openRepeated path key
    carryOut rest (path ++ [key]) entries

/-- The table that a text describes, if it is a document. -/
def read? (text : String) : Option Entries := do
  let (found, _) ← Grammar.statements text.toList
  carryOut found [] []

end Toml
end CssLex
