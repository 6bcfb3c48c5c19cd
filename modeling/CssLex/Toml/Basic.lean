/-!
Documents of the configuration format, and how statements extend them. A table remembers where it
comes from, because that decides which later statements may add to it.
-/

namespace CssLex

/-- Where a table comes from. -/
inductive Toml.Origin where
  /-- It is written in braces as a value. -/
  | braces
  /-- It lies on the way of a dotted key. -/
  | dotted
  /-- It lies on the way of a header. -/
  | implied
  /-- It has a header of its own, or it is the whole document. -/
  | declared
deriving Repr, DecidableEq

/-- The values of a document. -/
inductive Toml where
  | string (text : String)
  | integer (value : Int)
  | float (value : Float)
  | boolean (value : Bool)
  /-- A date, a time of day, or both, as it is written. -/
  | datetime (text : String)
  | array (items : List Toml)
  | table (origin : Toml.Origin) (entries : List (String × Toml))
  /-- Tables under repeated headers; the last one may still be extended. -/
  | tables (earlier : List (List (String × Toml))) (last : List (String × Toml))

namespace Toml

/-- The keys of a table with their values. -/
abbrev Entries := List (String × Toml)

namespace Entries

/-- Gives a key another value, in its old place or behind all others. -/
def put (key : String) (value : Toml) : Entries → Entries
  | [] => [(key, value)]
  | (k, v) :: entries => if k = key then (k, value) :: entries else (k, v) :: put key value entries

/-- Changes the table at the end of a path, where missing tables are made on the way. A path passes
through the last one of repeated tables, but not through a value; a dotted path does not enter a
table that has its own header. -/
def alter (dotted : Bool) (change : Origin → Entries → Option Entries) :
    Origin → List String → Entries → Option Entries
  | origin, [], entries => change origin entries
  | _, key :: path, entries =>
    match entries.lookup key with
    | none =>
      let origin := if dotted then .dotted else .implied
      (alter dotted change origin path []).map fun inner => put key (.table origin inner) entries
    | some (.table origin inner) =>
      if origin = .braces || (dotted && origin = .declared) then none
      else
        (alter dotted change origin path inner).map fun inner =>
          put key (.table origin inner) entries
    | some (.tables earlier last) =>
      (alter dotted change .declared path last).map fun last =>
        put key (.tables earlier last) entries
    | some _ => none

/-- Adds a value under a new key. Behind a dotted path the table has to be one that dotted keys
made. -/
def define (path : List String) (key : String) (value : Toml) (origin : Origin)
    (entries : Entries) : Option Entries :=
  let change (origin : Origin) (entries : Entries) : Option Entries :=
    if !path.isEmpty && origin ≠ .dotted then none
    else if (entries.lookup key).isSome then none
    else some (put key value entries)
  alter true change origin path entries

/-- Opens the table of a header. It may exist already if it only lay on the way of others. -/
def openTable (path : List String) (key : String) (entries : Entries) : Option Entries :=
  let change (_ : Origin) (entries : Entries) : Option Entries :=
    match entries.lookup key with
    | none => some (put key (.table .declared []) entries)
    | some (.table .implied inner) => some (put key (.table .declared inner) entries)
    | some _ => none
  alter false change .declared path entries

/-- Opens one more table of a repeated header. -/
def openRepeated (path : List String) (key : String) (entries : Entries) : Option Entries :=
  let change (_ : Origin) (entries : Entries) : Option Entries :=
    match entries.lookup key with
    | none => some (put key (.tables [] []) entries)
    | some (.tables earlier last) => some (put key (.tables (earlier ++ [last]) []) entries)
    | some _ => none
  alter false change .declared path entries

/-- Defines a key in the table at the end of a header. -/
def defineUnder (header path : List String) (key : String) (value : Toml) (entries : Entries) :
    Option Entries :=
  alter false (define path key value) .declared header entries

end Entries

/-- The entries of a table in any form. -/
def entries? : Toml → Option Entries
  | table _ entries => some entries
  | _ => none

/-- The items of an array, or the tables under a repeated header. -/
def items? : Toml → Option (List Toml)
  | array items => some items
  | tables earlier last => some ((earlier ++ [last]).map (table .declared))
  | _ => none

end Toml
end CssLex
