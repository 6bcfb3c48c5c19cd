/-!
Paths as they are written. A path keeps its spelling, so what is found along it is named in the
same way: doubled slashes and dots stay, though they lead nowhere.
-/

namespace CssLex

/-- A path as it is written. -/
structure Path where
  /-- The pieces between the slashes. An absolute path has an empty one in front. -/
  pieces : List String
deriving Repr, DecidableEq

namespace Path

/-- The pieces of a text between slashes. -/
def split : List Char → List (List Char)
  | [] => [[]]
  | c :: rest =>
    if c = '/' then [] :: split rest
    else
      match split rest with
      | [] => [[c]]
      | piece :: more => (c :: piece) :: more

/-- The path that a text writes. -/
def ofString (text : String) : Path := ⟨(split text.toList).map String.ofList⟩

/-- The absolute path with these names. -/
def ofNames (names : List String) : Path := ⟨"" :: if names = [] then [""] else names⟩

/-- The text of a path. -/
def render (p : Path) : String := String.intercalate "/" p.pieces

/-- Whether a path starts from the root. -/
def isAbsolute (p : Path) : Bool := p.pieces.head? = some "" && 1 < p.pieces.length

/-- Whether a piece is a name. An empty piece and a dot lead nowhere. -/
def isName (piece : String) : Bool := piece ≠ "" && piece ≠ "."

/-- The names on the way. Two dots are one of them. -/
def names (p : Path) : List String := p.pieces.filter isName

/-- Whether the end of the path asks for a directory. -/
def endsInDirectory (p : Path) : Bool := 1 < p.pieces.length && !p.pieces.getLast?.any isName

/-- The path with a name behind it. -/
def join (p : Path) (name : String) : Path :=
  ⟨(if p.pieces.getLast? = some "" then p.pieces.dropLast else p.pieces) ++ [name]⟩

/-- Some reversed pieces and all that is left when they are taken off one by one. -/
def prefixesOfReversed : List String → List (List String)
  | [] => [[]]
  | piece :: rest => (piece :: rest).reverse :: prefixesOfReversed rest

/-- The parts of a path up to one of its names, the longest part first. -/
def stems (p : Path) : List Path :=
  let endsInName (pieces : List String) : Bool := pieces.getLast?.any isName
  ((prefixesOfReversed p.pieces.reverse).filter endsInName).map Path.mk

/-- What is left of a path without its names: the root, a dot in front and then nothing, or
nothing. -/
def origins (p : Path) : List Path :=
  if p.isAbsolute then [⟨["", ""]⟩]
  else if p.pieces.head? = some "." then [⟨["."]⟩, ⟨[""]⟩]
  else [⟨[""]⟩]

/-- The path and its parents, the path itself in front. Each parent ends in a name, as long as
there are any. -/
def ancestors (p : Path) : List Path := p :: (p.stems ++ p.origins).tail

/-- The path without its last name, if it has a parent. -/
def parent? (p : Path) : Option Path := p.ancestors[1]?

end Path
end CssLex
