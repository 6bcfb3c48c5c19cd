import CssLex.Config.Decode

/-!
Finding the configuration file that governs an input: the nearest one in the directory of the input
or above it.
-/

namespace CssLex
namespace Config

/-- The nearest configuration file in a directory or above it. Only a regular file counts. -/
def find? (fs : FileSystem) (start : Path) : Option Path :=
  (start.ancestors.map (·.join fileName)).find? fs.isFile

/-- The settings in a file. -/
def load (fs : FileSystem) (p : Path) : Except ConfigError Config :=
  match fs.readText p with
  | .error reason => .error (.unreadable reason)
  | .ok text => (parse text).map fun config => { config with source := some p }

/-- The settings in the nearest file from a directory upwards. -/
def loadFrom (fs : FileSystem) (start : Path) : Except ConfigError Config :=
  match find? fs start with
  | some p => load fs p
  | none => .error (.notFound start)

/-- Where the search for an input begins: in the input if it is a directory, else beside it. -/
def searchStart (fs : FileSystem) (input : Path) : Path :=
  if fs.isDirectory input then input else input.parent?.getD (.ofString ".")

/-- The settings that govern an input. -/
def loadFor (fs : FileSystem) (input : Path) : Except ConfigError Config :=
  loadFrom fs (searchStart fs input)

/-- The settings of a run. An explicit file has to load; else the file that governs the input, or
the current directory if there is none, is used if it exists. -/
def resolve (fs : FileSystem) (explicit input : Option Path) : Except ConfigError Config :=
  match explicit with
  | some p => load fs p
  | none =>
    let found :=
      match input with
      | some p => loadFor fs ((fs.canonical? p).getD p)
      | none => loadFrom fs (.ofNames fs.current)
    match found with
    | .error (.notFound _) => .ok {}
    | found => found

end Config
end CssLex
