import TriangleTam.File
import TriangleTam.Settings.Document

/-!
# Settings files

Settings are read from a file over the default ones. A file that is named has to be there; without
a name, the file at the usual place counts if it is there.
-/

namespace TriangleTam.Settings

/-- The file that is read unless another one is named. -/
def defaultFile : String := ".tamc.yaml"

/-- The file to read if `path` is named; an empty path names none. -/
def fileFor (path : String) : String :=
  if path = "" then defaultFile else path

/-- Why settings cannot be loaded from a file. -/
inductive LoadError where
  | reading (path : String) (e : FileError)
  | parsing (path : String) (e : DocumentError)
  | invalid (path : String) (e : RangeError)

/-- What is said about settings that cannot be loaded. -/
def LoadError.message : LoadError → String
  | reading path e => "reading config " ++ path ++ ": " ++ e.message
  | parsing path e => "parsing config " ++ path ++ ": " ++ e.message
  | invalid path e => "invalid config " ++ path ++ ": " ++ e.message

/-- Loads settings, where `content` is what reading `fileFor path` came to. -/
def load (path : String) (content : Except FileError String) : Except LoadError Settings :=
  let file := fileFor path
  match content with
  | .error e => if path = "" ∧ e.reason = .missing then .ok {} else .error (.reading file e)
  | .ok text =>
    match ofText {} text with
    | .error e => .error (.parsing file e)
    | .ok s =>
      match s.rangeError? with
      | some e => .error (.invalid file e)
      | none => .ok s

end TriangleTam.Settings
