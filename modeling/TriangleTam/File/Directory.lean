import TriangleTam.File

/-!
# Directories

A directory in memory holds files under their paths. A directory of it exists as long as a file is
below it. Jobs run in it as they run on a disk: a path is walked step by step, each step from a
directory. Of what is around the directory nothing is known but that it is there.
-/

namespace TriangleTam

/-- The files below a directory, each under its path. -/
structure Directory where
  files : List (List String × List UInt8)
deriving DecidableEq, Repr

namespace Directory

/-- The steps of a path. -/
def steps (path : String) : List String :=
  (path.splitOn "/").filter (· != "")

/-- The directory with these files, named by their paths. -/
def ofFiles (files : List (String × List UInt8)) : Directory :=
  ⟨files.map fun f => ((steps f.1).filter (· != "."), f.2)⟩

/-- The content of the file at `place`. -/
def find? (d : Directory) (place : List String) : Option (List UInt8) :=
  d.files.lookup place

/-- Whether there is a directory at `place`. -/
def isDirectory (d : Directory) (place : List String) : Bool :=
  place.isEmpty || d.files.any fun f => place.isPrefixOf f.1 && place != f.1

/-- The directory with the file at `place` replaced or added. -/
def insert (d : Directory) (place : List String) (bytes : List UInt8) : Directory :=
  ⟨(place, bytes) :: d.files.filter (·.1 != place)⟩

/-- Files at other places are found whether or not those at `place` are left out. -/
theorem lookup_filter_ne {place other : List String} (h : other ≠ place)
    (files : List (List String × List UInt8)) :
    (files.filter (·.1 != place)).lookup other = files.lookup other := by
  induction files with
  | nil => rfl
  | cons f rest ih =>
    obtain ⟨name, bytes⟩ := f
    by_cases hf : name = place
    · have hne : (other == place) = false := by simpa using h
      simp [hf, ih, List.lookup_cons, hne]
    · simp [hf, ih, List.lookup_cons]

/-- After an insertion the file at `place` holds the new bytes, and every other file what it held. -/
theorem find?_insert (d : Directory) (place other : List String) (bytes : List UInt8) :
    (d.insert place bytes).find? other = if other = place then some bytes else d.find? other := by
  by_cases h : other = place
  · simp [find?, insert, h]
  · have hne : (other == place) = false := by simpa using h
    simp [find?, insert, List.lookup_cons, h, hne, lookup_filter_ne h]

/-- Where a path leads to. -/
inductive Place where
  /-- A place in this directory. -/
  | inside (place : List String)
  /-- A directory around this one. -/
  | around
  /-- The device that is always empty, whatever is written to it. -/
  | null
deriving DecidableEq, Repr

/-- How many bytes the name of a file can have. -/
def maxNameSize : Nat := 255

/-- How many bytes a path can have. -/
def maxPathSize : Nat := 4095

/-- The place one step further. -/
def enter (d : Directory) (p : Place) (step : String) : Except FileError.Reason Place :=
  match p with
  | .null => .error .notDirectory
  | .around => if step = "." ∨ step = ".." then .ok .around else .error .missing
  | .inside place =>
    if d.isDirectory place then
      if step = "." then .ok (.inside place)
      else if step = ".." then .ok (if place.isEmpty then .around else .inside place.dropLast)
      else if maxNameSize < step.utf8ByteSize then .error .nameTooLong
      else .ok (.inside (place ++ [step]))
    else .error (if (d.find? place).isSome then .notDirectory else .missing)

/-- The place a path leads to. An empty path leads nowhere. -/
def locate (d : Directory) (path : String) (steps : List String) : Except FileError.Reason Place :=
  if path.contains '\x00' then .error .invalidName
  else if maxPathSize < path.utf8ByteSize then .error .nameTooLong
  else if path = "" then .error .missing
  else if path.startsWith "/" then
    if steps.take 2 = ["dev", "null"] then (steps.drop 2).foldlM d.enter .null
    else steps.foldlM d.enter .around
  else steps.foldlM d.enter (.inside [])

/-- Whether the path says that a directory is at its end. -/
def endsOpen (path : String) : Bool :=
  path.endsWith "/"

/-- The content of the file at `path`. A directory can be opened, but not read. -/
def read (d : Directory) (path : String) : Content :=
  match d.locate path (steps path ++ if endsOpen path then ["."] else []) with
  | .error r => .error ⟨.opening, path, r⟩
  | .ok .null => .ok []
  | .ok .around => .error ⟨.reading, path, .isDirectory⟩
  | .ok (.inside place) =>
    if d.isDirectory place then .error ⟨.reading, path, .isDirectory⟩
    else
      match d.find? place with
      | some bytes => .ok bytes
      | none => .error ⟨.opening, path, .missing⟩

/-- The directory after a text was written to the file at `path`. The directory of the file has to
be there. -/
def write (d : Directory) (path text : String) : Except FileError Directory :=
  let fail (r : FileError.Reason) : Except FileError Directory := .error ⟨.opening, path, r⟩
  let steps := steps path
  match d.locate path (if endsOpen path then steps.dropLast ++ ["."] else steps) with
  | .error r => fail r
  | .ok .null => .ok d
  | .ok .around => fail .isDirectory
  | .ok (.inside place) =>
    if endsOpen path ∨ d.isDirectory place then fail .isDirectory
    else .ok (d.insert place text.toUTF8.toList)

end Directory

/-- Runs a job in a directory. -/
def Job.runIn {α : Type} (d : Directory) : Job α → α × Directory
  | done result => (result, d)
  | read path next => (next (d.read path)).runIn d
  | write path text next =>
    match d.write path text with
    | .error e => (next (some e)).runIn d
    | .ok d' => (next none).runIn d'

end TriangleTam
