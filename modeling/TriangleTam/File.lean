/-!
# Files

What goes wrong with files, as it is told.
-/

namespace TriangleTam

namespace FileError

/-- What is done with a file. A new file is opened too. -/
inductive Operation where
  | opening
  | reading
deriving DecidableEq, Repr

/-- How the operation is called. -/
def Operation.name : Operation → String
  | opening => "open"
  | reading => "read"

/-- Why a file cannot be used. -/
inductive Reason where
  | missing
  | isDirectory
  | notDirectory
  | denied
  | nameTooLong
  | invalidName
  | other (text : String)
deriving DecidableEq, Repr

/-- What is said about the reason. -/
def Reason.message : Reason → String
  | missing => "no such file or directory"
  | isDirectory => "is a directory"
  | notDirectory => "not a directory"
  | denied => "permission denied"
  | nameTooLong => "file name too long"
  | invalidName => "invalid argument"
  | other text => text

end FileError

/-- What was done with which file, and why it failed. -/
structure FileError where
  operation : FileError.Operation
  path : String
  reason : FileError.Reason
deriving DecidableEq, Repr

/-- What is said about a file that cannot be used. -/
def FileError.message (e : FileError) : String :=
  e.operation.name ++ " " ++ e.path ++ ": " ++ e.reason.message

/-- What a file holds, or why it cannot be read. -/
abbrev Content := Except FileError (List UInt8)

/-- A computation that reads and writes files before it comes to a result. -/
inductive Job (α : Type) where
  | done (result : α)
  | read (path : String) (next : Content → Job α)
  | write (path text : String) (next : Option FileError → Job α)

end TriangleTam
