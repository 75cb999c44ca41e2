import TriangleTam.Settings
import TriangleTam.Text.Integer
import TriangleTam.Text.Quoted

/-!
# Flags

The flags of the command line, and the options that they set. Where settings are chosen both in a
file and by a flag, the flag wins, so the options keep whether such a flag was given.
-/

namespace TriangleTam.CommandLine

/-- A flag of the command line. -/
inductive Flag where
  | config
  | lenient
  | verbose
  | logToStderr
  | format
  | quiet
  | output
  | help
  | version
deriving DecidableEq, Repr

namespace Flag

/-- The flag as it is written after two dashes. -/
def name : Flag → String
  | config => "config"
  | lenient => "lenient"
  | verbose => "verbose"
  | logToStderr => "logtostderr"
  | format => "format"
  | quiet => "quiet"
  | output => "output"
  | help => "help"
  | version => "version"

/-- The flag as it is written after one dash. -/
def short? : Flag → Option Char
  | verbose => some 'v'
  | quiet => some 'q'
  | output => some 'o'
  | help => some 'h'
  | _ => none

/-- Whether the flag turns something on and so needs no value. -/
def isSwitch : Flag → Bool
  | lenient | logToStderr | quiet | help | version => true
  | config | verbose | format | output => false

/-- All ways to write the flag. -/
def title (f : Flag) : String :=
  match f.short? with
  | some c => "-" ++ String.singleton c ++ ", --" ++ f.name
  | none => "--" ++ f.name

end Flag

/-- What the flags of a command line came to. -/
structure Options where
  /-- The settings file; an empty path stands for the usual one. -/
  config : String := ""
  lenient : Option Bool := none
  verbose : Option Int := none
  logToStderr : Bool := false
  /-- The name of the form in which a tree is shown. -/
  format : String := "text"
  quiet : Bool := false
  /-- The file to which the listing is written; an empty path stands for none. -/
  output : String := ""
  help : Bool := false
  version : Bool := false
deriving DecidableEq, Repr

/-- Why a value does not suit a flag. -/
inductive ValueError where
  | truth
  | number (e : Text.NumberError)
deriving DecidableEq, Repr

/-- What is said about `value`, which does not suit a flag. -/
def ValueError.message (value : String) : ValueError → String
  | truth => "strconv.ParseBool: parsing " ++ Text.quoted value ++ ": invalid syntax"
  | number e => "strconv.ParseInt: parsing " ++ Text.quoted value ++ ": " ++ e.message

/-- The truth value that a text stands for. -/
def truth (value : String) : Except ValueError Bool :=
  if value ∈ ["1", "t", "T", "true", "TRUE", "True"] then .ok true
  else if value ∈ ["0", "f", "F", "false", "FALSE", "False"] then .ok false
  else .error .truth

/-- The number that a text stands for. -/
def number (value : String) : Except ValueError Int :=
  (Text.integer value).mapError .number

namespace Options

/-- The options after a flag was given with a value. The last value of a flag counts. -/
def set (o : Options) (flag : Flag) (value : String) : Except ValueError Options :=
  match flag with
  | .config => .ok { o with config := value }
  | .lenient => (truth value).map fun b => { o with lenient := some b }
  | .verbose => (number value).map fun n => { o with verbose := some n }
  | .logToStderr => (truth value).map fun b => { o with logToStderr := b }
  | .format => .ok { o with format := value }
  | .quiet => (truth value).map fun b => { o with quiet := b }
  | .output => .ok { o with output := value }
  | .help => (truth value).map fun b => { o with help := b }
  | .version => (truth value).map fun b => { o with version := b }

/-- The settings under these options. -/
def apply (o : Options) (s : Settings) : Settings :=
  { s with
    lenient := o.lenient.getD s.lenient
    verbose := o.verbose.getD s.verbose }

end Options

end TriangleTam.CommandLine
