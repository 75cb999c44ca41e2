import TriangleTam.CommandLine.Flag
import TriangleTam.Compilation
import TriangleTam.Text.EditDistance
import TriangleTam.Text.LowerCase

/-!
# Commands

The first word among the arguments names the command. Flags may stand before it, so it takes some
care to tell a word from the value of a flag; what counts here are the flags that all commands
share.
-/

namespace TriangleTam.CommandLine

/-- A command; `root` stands for none. -/
inductive Command where
  | root
  | tokens
  | ast
  | check
  | compile
  | help
  | completion
deriving DecidableEq, Repr

/-- The flags that every command has. -/
def sharedFlags : List Flag :=
  [.config, .lenient, .verbose, .logToStderr]

namespace Command

/-- The commands that a word can name. -/
def all : List Command :=
  [tokens, ast, check, compile, help, completion]

/-- The word for the command. -/
def name : Command → String
  | root => "tamc"
  | tokens => "tokens"
  | ast => "ast"
  | check => "check"
  | compile => "compile"
  | help => "help"
  | completion => "completion"

/-- The flags of the command. -/
def flags : Command → List Flag
  | root => sharedFlags ++ [.help, .version]
  | ast => sharedFlags ++ [.format, .help]
  | check => sharedFlags ++ [.quiet, .help]
  | compile => sharedFlags ++ [.output, .help]
  | tokens | help | completion => sharedFlags ++ [.help]

/-- The last stage that a command runs, if it runs any. -/
def stage? : Command → Option Stage
  | tokens => some .scan
  | ast => some .parse
  | check => some .check
  | compile => some .generate
  | root | help | completion => none

/-- The command with this name. -/
def ofName? (word : String) : Option Command :=
  all.find? (·.name == word)

end Command

/-- Whether an argument is a flag of which the value is the next argument. A flag that is not shared
is taken for one. -/
def takesNext (arg : String) : Bool :=
  let known (p : Flag → Bool) : Bool := sharedFlags.any fun f => p f && f.isSwitch
  if arg.contains '=' then false
  else
    match arg.toList with
    | '-' :: '-' :: name => !known (·.name == String.ofList name)
    | ['-', c] => decide (c.toNat < 0x80) && !known (·.short? == some c)
    | _ => false

/-- Whether an argument is a word: it is not empty and does not start with a dash. -/
def isPlain (arg : String) : Bool :=
  arg != "" && !arg.startsWith "-"

/-- The words among the arguments. A flag that takes the last argument for its value ends them. -/
def plainWords : List String → List String
  | [] => []
  | arg :: rest =>
    if arg = "--" then []
    else if takesNext arg then
      match rest with
      | [] | [_] => []
      | _ :: rest => plainWords rest
    else if isPlain arg then arg :: plainWords rest
    else plainWords rest

/-- The arguments without the first word that is `word`. -/
def dropWord (word : String) : List String → List String
  | [] => []
  | arg :: rest =>
    if arg = "--" then arg :: rest
    else if takesNext arg then
      match rest with
      | [] => [arg]
      | value :: rest => arg :: value :: dropWord word rest
    else if arg = word then rest
    else arg :: dropWord word rest

/-- The bytes of a text in lower case. -/
def lowerBytes (s : String) : List UInt8 :=
  (String.ofList (Text.lower s)).toUTF8.toList

/-- The names of commands that `word` may stand for: it differs little, or is how they start. -/
def similar (word : String) : List String :=
  (Command.all.filter (· ≠ .help)).map (·.name) |>.filter fun name =>
    decide (Text.editDistance (lowerBytes word) (lowerBytes name) ≤ 2) ||
      (lowerBytes word).isPrefixOf (lowerBytes name)

end TriangleTam.CommandLine
