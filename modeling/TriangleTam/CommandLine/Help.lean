import TriangleTam.CommandLine.Command
import TriangleTam.Settings.Load
import TriangleTam.Text.Decimal

/-!
# Help

What is shown to someone who asks how a command is used.
-/

namespace TriangleTam.CommandLine

/-- What the flag is for. -/
def Flag.purpose : Flag → String
  | config => "Settings file (default " ++ Settings.defaultFile ++ " if present)"
  | lenient => "Do not report missing tokens"
  | verbose => "Enable verbose logging (e.g., v=3); anything >3 is very verbose"
  | logToStderr => "Log to stderr instead of to files"
  | format => "Output format: text, json or yaml"
  | quiet => "Only print diagnostics"
  | output => "Write the listing to this file"
  | help => "Show this help"
  | version => "Show the version"

namespace Command

/-- What the command is for. -/
def purpose : Command → String
  | root => "Compile Triangle programs to TAM code"
  | tokens => "Print the token stream of a program"
  | ast => "Print the syntax tree of a program"
  | check => "Check a program and print its annotated syntax tree"
  | compile => "Compile a program and print its TAM listing"
  | help => "Help about any command"
  | completion => "Complete commands in a shell"

/-- How the command is written. -/
def usage (c : Command) : String :=
  match c.stage? with
  | some _ => root.name ++ " " ++ c.name ++ " <file>"
  | none => if c = root then root.name ++ " [command]" else root.name ++ " " ++ c.name

/-- The help on a command: its purpose, how it is written, and its flags. -/
def helpText (c : Command) : String :=
  let row (title purpose : String) : String := "  " ++ Text.padRight 16 title ++ purpose ++ "\n"
  let commands : String :=
    if c = root then "\nCommands:\n" ++ String.join (all.map fun k => row k.name k.purpose) else ""
  c.purpose ++ "\n\nUsage:\n  " ++ c.usage ++ "\n" ++ commands
    ++ "\nFlags:\n" ++ String.join (c.flags.map fun f => row f.title f.purpose)

end Command

end TriangleTam.CommandLine
