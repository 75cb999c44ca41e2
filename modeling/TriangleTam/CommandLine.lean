import TriangleTam.CommandLine.Help
import TriangleTam.CommandLine.Request
import TriangleTam.Compilation
import TriangleTam.File
import TriangleTam.Settings.Load
import TriangleTam.Tree.Format

/-!
# The command line

Every command runs a compilation up to its stage and shows what that stage came to. Settings are
loaded before the program is opened. What was found wrong with the program is told last, except that
code is shown only if nothing was.
-/

namespace TriangleTam.CommandLine

/-- The version of the program. -/
def version : String := "0.1.0-dev"

/-- Why a command failed. -/
inductive Failure where
  | usage (e : UsageError)
  | settings (e : Settings.LoadError)
  | opening (e : FileError)
  | compilation (e : Compilation.Failure)
  | unknownFormat (name : String)
  | output (e : FileError)
  /-- Something is wrong with the program, and was told already. -/
  | reported

/-- What is said about a command that failed. -/
def Failure.message : Failure → String
  | usage e => e.message
  | settings e => e.message
  | opening e => "opening source: " ++ e.message
  | compilation e => e.message
  | unknownFormat name => "unknown format " ++ Text.quoted name ++ " (want text, json or yaml)"
  | output e => "creating output: " ++ e.message
  | reported => "compilation failed"

/-- What a command shows, and why it failed. -/
structure Outcome where
  stdout : String := ""
  stderr : String := ""
  failure : Option Failure := none

namespace Outcome

/-- A failure with nothing shown. -/
def failed (f : Failure) : Outcome :=
  { failure := some f }

/-- Shows `text`, then what was found wrong with the program. -/
def report (text : String) (c : Compilation) : Outcome :=
  match Diagnostics.summary? c.diagnostics with
  | none => { stdout := text }
  | some summary => ⟨text, summary ++ "\n", some .reported⟩

end Outcome

/-- The size of a compiled program. -/
def statistics (c : Compilation) (code : List Machine.Instruction) : String :=
  c.file ++ ": " ++ Text.grouped code.length ++ " instructions, "
    ++ Text.grouped (c.frameSize.getD 0) ++ " words of storage\n"

/-- Shows the code of a program, or writes it to a file, or both. -/
def showCode (o : Options) (s : Settings) (c : Compilation) (code : List Machine.Instruction) :
    Job Outcome :=
  let listing := Machine.listing code
  let shown : Outcome :=
    { stdout := if o.output = "" ∨ s.listing then listing else ""
      stderr := statistics c code }
  if o.output = "" then .done shown
  else
    .write o.output listing fun
      | some e => .done (.failed (.output e))
      | none => .done shown

/-- Shows what the last stage of a compilation came to. -/
def present (last : Stage) (o : Options) (s : Settings) (c : Compilation) : Job Outcome :=
  match last with
  | .scan => .done (.report (Token.table c.tokens) c)
  | .parse =>
    match Format.ofName? o.format with
    | some f => .done (.report (f.render (c.program.map Node.program)) c)
    | none => .done (.failed (.unknownFormat o.format))
  | .check =>
    let shown := Format.render .text (c.program.map Node.program)
      ++ "frame size: " ++ toString (c.frameSize.getD 0) ++ "\n"
    .done (.report (if o.quiet then "" else shown) c)
  | .generate =>
    match c.code with
    | some code => showCode o s c code
    | none => .done (.report "" c)

/-- The text of a settings file. -/
def settingsText (path : String) (content : Content) : Except FileError String :=
  match content with
  | .error e => .error e
  | .ok bytes =>
    match String.fromUTF8? ⟨bytes.toArray⟩ with
    | some text => .ok text
    | none => .error ⟨.reading, path, .other "invalid UTF-8"⟩

/-- The program text in an opened file, or why the file cannot be opened. -/
def programInput (content : Content) : Except FileError Input :=
  match content with
  | .ok bytes => .ok { bytes := bytes }
  | .error e =>
    if e.operation = .opening then .error e
    else .ok { bytes := [], readFault := some e.message }

/-- Compiles a program that is given by its file, up to the stage `last`. -/
def compileFile (last : Stage) (file : String) (o : Options) : Job Outcome :=
  let config := Settings.fileFor o.config
  .read config fun content =>
    match Settings.load o.config (settingsText config content) with
    | .error e => .done (.failed (.settings e))
    | .ok loaded =>
      let settings := o.apply loaded
      .read file fun content =>
        match programInput content with
        | .error e => .done (.failed (.opening e))
        | .ok input =>
          match Compilation.run file input settings last with
          | .error e => .done (.failed (.compilation e))
          | .ok c => present last o settings c

/-- Does what the arguments ask for. -/
def run (args : List String) : Job Outcome :=
  match Request.ofArguments args with
  | .error e => .done (.failed (.usage e))
  | .ok (.help command) => .done { stdout := command.helpText }
  | .ok .version => .done { stdout := Command.root.name ++ " version " ++ version ++ "\n" }
  | .ok (.run last file options) => compileFile last file options

end TriangleTam.CommandLine
