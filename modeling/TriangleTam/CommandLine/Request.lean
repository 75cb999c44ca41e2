import TriangleTam.CommandLine.Command

/-!
# Requests

Reading the arguments of the command line. Flags and words may stand in any order; after `--` there
are only words. A flag is written `--name=value` or `--name value`, and one with a letter also
`-nvalue`, `-n=value` or `-n value`; switches with letters can be written together. A switch is on
where it has no value.
-/

namespace TriangleTam.CommandLine

/-- What is wrong with a command line. -/
inductive UsageError where
  | unknownCommand (word : String)
  | malformedFlag (arg : String)
  | unknownFlag (name : String)
  | unknownLetter (first : Char) (rest : List Char)
  | missingValue (flag : Flag)
  | missingLetterValue (letter : Char)
  | badValue (flag : Flag) (value : String) (e : ValueError)
  | wordCount (received : Nat)
deriving DecidableEq, Repr

namespace UsageError

/-- The character whose code is the first byte of `c`. -/
def firstByte (c : Char) : Char :=
  Char.ofNat (((String.singleton c).toUTF8.toList.headD 0).toNat)

/-- The list of what a word may stand for. -/
def suggestions : List String → String
  | [] => ""
  | names => "\n\nDid you mean this?\n" ++ String.join (names.map fun n => "\t" ++ n ++ "\n")

/-- What is said about a command line that is wrong. -/
def message : UsageError → String
  | unknownCommand word =>
    "unknown command " ++ Text.quoted word ++ " for " ++ Text.quoted Command.root.name
      ++ suggestions (similar word)
  | malformedFlag arg => "bad flag syntax: " ++ arg
  | unknownFlag name => "unknown flag: --" ++ name
  | unknownLetter first rest =>
    "unknown shorthand flag: " ++ Text.quotedChar (firstByte first) ++ " in -"
      ++ String.ofList (first :: rest)
  | missingValue flag => "flag needs an argument: --" ++ flag.name
  | missingLetterValue letter =>
    "flag needs an argument: " ++ Text.quotedChar letter ++ " in -" ++ String.singleton letter
  | badValue flag value e =>
    "invalid argument " ++ Text.quoted value ++ " for " ++ Text.quoted flag.title ++ " flag: "
      ++ e.message value
  | wordCount received => "accepts 1 arg(s), received " ++ toString received

end UsageError

/-- What an argument sets. -/
structure Setting where
  flag : Flag
  value : String
deriving DecidableEq, Repr

/-- A flag of which the value has to follow, and what is wrong if nothing follows. -/
structure Pending where
  flag : Flag
  otherwise : UsageError
deriving DecidableEq, Repr

/-- What an argument is. -/
inductive Argument where
  | word (text : String)
  /-- The mark after which there are only words. -/
  | wordsOnly
  | flags (settings : List Setting) (pending : Option Pending)
deriving DecidableEq, Repr

/-- Reads what stands after two dashes. -/
def longFlag (known : List Flag) (text : List Char) : Except UsageError Argument :=
  match text with
  | [] => .ok .wordsOnly
  | c :: _ =>
    if c = '-' ∨ c = '=' then .error (.malformedFlag ("--" ++ String.ofList text))
    else
      let name := String.ofList (text.takeWhile (· != '='))
      match known.find? (·.name == name) with
      | none => .error (.unknownFlag name)
      | some flag =>
        match text.dropWhile (· != '=') with
        | _ :: value => .ok (.flags [⟨flag, String.ofList value⟩] none)
        | [] =>
          if flag.isSwitch then .ok (.flags [⟨flag, "true"⟩] none)
          else .ok (.flags [] (some ⟨flag, .missingValue flag⟩))

/-- Reads what stands after one dash. Letters from `test.` on are passed over. -/
def letterFlags (known : List Flag) : List Char → Except UsageError (List Setting × Option Pending)
  | [] => .ok ([], none)
  | c :: rest =>
    match known.find? (·.short? == some c) with
    | none =>
      if "test.".toList.isPrefixOf (c :: rest) then .ok ([], none)
      else .error (.unknownLetter c rest)
    | some flag =>
      match rest with
      | '=' :: d :: value => .ok ([⟨flag, String.ofList (d :: value)⟩], none)
      | _ =>
        if flag.isSwitch then
          (letterFlags known rest).map fun (settings, pending) =>
            (⟨flag, "true"⟩ :: settings, pending)
        else if rest.isEmpty then .ok ([], some ⟨flag, .missingLetterValue c⟩)
        else .ok ([⟨flag, String.ofList rest⟩], none)

/-- Reads an argument. -/
def argument (known : List Flag) (arg : String) : Except UsageError Argument :=
  match arg.toList with
  | '-' :: '-' :: text => longFlag known text
  | '-' :: c :: text =>
    (letterFlags known (c :: text)).map fun (settings, pending) => .flags settings pending
  | _ => .ok (.word arg)

namespace Options

/-- The options after a setting. -/
def add (o : Options) (s : Setting) : Except UsageError Options :=
  (o.set s.flag s.value).mapError (.badValue s.flag s.value)

end Options

/-- The options after all arguments, and the words among these. -/
def readArguments (known : List Flag) (o : Options) :
    List String → Except UsageError (Options × List String)
  | [] => .ok (o, [])
  | arg :: rest =>
    match argument known arg with
    | .error e => .error e
    | .ok (.word w) => (readArguments known o rest).map fun (o, words) => (o, w :: words)
    | .ok .wordsOnly => .ok (o, rest)
    | .ok (.flags settings pending) =>
      match settings.foldlM Options.add o, pending, rest with
      | .error e, _, _ => .error e
      | .ok o, none, rest => readArguments known o rest
      | .ok _, some p, [] => .error p.otherwise
      | .ok o, some p, value :: rest =>
        match o.add ⟨p.flag, value⟩ with
        | .error e => .error e
        | .ok o => readArguments known o rest
termination_by args => args.length

/-- What is asked for. -/
inductive Request where
  | help (command : Command)
  | version
  | run (last : Stage) (file : String) (options : Options)
deriving DecidableEq, Repr

namespace Request

/-- The command, and the arguments other than its name. -/
def command (args : List String) : Except UsageError (Command × List String) :=
  match plainWords args with
  | [] => .ok (.root, args)
  | word :: _ =>
    match Command.ofName? word with
    | some c => .ok (c, dropWord word args)
    | none => .error (.unknownCommand word)

/-- What the arguments ask for. -/
def ofArguments (args : List String) : Except UsageError Request := do
  let (command, args) ← command args
  let (options, words) ← readArguments command.flags {} args
  if options.help then return .help command
  if options.version then return .version
  match command.stage?, words with
  | some last, [file] => return .run last file options
  | some _, words => throw (.wordCount words.length)
  | none, words =>
    if command = .help then return .help ((words.head?.bind Command.ofName?).getD .root)
    else return .help command

end Request

end TriangleTam.CommandLine
