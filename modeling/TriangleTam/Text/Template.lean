import TriangleTam.Text.Quoted

/-!
# Message templates

A template is text with places for arguments: `%s` takes an argument as it is, `%q` takes it
quoted, and `%%` is a percent sign. A template that does not fit its arguments is never refused;
the text says what is wrong at the place where it is wrong.
-/

namespace TriangleTam.Text

/-- The note about arguments that no place took. -/
def extraNote : List String → String
  | [] => ""
  | args => "%!(EXTRA " ++ ", ".intercalate (args.map ("string=" ++ ·)) ++ ")"

/-- What a place with the letter `verb` becomes, and the arguments left over. -/
def fillPlace (verb : Char) (args : List String) : String × List String :=
  match verb, args with
  | '%', args => ("%", args)
  | verb, [] => ("%!" ++ String.singleton verb ++ "(MISSING)", [])
  | 's', a :: rest => (a, rest)
  | 'q', a :: rest => (quoted a, rest)
  | verb, a :: rest => ("%!" ++ String.singleton verb ++ "(string=" ++ a ++ ")", rest)

/-- The characters of a template with its places filled from `args` in order. -/
def fillChars : List Char → List String → String
  | [], args => extraNote args
  | ['%'], args => "%!(NOVERB)" ++ extraNote args
  | '%' :: verb :: rest, args =>
    let (text, left) := fillPlace verb args
    text ++ fillChars rest left
  | c :: rest, args => String.singleton c ++ fillChars rest args

/-- The template with its places filled from `args` in order. -/
def fill (template : String) (args : List String) : String :=
  fillChars template.toList args

end TriangleTam.Text
