import HttpCodec.StartLine

set_option autoImplicit false

/-! # Command-line arguments

The arguments of the two commands. Words that start with a hyphen are options, unless they look
like negative numbers or hold a space; everything after a double hyphen is an operand. The long
names of options may be shortened as long as they stay unambiguous, and the letters of short ones
may be run together, with an equals sign after the first of them if there are more. Arguments that
do not fit, or ask for help, make no command (`Command.ofArguments?`).
-/

namespace HttpCodec.CommandLine

/-- An option. -/
inductive Flag where
  | help
  | request
  | response
  | streaming
  deriving DecidableEq

/-- The names of options. -/
structure Options where
  long : List (Text × Flag)
  short : List (Char × Flag)

/-- The options of the command that parses. -/
def parseOptions : Options where
  long := [("--help", .help), ("--request", .request), ("--response", .response),
    ("--streaming", .streaming)]
  short := [('h', .help), ('s', .streaming)]

/-- The options of the command that looks up a status. -/
def statusOptions : Options where
  long := [("--help", .help)]
  short := [('h', .help)]

/-- What a word before the double hyphen is. -/
inductive Word where
  | operand
  | flags (flags : List Flag)
  /-- An option that does not exist, is ambiguous, or has an argument it does not take. -/
  | invalid
  deriving DecidableEq

/-- The end of the options. -/
def doubleHyphen : Text := "--"

/-- Tells whether a text is made of decimal digits. -/
def isDigits (t : Text) : Bool := t.all fun c => (Digit.value? c).isSome

/-- Tells whether what follows a hyphen looks like a number, a line break after it allowed. -/
def looksLikeNumber (t : Text) : Bool :=
  let t := if t.getLast? = some '\n' then t.dropLast else t
  let (whole, fraction) := cut '.' t
  if t.contains '.' then isDigits whole && !fraction.isEmpty && isDigits fraction
  else !t.isEmpty && isDigits t

/-- A word that starts with a hyphen and has the form of no option. -/
def notAnOption (word : Text) : Word :=
  if looksLikeNumber (word.drop 1) || word.contains ' ' then .operand else .invalid

/-- A word that starts with two hyphens: the name of an option, perhaps shortened. -/
def longOption (options : Options) (word : Text) : Word :=
  let name := (cut '=' word).1
  match options.long.filter fun option => name.isPrefixOf option.1 with
  | [] => notAnOption word
  | [(_, flag)] => if word.contains '=' then .invalid else .flags [flag]
  | _ => .invalid

/-- The letters after a hyphen. An equals sign may divide the first letter from others. -/
def joinLetters : Text → Text
  | first :: '=' :: second :: rest => first :: second :: rest
  | letters => letters

/-- A word of a hyphen and letters, each of them an option. -/
def shortOptions (options : Options) (word letters : Text) : Word :=
  let flagOf (c : Char) : Option Flag := (options.short.find? (·.1 == c)).map (·.2)
  match letters.head?.bind flagOf with
  | none => notAnOption word
  | some _ =>
      match (joinLetters letters).mapM flagOf with
      | some flags => .flags flags
      | none => .invalid

/-- What a word before the double hyphen is. -/
def classify (options : Options) : Text → Word
  | '-' :: '-' :: rest => longOption options ('-' :: '-' :: rest)
  | '-' :: c :: rest => shortOptions options ('-' :: c :: rest) (c :: rest)
  | _ => .operand

/-- Arguments sorted out. -/
structure Sorted where
  flags : List Flag
  /-- The operands before the double hyphen. -/
  before : List Text
  /-- The operands after the double hyphen. -/
  after : List Text
  /-- Whether there is a double hyphen. -/
  divided : Bool
  /-- Whether an operand directly precedes the double hyphen. -/
  operandLast : Bool

/-- Tells whether a word leaves a command with nothing to do. -/
def Word.stops : Word → Bool
  | .invalid => true
  | .flags given => given.contains .help
  | .operand => false

/-- Sorts arguments out, if all options are valid and none asks for help. -/
def sort? (options : Options) (arguments : List Text) : Option Sorted :=
  let front := arguments.takeWhile (· ≠ doubleHyphen)
  let words := front.map fun word => (word, classify options word)
  if words.any (·.2.stops) then none
  else some {
    flags := words.flatMap fun word => match word.2 with
      | .flags flags => flags
      | _ => []
    before := (words.filter (·.2 = .operand)).map (·.1)
    after := (arguments.dropWhile (· ≠ doubleHyphen)).drop 1
    divided := arguments.contains doubleHyphen
    operandLast := (words.getLast?.map (·.2)) = some .operand }

/-- The only operand. A double hyphen has to be next to it. -/
def Sorted.operand? (s : Sorted) : Option Text :=
  match s.before, s.after with
  | [word], [] => if s.divided && !s.operandLast then none else some word
  | [], [word] => some word
  | _, _ => none

/-- The kind of messages that options ask for; they cannot ask for both. -/
def kindOf? (flags : List Flag) : Option (Option Kind) :=
  match flags.contains .request, flags.contains .response with
  | false, false => some none
  | true, false => some (some .request)
  | false, true => some (some .response)
  | true, true => none

/-- What the command line asks for. -/
inductive Command where
  /-- Print the events of the messages in a file. -/
  | parse (kind : Option Kind) (streaming : Bool) (path : Text)
  /-- Look up a status code or phrase. -/
  | status (words : List Text)
  deriving DecidableEq

/-- The command that parses. -/
def Command.parse? (arguments : List Text) : Option Command := do
  let sorted ← sort? parseOptions arguments
  let kind ← kindOf? sorted.flags
  let path ← sorted.operand?
  return .parse kind (sorted.flags.contains .streaming) path

/-- The command that looks up a status. -/
def Command.status? (arguments : List Text) : Option Command := do
  let sorted ← sort? statusOptions arguments
  let words := sorted.before ++ sorted.after
  if words.isEmpty then none else return .status words

/-- The command that arguments give: its name comes first. -/
def Command.ofArguments? : List Text → Option Command
  | [] => none
  | name :: arguments =>
      if name = "parse" then Command.parse? arguments
      else if name = "status" then Command.status? arguments
      else none

end HttpCodec.CommandLine
