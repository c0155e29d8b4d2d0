import DeskCalc.AngleMode
import DeskCalc.Text.Digit
import DeskCalc.Wording

/-!
# Command-Line Options

Reads the arguments of the command line: options, with their values, and expressions.

An option may be shortened as long as it is not ambiguous, and its value may follow as the
next argument or after an equals sign. A double dash after an equals sign stands for no value
and undoes the option. An argument that starts with a dash is an option unless it is a negative
number or holds a space; after a lone double dash none is. The expressions have to stand
together, and a second group of them is left over.

Arguments are read in two passes. The first decides for each what it is, and finds ambiguous
options anywhere. The second takes effect in order, so that a request for help is granted if
nothing before it is wrong, while leftovers are reported only at the end.

## Main definitions

* `CommandOption`, `CommandOption.longName`: The options.
* `LogLevel`: How much is logged.
* `Argument`, `Argument.classify`: What an argument is.
* `Options`: What the arguments ask for.
* `Refusal`: Why the arguments are not acted upon.
* `Options.parse`: The reading of the arguments.
-/

namespace DeskCalc

/-- The options. -/
inductive CommandOption where
  /-- A request for help. -/
  | help
  /-- The angle mode. -/
  | angleMode
  /-- The language that faults are worded in. -/
  | language
  /-- A file of expressions. -/
  | file
  /-- A request for a session. -/
  | interactive
  /-- How much is logged. -/
  | logLevel
  deriving DecidableEq, Repr

namespace CommandOption

/-- All options. -/
def all : List CommandOption := [.help, .angleMode, .language, .file, .interactive, .logLevel]

/-- The name of an option. -/
def longName : CommandOption → String
  | .help => "--help"
  | .angleMode => "--angle-mode"
  | .language => "--lang"
  | .file => "--file"
  | .interactive => "--interactive"
  | .logLevel => "--log-level"

/-- Whether an option has a value. -/
def takesValue : CommandOption → Bool
  | .help => false
  | .interactive => false
  | _ => true

end CommandOption

/-- How much is logged. -/
inductive LogLevel where
  /-- Everything. -/
  | debug
  /-- What is done. -/
  | info
  /-- What may be wrong. -/
  | warning
  /-- What is wrong. -/
  | error
  deriving DecidableEq, Repr

namespace LogLevel

/-- All levels. -/
def all : List LogLevel := [.debug, .info, .warning, .error]

/-- The name of a level. -/
def name : LogLevel → String
  | .debug => "DEBUG"
  | .info => "INFO"
  | .warning => "WARNING"
  | .error => "ERROR"

/-- The level with the given name. -/
def ofName? (s : String) : Option LogLevel := all.find? fun l => l.name == s

/-- Every level is found under its name. -/
theorem ofName?_name (l : LogLevel) : ofName? l.name = some l := by
  cases l <;> decide

end LogLevel

/-- Why the arguments are not acted upon. -/
inductive Refusal where
  /-- Help was asked for. -/
  | help
  /-- The arguments are wrong. -/
  | usage
  deriving DecidableEq, Repr

/-- What an argument is. -/
inductive Argument where
  /-- A text, for an expression or the value of an option. -/
  | text (s : String)
  /-- The double dash after which there are no options. -/
  | separator
  /-- An option, with what follows the equals sign. -/
  | option (o : CommandOption) (value : Option String)
  /-- The letter `h` for help, with the letters after it. -/
  | shortHelp (letters : List Char)
  /-- An option that does not exist. -/
  | unknown
  deriving DecidableEq, Repr

namespace Argument

/-- Whether an argument is written as a negative number: digits, or digits after a point. A
    line end after them is overlooked. -/
def isNegativeNumber : List Char → Bool
  | '-' :: cs =>
    let cs := if cs.getLast? = some '\n' then cs.dropLast else cs
    match cs.dropWhile Text.isDigit with
    | [] => !cs.isEmpty
    | '.' :: fraction => !fraction.isEmpty && fraction.all Text.isDigit
    | _ => false
  | _ => false

/-- The part of an option before an equals sign, and what follows that sign. -/
def splitValue (cs : List Char) : List Char × Option String :=
  match cs.dropWhile (· != '=') with
  | [] => (cs, none)
  | _ :: value => (cs.takeWhile (· != '='), some (String.ofList value))

/-- The options that a name may be short for. -/
def candidates (name : List Char) : List CommandOption :=
  CommandOption.all.filter fun o => name.isPrefixOf o.longName.toList

/-- What an argument is that starts with a dash and is no option. -/
def withoutOption (cs : List Char) : Argument :=
  if isNegativeNumber cs || cs.contains ' ' then .text (String.ofList cs) else .unknown

/-- What an argument is that starts with two dashes. A full name is preferred to a longer one
    that starts with it. -/
def classifyLong (cs : List Char) : Except Refusal Argument :=
  let (name, value) := splitValue cs
  match CommandOption.all.find? fun o => o.longName.toList == name with
  | some o => .ok (.option o value)
  | none =>
    match candidates name with
    | [] => .ok (withoutOption cs)
    | [o] => .ok (.option o value)
    | _ => .error .usage

/-- What an argument is, where options are possible. -/
def classify (s : String) : Except Refusal Argument :=
  match s.toList with
  | ['-', '-'] => .ok .separator
  | '-' :: '-' :: rest => classifyLong ('-' :: '-' :: rest)
  | '-' :: 'h' :: letters => .ok (.shortHelp letters)
  | '-' :: c :: rest => .ok (withoutOption ('-' :: c :: rest))
  | cs => .ok (.text (String.ofList cs))

/-- What the arguments are, up to the first double dash and after it. -/
def classifyAll : List String → Except Refusal (List Argument)
  | [] => .ok []
  | s :: rest => do
    let a ← classify s
    if a = .separator then return a :: rest.map Argument.text
    else return a :: (← classifyAll rest)

end Argument

/-- What the arguments ask for. -/
structure Options where
  /-- The expressions, if a group of them has been read. -/
  expressions : Option (List String)
  /-- The angle mode. -/
  mode : AngleMode
  /-- The language. -/
  language : Language
  /-- The file of expressions. -/
  file : Option String
  /-- Whether a session is asked for. -/
  interactive : Bool
  /-- How much is logged, unless the level has been undone. -/
  logLevel : Option LogLevel
  /-- Whether there are arguments that nothing was made of. -/
  leftovers : Bool
  deriving DecidableEq, Repr

namespace Options

/-- What no arguments ask for. -/
def initial : Options :=
  { expressions := none
    mode := .degrees
    language := .english
    file := none
    interactive := false
    logLevel := some .warning
    leftovers := false }

/-- The options with one undone. It is as if it had not been given, but for the level of
    logging, of which there is none then. -/
def without (opts : Options) : CommandOption → Options
  | .angleMode => { opts with mode := initial.mode }
  | .language => { opts with language := initial.language }
  | .file => { opts with file := initial.file }
  | .logLevel => { opts with logLevel := none }
  | .help | .interactive => opts

/-- The options with a value read. Some options admit only certain values. -/
def withValue (opts : Options) (o : CommandOption) (value : String) : Except Refusal Options :=
  if value = "--" then .ok (opts.without o)
  else
    match o with
    | .angleMode =>
      if value = "deg" ∨ value = "DEGREES" then .ok { opts with mode := .degrees }
      else if value = "rad" ∨ value = "RADIANS" then .ok { opts with mode := .radians }
      else .error .usage
    | .language =>
      match Language.ofTag? value with
      | some language => .ok { opts with language := language }
      | none => .error .usage
    | .file => .ok { opts with file := some value }
    | .logLevel =>
      match LogLevel.ofName? value with
      | some level => .ok { opts with logLevel := some level }
      | none => .error .usage
    | .help | .interactive => .error .usage

/-- The options with a flag read. -/
def withFlag (opts : Options) : CommandOption → Except Refusal Options
  | .interactive => .ok { opts with interactive := true }
  | _ => .error .help

/-- The options with a group of texts read, which are the expressions if there have not been
    any before. -/
def withGroup (opts : Options) (group : List String) : Options :=
  match opts.expressions with
  | none => { opts with expressions := some group }
  | some _ => { opts with leftovers := true }

/-- The options after the arguments. A group of texts is collected in reverse, from its first
    text until an option ends it. -/
def read (opts : Options) (group : Option (List String)) :
    List Argument → Except Refusal Options
  | [] => .ok (endGroup opts group)
  | .text s :: rest => read opts (some (s :: group.getD [])) rest
  | .separator :: rest => read opts (some (group.getD [])) rest
  | .unknown :: rest => read { endGroup opts group with leftovers := true } none rest
  | .shortHelp letters :: _ => .error (shortHelp letters)
  | .option o (some value) :: rest =>
    if !o.takesValue then .error .usage
    else do
      let opts ← withValue (endGroup opts group) o value
      read opts none rest
  | .option o none :: rest =>
    if !o.takesValue then do
      let opts ← withFlag (endGroup opts group) o
      read opts none rest
    else match rest with
      | .text value :: rest => do
        let opts ← withValue (endGroup opts group) o value
        read opts none rest
      | _ => .error .usage
where
  /-- What the letters after the one for help lead to, an equals sign before them aside. The
      same letter asks once more, and no other has a meaning. -/
  shortHelp : List Char → Refusal
    | ['='] => .usage
    | '=' :: letters => repeatedHelp letters
    | letters => repeatedHelp letters
  /-- Letters that ask for help lead to it if there is no other among them. -/
  repeatedHelp (letters : List Char) : Refusal :=
    if letters.all (· == 'h') then .help else .usage
  /-- The options with the group that has just ended. -/
  endGroup (opts : Options) : Option (List String) → Options
    | none => opts
    | some group => opts.withGroup group.reverse

/-- The reading of the arguments. -/
def parse (args : List String) : Except Refusal Options := do
  let arguments ← Argument.classifyAll args
  let opts ← initial.read none arguments
  if opts.leftovers then .error .usage else return opts

end Options

end DeskCalc
