/-!
Arguments of a command line, told apart into options and others.
-/

set_option autoImplicit false

namespace Idl.Cli

/-- An option by its names. -/
structure OptionName where
  long : String
  short : Option Char
  takesValue : Bool
deriving DecidableEq, Repr

/-- Options with their values, and the arguments that are none, up to where help is asked for. -/
structure Arguments where
  options : List (String × String)
  positionals : List String
  help : Bool
deriving DecidableEq, Repr

def Arguments.withOption (a : Arguments) (name value : String) : Arguments :=
  { a with options := (name, value) :: a.options }

def Arguments.withPositional (a : Arguments) (value : String) : Arguments :=
  { a with positionals := value :: a.positionals }

/-- An argument that begins an option. A dash alone does not. -/
def looksLikeOption (arg : List Char) : Bool := arg.head? == some '-' && arg.length != 1

/-- The name in front of an equals sign, and the value behind it, if there is one. -/
def splitValue (arg : List Char) : List Char × Option (List Char) :=
  match arg.dropWhile (· != '=') with
  | _ :: value => (arg.takeWhile (· != '='), some value)
  | [] => (arg, none)

/-- An option that an argument begins, and the value it brings along. -/
def optionOf? (names : List OptionName) (arg : List Char) :
    Option (OptionName × Option (List Char)) :=
  match arg with
  | '-' :: '-' :: long =>
    let (name, value) := splitValue long
    (names.find? fun n => n.long.toList == name).map (·, value)
  | '-' :: short :: value =>
    let value := match value with
      | [] => none
      | '=' :: value => some value
      | value => some value
    (names.find? fun n => n.short == some short).map (·, value)
  | _ => none

/-- The argument asks for help. In the short form it does so whatever else it has. -/
def asksHelp (arg : List Char) : Bool :=
  arg == ['-', '-', 'h', 'e', 'l', 'p'] || ['-', 'h'].isPrefixOf arg

/-- Tells options from other arguments; nothing if they cannot be told. After two dashes there are
no options, and behind a request for help nothing is read. -/
def readArguments? (names : List OptionName) : List String → Option Arguments
  | [] => some ⟨[], [], false⟩
  | arg :: rest =>
    if arg = "--" then some ⟨[], rest, false⟩
    else if asksHelp arg.toList then some ⟨[], [], true⟩
    else if !looksLikeOption arg.toList then
      (readArguments? names rest).map (·.withPositional arg)
    else
      match optionOf? names arg.toList with
      | none => none
      | some (name, value) =>
        match name.takesValue, value, rest with
        | false, none, rest => (readArguments? names rest).map (·.withOption name.long "")
        | false, some _, _ => none
        | true, some value, rest =>
          (readArguments? names rest).map (·.withOption name.long (String.ofList value))
        | true, none, [] => none
        | true, none, value :: rest =>
          if looksLikeOption value.toList then none
          else (readArguments? names rest).map (·.withOption name.long value)

/-- No option stands twice. -/
def Arguments.distinct (a : Arguments) : Bool := decide (a.options.map (·.1)).Nodup

def Arguments.has (a : Arguments) (name : String) : Bool := (a.options.lookup name).isSome

end Idl.Cli
