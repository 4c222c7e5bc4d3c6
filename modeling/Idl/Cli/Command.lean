import Idl.Cli.Arguments
import Idl.Parse

/-!
The commands and the arguments that give them.
-/

set_option autoImplicit false

namespace Idl.Cli

/-- When diagnostics are coloured. -/
inductive Coloring
  | auto
  | always
  | never
deriving DecidableEq, Repr

structure CheckArgs where
  inputs : List String
  bundle : Bool
  strictForward : Bool
  maxNesting : Nat
  coloring : Coloring
deriving DecidableEq, Repr

structure PrintArgs where
  input : String
  model : Bool
  bundle : Bool
  output : Option String
deriving DecidableEq, Repr

inductive Command
  | check (args : CheckArgs)
  | print (args : PrintArgs)
deriving DecidableEq, Repr

/-- What a command line asks for. -/
inductive Request
  | run (command : Command)
  | help
deriving DecidableEq, Repr

/-- A path has at least one character. -/
def isPath (arg : String) : Bool := !arg.isEmpty

def coloring? : String → Option Coloring
  | "auto" => some .auto
  | "always" => some .always
  | "never" => some .never
  | _ => none

def count? (text : String) : Option Nat :=
  (Lexeme.readUnsigned .decimal text.toList).toOption

/-- The value of an option, or `default` without it; nothing if the value cannot be read. -/
def valueOr? {α : Type} (a : Arguments) (name : String) (read : String → Option α) (default : α) :
    Option α :=
  match a.options.lookup name with
  | some value => read value
  | none => some default

def checkOptions : List OptionName := [
  ⟨"bundle", none, false⟩, ⟨"strict-forward", none, false⟩, ⟨"max-nesting", none, true⟩,
  ⟨"color", none, true⟩]

def printOptions : List OptionName := [
  ⟨"model", none, false⟩, ⟨"bundle", none, false⟩, ⟨"output", some 'o', true⟩]

/-- How the program is called. -/
def usage : String :=
  "Usage: idl check [--bundle] [--strict-forward] [--max-nesting N] [--color WHEN] FILES...\n" ++
    "       idl print [--model] [--bundle] [-o|--output FILE] FILE"

/-- What arguments of `check` ask for. Help is there for the asking, but not behind a fault. -/
def checkRequest? (args : List String) : Option Request := do
  let a ← readArguments? checkOptions args
  guard (a.distinct && a.positionals.all isPath)
  let maxNesting ← valueOr? a "max-nesting" count? defaultNesting
  let coloring ← valueOr? a "color" coloring? .auto
  if a.help then return .help
  guard (!a.positionals.isEmpty)
  return .run (.check ⟨a.positionals, a.has "bundle", a.has "strict-forward", maxNesting, coloring⟩)

/-- What arguments of `print` ask for. -/
def printRequest? (args : List String) : Option Request := do
  let a ← readArguments? printOptions args
  guard (a.distinct && a.positionals.all isPath)
  let output ← valueOr? a "output" (fun path => if isPath path then some (some path) else none) none
  match a.positionals, a.help with
  | [], true => return .help
  | [_], true => return .help
  | [input], false => return .run (.print ⟨input, a.has "model", a.has "bundle", output⟩)
  | _, _ => none

/-- What there is help about beside the whole. -/
def helpTopics : List String := ["check", "print", "help"]

/-- What arguments ask for, if they can be read. -/
def request? : List String → Option Request
  | "check" :: args => checkRequest? args
  | "print" :: args => printRequest? args
  | ["help"] => some .help
  | ["help", topic] => if topic ∈ helpTopics then some .help else none
  | arg :: _ => if asksHelp arg.toList then some .help else none
  | [] => none

end Idl.Cli
