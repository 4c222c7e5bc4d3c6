import Idl.Cli.Command
import Idl.Document
import Idl.Layout.Printer
import Idl.Syntax.Printer.Definition

/-!
The command line: `check` reports on files, `print` writes a unit or its layouts. What a command
does is a function of the files it reads; reading and writing them is left to the caller.
-/

set_option autoImplicit false

namespace Idl.Cli

/-- What a command leaves behind. -/
structure Outcome where
  code : Nat
  stdout : String
  /-- Lines for the standard error. -/
  stderr : List String
  /-- A file to write, with its content. -/
  file : Option (String × String)
deriving DecidableEq, Repr

/-- Fails with a message after some lines. -/
def failed (lines : List String) (message : String) : Outcome :=
  ⟨1, "", lines ++ ["Error: " ++ message], none⟩

/-- The outcome if the file to write cannot be written. -/
def Outcome.unwritten (o : Outcome) (fault : FileFault) : Outcome := failed o.stderr fault.message

/-- Arguments that ask for nothing there is. -/
def misused : Outcome := ⟨2, "", [], none⟩

/-- Help. Its text is left to the caller. -/
def helped : Outcome := ⟨0, "", [], none⟩

/-- A line in bright colour. -/
def painted (code line : String) : String :=
  "\x1b[0m\x1b[1m\x1b[38;5;" ++ code ++ "m" ++ line ++ "\x1b[0m"

/-- A diagnostic in one line, without its place. -/
def report (coloring : Coloring) (d : Diagnostic) : String :=
  match coloring, d.severity with
  | .always, .error => painted "9" d.headline
  | .always, .warning => painted "11" d.headline
  | _, _ => d.headline

/-- The texts of files, up to the first one that cannot be read. -/
def readAll (files : Files) (paths : List String) : Except String (List String) :=
  paths.mapM fun path => (files path).mapError fun _ => "failed to read " ++ path

def check (files : Files) (args : CheckArgs) : Outcome :=
  match readAll files args.inputs with
  | .error message => failed [] message
  | .ok texts =>
    let texts := if args.bundle then texts.map Bundle.normalized else texts
    let docs := texts.map (Document.ofText ⟨args.maxNesting, args.strictForward⟩)
    let all := docs.flatMap (·.diagnostics)
    let summary := "checked " ++ toString docs.length ++ " file(s): " ++
      toString (Diagnostics.errorCount all) ++ " error(s), " ++
      toString (Diagnostics.warningCount all) ++ " warning(s)"
    let lines := all.map (report args.coloring) ++ [summary]
    match (docs.filter (·.hasErrors)).length with
    | 0 => ⟨0, "", lines, none⟩
    | bad => failed lines (toString bad ++ " file(s) failed to check")

/-- A line for each section of a bundle. -/
def sectionLine (s : BundleSection) : String :=
  "section " ++ "/".intercalate s.path ++ " (line " ++ toString s.headerLine ++ ")"

/-- The unit in a text and the lines that announce its sections. -/
def unitOf (args : PrintArgs) (text : String) : Except BundleError (String × List String) :=
  if args.bundle then
    (Bundle.ofText args.input text).map fun b => (Bundle.normalized text, b.map sectionLine)
  else .ok (text, [])

def print (files : Files) (args : PrintArgs) : Outcome :=
  match readAll files [args.input] with
  | .error message => failed [] message
  | .ok texts =>
    match unitOf args (String.join texts) with
    | .error error => failed [] error.message
    | .ok (text, sections) =>
      let d := Document.ofText {} text
      let lines := sections ++ d.diagnostics.map (report .auto)
      if d.hasErrors then
        failed lines
          (args.input ++ " has " ++ toString d.diagnostics.errorCount ++ " error(s)")
      else
        let out := if args.model then d.model.text else d.specification.text
        match args.output with
        | some path => ⟨0, "", lines, some (path, out)⟩
        | none => ⟨0, out, lines, none⟩

def Command.run (files : Files) : Command → Outcome
  | .check args => Cli.check files args
  | .print args => Cli.print files args

/-- The files that a command reads. -/
def Command.inputs : Command → List String
  | .check args => args.inputs
  | .print args => [args.input]

/-- Does what arguments ask for. -/
def run (files : Files) (args : List String) : Outcome :=
  match request? args with
  | some (.run command) => command.run files
  | some .help => helped
  | none => misused

end Idl.Cli
