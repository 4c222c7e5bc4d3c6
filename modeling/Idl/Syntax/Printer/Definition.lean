import Idl.Syntax.Definition
import Idl.Syntax.Printer.Type

/-!
Source text of compilation units, in one layout: a declaration a line, indented by four spaces for
each level.
-/

set_option autoImplicit false

namespace Idl

namespace Printer

def param (indent : Nat) (p : Param) : String :=
  inlineAnnotations p.annotations ++ p.direction.text ++ " " ++ typeSpec indent p.type ++ " " ++
    p.name.name

def params (indent : Nat) (ps : List Param) : String :=
  "(" ++ commaSeparated (ps.map (param indent)) ++ ")"

def attributeDecl (indent : Nat) (a : Attribute) : String :=
  annotationLines indent a.annotations ++ pad indent ++ (if a.readonly then "readonly " else "") ++
    "attribute " ++ typeSpec indent a.type ++
    (if a.names.isEmpty then "" else " " ++ names a.names) ++
    (if a.readonly then raises "raises" a.getRaises
      else raises "getraises" a.getRaises ++ raises "setraises" a.setRaises)

def context (texts : List String) : String :=
  if texts.isEmpty then ""
  else " context(" ++ commaSeparated (texts.map Text.shownString) ++ ")"

def operation (indent : Nat) (o : Operation) : String :=
  annotationLines indent o.annotations ++ pad indent ++ (if o.oneway then "oneway " else "") ++
    (match o.result with
      | some type => typeSpec indent type
      | none => "void") ++
    " " ++ o.name.name ++ params indent o.params ++ raises "raises" o.raises ++ context o.context

def stateMember (indent : Nat) (m : StateMember) : String :=
  annotationLines indent m.member.annotations ++ pad indent ++
    (if m.isPublic then "public " else "private ") ++ typeSpec indent m.member.type ++ " " ++
    declarators m.member.declarators

def initializer (indent : Nat) (i : Initializer) : String :=
  pad indent ++ i.kind.text ++ " " ++ i.name.name ++ params indent i.params ++
    raises "raises" i.raises

def port (indent : Nat) (p : Port) : String :=
  pad indent ++ p.kind.text ++ " " ++ p.type.text ++ " " ++ p.name.name

def qualifier (q : Option Qualifier) : String :=
  match q with
  | some word => word.text ++ " "
  | none => ""

/-- What stands before the body of a value or event type. -/
def valueHead (word : String) (v : ValueType Definition) : String :=
  qualifier v.qualifier ++ word ++ " " ++ v.name.name ++
    (if v.bases.isEmpty then ""
      else " : " ++ (if v.truncatable then "truncatable " else "") ++ scopedNames v.bases) ++
    namesAfter " supports " v.supports

def optionalName (lead : String) (n : Option ScopedName) : String :=
  match n with
  | some name => lead ++ name.text
  | none => ""

def componentHead (c : Component Definition) : String :=
  "component " ++ c.name.name ++ optionalName " : " c.base ++ namesAfter " supports " c.supports

def homeHead (h : Home Definition) : String :=
  "home " ++ h.name.name ++ optionalName " : " h.base ++ namesAfter " supports " h.supports ++
    " manages " ++ h.manages.text ++ optionalName " primarykey " h.primaryKey

def annotationMember (indent : Nat) (m : AnnotationMember) : String :=
  pad indent ++ typeSpec indent m.type ++ " " ++ m.name.name ++
    (match m.default with
      | some e => " default " ++ e.text
      | none => "") ++ ";\n"

mutual

/-- A definition, with its annotations above it. -/
def definition (indent : Nat) : Definition → String
  | ⟨as, kind, _⟩ =>
    annotationLines indent as ++ pad indent ++ definitionKind indent kind ++ ";\n"

def definitionKind (indent : Nat) : DefinitionKind Definition → String
  | .module ⟨name, ds⟩ =>
    "module " ++ name.name ++ " \x7b\n" ++ definitions (indent + 4) ds ++ pad indent ++ "\x7d"
  | .struct t => typeSpec indent (.struct t)
  | .union t => typeSpec indent (.union t)
  | .enum t => enumType indent t
  | .bitset t => bitsetType indent t
  | .bitmask t => bitmaskType indent t
  | .typedef d => "typedef " ++ typeSpec indent d.type ++ " " ++ declarators d.declarators
  | .const d => "const " ++ typeSpec indent d.type ++ " " ++ d.name.name ++ " = " ++ d.value.text
  | .exception d =>
    "exception " ++ d.name.name ++ " \x7b\n" ++ members (indent + 4) d.members ++ pad indent ++
      "\x7d"
  | .native name => "native " ++ name.name
  | .forward d => qualifier d.qualifier ++ d.kind.text ++ " " ++ d.name.name
  | .interface ⟨name, q, bases, body⟩ =>
    qualifier q ++ "interface " ++ name.name ++ namesAfter " : " bases ++ " \x7b\n" ++
      exports (indent + 4) body ++ pad indent ++ "\x7d"
  | .value ⟨name, q, truncatable, bases, supports, body⟩ =>
    valueHead "valuetype" ⟨name, q, truncatable, bases, supports, []⟩ ++ " \x7b\n" ++
      exports (indent + 4) body ++ pad indent ++ "\x7d"
  | .event ⟨name, q, truncatable, bases, supports, body⟩ =>
    valueHead "eventtype" ⟨name, q, truncatable, bases, supports, []⟩ ++ " \x7b\n" ++
      exports (indent + 4) body ++ pad indent ++ "\x7d"
  | .valueBox d => "valuetype " ++ d.name.name ++ " " ++ typeSpec indent d.type
  | .component ⟨name, b, supports, body⟩ =>
    componentHead ⟨name, b, supports, []⟩ ++ " \x7b\n" ++ exports (indent + 4) body ++
      pad indent ++ "\x7d"
  | .home ⟨name, b, supports, manages, key, body⟩ =>
    homeHead ⟨name, b, supports, manages, key, []⟩ ++ " \x7b\n" ++ exports (indent + 4) body ++
      pad indent ++ "\x7d"
  | .typeId d => "typeid " ++ d.target.text ++ " " ++ Text.shownString d.text
  | .typePrefix d => "typeprefix " ++ d.target.text ++ " " ++ Text.shownString d.text
  | .annotationDecl ⟨name, ms, ds⟩ =>
    "@annotation " ++ name.name ++ " \x7b\n" ++
      String.join (ms.map (annotationMember (indent + 4))) ++ definitions (indent + 4) ds ++
      pad indent ++ "\x7d"

def definitions (indent : Nat) : List Definition → String
  | [] => ""
  | d :: ds => definition indent d ++ definitions indent ds

def exports (indent : Nat) : List (Export Definition) → String
  | [] => ""
  | .definition d :: rest => definition indent d ++ exports indent rest
  | .attribute a :: rest => attributeDecl indent a ++ ";\n" ++ exports indent rest
  | .operation o :: rest => operation indent o ++ ";\n" ++ exports indent rest
  | .stateMember m :: rest => stateMember indent m ++ ";\n" ++ exports indent rest
  | .initializer i :: rest => initializer indent i ++ ";\n" ++ exports indent rest
  | .port p :: rest => port indent p ++ ";\n" ++ exports indent rest

end

def importDecl (i : Import) : String :=
  match i.target with
  | .scope name => "import " ++ name.text ++ ";\n"
  | .file path => "import " ++ Text.shownString path ++ ";\n"

end Printer

/-- A unit as source text. -/
def Specification.text (s : Specification) : String :=
  String.join (s.imports.map Printer.importDecl) ++ Printer.definitions 0 s.definitions

end Idl
