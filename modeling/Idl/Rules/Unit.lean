import Idl.Const.Typing
import Idl.Rules.Local
import Idl.Syntax.Printer.Type

/-!
The rules that a grammar cannot express, over a whole unit. Those of single declarations are joined
by what needs the symbols: names declared twice, discriminants, the bits a bitset inherits, forward
declarations that are never followed up.
-/

set_option autoImplicit false

namespace Idl

namespace Rules

/-- The widths of the bitsets so far, and the breaches. -/
structure State where
  widths : List (SymbolId × Int)
  breaches : Breaches

abbrev CheckM : Type → Type := ReaderT SymbolTable (StateM State)

def report (breaches : Breaches) : CheckM Unit :=
  modify fun s => { s with breaches := s.breaches ++ breaches }

/-- A bitset with its base has no more bits than there are. A bitfield counts once, whatever names
it has. -/
def bitsetType (t : BitsetType) : CheckM Unit := do
  report (uniqueMembers "bitset" t.name (t.bitfields.flatMap (·.names)))
  let baseId := t.base.bind (·.target)
  let widths := (← get).widths
  let inherited := (baseId.bind fun id => widths.lookup id).getD 0
  let fields := t.bitfields.map bitfieldWidth
  report (fields.flatMap (·.2))
  let total := fields.foldl (fun total field => total + field.1) inherited
  if maxBits < total then report [⟨.bitsetWidth t.name.name total, t.name.span⟩]
  match (← read).definedAt? t.name.span with
  | some id => modify fun s => { s with widths := (id, total) :: s.widths }
  | none => pure ()

/-- The discriminant admits labels. A name that was not bound was reported then. -/
def discriminant (union : Ident) (d : SwitchType TypeSpec) : CheckM Unit := do
  if ((← read).discriminantType? d.type).isNone then
    report [⟨.badDiscriminant d.type.text union.name, d.span⟩]

def isUnbound : TypeSpec → Bool
  | .named type => type.target.isNone
  | _ => false

mutual

def typeSpec : TypeSpec → CheckM Unit
  | .primitive _ => pure ()
  | .named _ => pure ()
  | .sequence element bound => do
    typeSpec element
    report (positive? "sequence bound" bound)
  | .set element bound => do
    typeSpec element
    report (positive? "sequence bound" bound)
  | .map key value bound => do
    typeSpec key
    typeSpec value
    report (positive? "map bound" bound)
  | .string bound => report (positive? "string bound" bound)
  | .wstring bound => report (positive? "string bound" bound)
  | .fixed none => pure ()
  | .fixed (some (digits, scale)) => report (fixedArgs digits scale)
  | .struct ⟨name, _, fields, _⟩ => do
    report (uniqueMembers "struct" name (memberNames fields))
    members fields
  | .union ⟨name, ⟨as, type, span⟩, cases, _⟩ => do
    report (uniqueMembers "union" name (cases.map (·.declarator.name)))
    unless isUnbound type do
      typeSpec type
      discriminant name ⟨as, type, span⟩
    unionCases name ⟨[], none⟩ cases
  | .enum t => report (enumType [] t)
  | .bitset t => bitsetType t
  | .bitmask t => report (bitmaskType [] t)

def members : List (Member TypeSpec) → CheckM Unit
  | [] => pure ()
  | ⟨_, type, ds, _⟩ :: rest => do
    typeSpec type
    report (ds.flatMap dims)
    members rest

def unionCases (union : Ident) (seen : Labels) : List (UnionCase TypeSpec) → CheckM Unit
  | [] => pure ()
  | ⟨labels, _, type, d, _⟩ :: rest => do
    let (seen, breaches) := caseLabels union seen labels
    report breaches
    typeSpec type
    report (dims d)
    unionCases union seen rest

end

mutual

def definition : Definition → CheckM Unit
  | ⟨as, kind, _⟩ => definitionKind as kind

def definitionKind (annotations : List AnnotationUse) : DefinitionKind Definition → CheckM Unit
  | .module ⟨_, ds⟩ => definitions ds
  | .struct t => typeSpec (.struct t)
  | .union t => typeSpec (.union t)
  | .enum t => report (enumType annotations t)
  | .bitset t => bitsetType t
  | .bitmask t => report (bitmaskType annotations t)
  | .typedef d => do
    typeSpec d.type
    report (d.declarators.flatMap dims)
  | .const d => typeSpec d.type
  | .exception d => do
    report (uniqueMembers "exception" d.name (memberNames d.members))
    members d.members
  | .interface ⟨_, _, _, body⟩ => exports body
  | .value ⟨_, _, _, _, _, body⟩ => exports body
  | .event ⟨_, _, _, _, _, body⟩ => exports body
  | .component ⟨_, _, _, body⟩ => exports body
  | .home ⟨_, _, _, _, _, body⟩ => exports body
  | .valueBox d => typeSpec d.type
  | .native _ => pure ()
  | .forward _ => pure ()
  | .typeId _ => pure ()
  | .typePrefix _ => pure ()
  | .annotationDecl _ => pure ()

def definitions : List Definition → CheckM Unit
  | [] => pure ()
  | d :: ds => do
    definition d
    definitions ds

def exports : List (Export Definition) → CheckM Unit
  | [] => pure ()
  | .definition d :: rest => do
    definition d
    exports rest
  | .stateMember m :: rest => do
    members [m.member]
    exports rest
  | .attribute _ :: rest => exports rest
  | .operation _ :: rest => exports rest
  | .initializer _ :: rest => exports rest
  | .port _ :: rest => exports rest

end

/-- Names that their scopes held already. -/
def redeclarations (t : SymbolTable) : Breaches :=
  t.redeclarations.map fun r =>
    let scope := if r.scope = SymbolTable.rootId then none else some (t.qualifiedName r.scope)
    ⟨.redeclared r.name scope r.previous, r.span⟩

/-- Forward declarations without a definition. -/
def danglingForwards (t : SymbolTable) : Breaches :=
  t.danglingForwards.map fun (id, s) => ⟨.dangling s.kind (t.qualifiedName id), s.span⟩

end Rules

/-- The rules that a bound unit breaks. -/
def breachesOf (s : Specification) (t : SymbolTable) : List Breach :=
  let ((), state) := ((Rules.definitions s.definitions).run t).run ⟨[], []⟩
  Rules.redeclarations t ++ state.breaches ++ Rules.danglingForwards t

end Idl
