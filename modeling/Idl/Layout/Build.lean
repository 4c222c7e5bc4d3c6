import Idl.Layout.Basic
import Idl.Layout.Bits
import Idl.Scope.Table

/-!
The layouts of a bound unit. A unit with errors has layouts too, in which a size that was not
evaluated is zero.
-/

set_option autoImplicit false

namespace Idl

namespace Layout

/-- The size that an expression was evaluated to. -/
def size (e : ConstExpr) : Nat := e.positive?.getD 0

/-- The number, or zero if it takes more than 32 bits. -/
def word (n : Nat) : Nat := if n < UInt32.size then n else 0

/-- The size, or zero if it takes more than 32 bits. -/
def wordSize (e : ConstExpr) : Nat := word (size e)

/-- The bits of an enum or bitmask without a bit bound. -/
def defaultBitBound : Nat := 32

def bitBound (annotations : List AnnotationUse) : Nat :=
  match annotationInt? annotations "bit_bound" with
  | some v => if 0 ≤ v ∧ v < UInt32.size then v.toNat else defaultBitBound
  | none => defaultBitBound

/-- A flag is set by its annotation, unless that says `FALSE`. -/
def flag (annotations : List AnnotationUse) (name : String) : Bool :=
  match findAnnotation? annotations name with
  | none => false
  | some a =>
    match a.value?.bind (·.value) with
    | some constant => constant.value != .bool false
    | none => true

/-- The type of a bitfield that is declared without one. -/
def impliedType (width : Nat) : Primitive :=
  if width ≤ 1 then .boolean
  else if width ≤ 8 then .octet
  else if width ≤ 16 then .ushort
  else if width ≤ 32 then .ulong
  else .ulongLong

def dims (d : Declarator) : List Nat := d.dims.map size

def field (annotations : List AnnotationUse) (type : LayoutType) (d : Declarator) : Field :=
  ⟨d.name.name, type, dims d, flag annotations "key", flag annotations "optional"⟩

/-- Offsets end here. -/
def maxOffset : Nat := UInt32.size - 1

/-- Fields of one width from `offset` on, and the offset behind them. -/
def bitfieldRun (width : Nat) (type : Primitive) (offset : Nat) :
    List (Option String) → List BitfieldLayout × Nat
  | [] => ([], offset)
  | name :: names =>
    let (fields, stop) := bitfieldRun width type (min (offset + width) maxOffset) names
    (⟨name, offset, width, type⟩ :: fields, stop)

/-- Each name of a bitfield has bits of its own, and padding has some too. -/
def bitfields (offset : Nat) : List Bitfield → List BitfieldLayout × Nat
  | [] => ([], offset)
  | f :: fs =>
    let width := wordSize f.width
    let names := if f.names.isEmpty then [none] else f.names.map fun n => some n.name
    let (fields, next) := bitfieldRun width (f.type.getD (impliedType width)) offset names
    let (more, stop) := bitfields next fs
    (fields ++ more, stop)

def flags (values : List Enumerator) : List Flag :=
  (values.zip (flagPositions 0 values)).map fun (v, position) =>
    ⟨v.name.name, if 0 ≤ position then word position.toNat else 0⟩

def labels (ls : List CaseLabel) : List ConstValue :=
  ls.filterMap fun
    | .value e => e.value.map (·.value)
    | .default _ => none

/-- Layouts read the symbol table and add to a model. -/
abbrev LayoutM : Type → Type := ReaderT SymbolTable (StateM TypeModel)

/-- Adds the entry of the symbol that a name defines. A name that only announces a type adds
nothing. -/
def insert (name : Ident) (kind : EntryKind) : LayoutM (Option SymbolId) := do
  let table ← read
  match table.definedAt? name.span with
  | none => return none
  | some id =>
    if (table.symbol id).isForward then return none
    modify (·.insert ⟨id, table.qualifiedName id, kind⟩)
    return some id

/-- A reference to a type defined in place. -/
def reference (name : Ident) (id : Option SymbolId) : LayoutType :=
  match id with
  | some id => .named id
  | none => .unresolved name.name

def enumType (annotations : List AnnotationUse) (t : EnumType) : LayoutM (Option SymbolId) :=
  insert t.name (.enum ⟨bitBound annotations, t.enumerators.map (·.name.name)⟩)

def bitmaskType (annotations : List AnnotationUse) (t : BitmaskType) : LayoutM (Option SymbolId) :=
  insert t.name (.bitmask ⟨bitBound annotations, flags t.values⟩)

/-- The bits of a base, if its layout is known. -/
def inheritedBits (m : TypeModel) (base : Option SymbolId) : Nat :=
  match base.bind m.get? with
  | some ⟨_, _, .bitset layout⟩ => layout.totalBits
  | _ => 0

/-- The fields of a bitset follow those of its base. -/
def bitsetType (t : BitsetType) : LayoutM (Option SymbolId) := do
  let base := t.base.bind (·.target)
  let (fields, total) := bitfields (inheritedBits (← get) base) t.bitfields
  insert t.name (.bitset ⟨base, fields, total⟩)

mutual

/-- The layout of a type. The types that it defines in place are added on the way. -/
def typeSpec : TypeSpec → LayoutM LayoutType
  | .primitive k => return .primitive k
  | .named type =>
    match type.target with
    | some id => return .named id
    | none => return .unresolved type.name.text
  | .sequence element bound => return .sequence (← typeSpec element) (bound.map size)
  | .set element bound => return .set (← typeSpec element) (bound.map size)
  | .map key value bound => do
    let key ← typeSpec key
    return .map key (← typeSpec value) (bound.map size)
  | .string bound => return .string (bound.map size)
  | .wstring bound => return .wstring (bound.map size)
  | .fixed none => return .fixed 0 0
  | .fixed (some (digits, scale)) => return .fixed (wordSize digits) (wordSize scale)
  | .struct ⟨name, base, fields, _⟩ => do
    let fields ← members fields
    return reference name (← insert name (.struct ⟨base.bind (·.target), fields⟩))
  | .union ⟨name, ⟨_, type, _⟩, cases, _⟩ => do
    let discriminant ← typeSpec type
    let cases ← unionCases cases
    return reference name (← insert name (.union ⟨discriminant, cases⟩))
  | .enum t => return reference t.name (← enumType [] t)
  | .bitset t => return reference t.name (← bitsetType t)
  | .bitmask t => return reference t.name (← bitmaskType [] t)

def members : List (Member TypeSpec) → LayoutM (List Field)
  | [] => return []
  | ⟨as, type, ds, _⟩ :: rest => do
    let type ← typeSpec type
    return ds.map (field as type) ++ (← members rest)

def unionCases : List (UnionCase TypeSpec) → LayoutM (List CaseLayout)
  | [] => return []
  | ⟨ls, as, type, d, span⟩ :: rest => do
    let layout ← typeSpec type
    let isDefault := UnionCase.isDefault ⟨ls, as, type, d, span⟩
    return ⟨labels ls, isDefault, field as layout d⟩ :: (← unionCases rest)

end

def typedef (d : Typedef) : LayoutM Unit := do
  let type ← typeSpec d.type
  d.declarators.forM fun d => discard (insert d.name (.typedef ⟨type, dims d⟩))

/-- Adds an entry without a layout. -/
def sealedEntry (name : Ident) : LayoutM Unit := do
  let table ← read
  match table.definedAt? name.span with
  | some id => discard (insert name (.sealed (table.kind id).noun))
  | none => pure ()

mutual

def definition : Definition → LayoutM Unit
  | ⟨as, kind, _⟩ => definitionKind as kind

def definitionKind (annotations : List AnnotationUse) : DefinitionKind Definition → LayoutM Unit
  | .module ⟨_, ds⟩ => definitions ds
  | .struct t => discard (typeSpec (.struct t))
  | .union t => discard (typeSpec (.union t))
  | .enum t => discard (enumType annotations t)
  | .bitset t => discard (bitsetType t)
  | .bitmask t => discard (bitmaskType annotations t)
  | .typedef d => typedef d
  | .const d =>
    match d.value.value with
    | some constant => discard (insert d.name (.const constant))
    | none => pure ()
  | .exception d => do
    let fields ← members d.members
    discard (insert d.name (.exception ⟨none, fields⟩))
  | .native name => discard (insert name .native)
  | .interface ⟨name, _, _, body⟩ => do
    exports body
    sealedEntry name
  | .value ⟨name, _, _, _, _, body⟩ => do
    exports body
    sealedEntry name
  | .event ⟨name, _, _, _, _, body⟩ => do
    exports body
    sealedEntry name
  | .component ⟨name, _, _, body⟩ => do
    exports body
    sealedEntry name
  | .home ⟨name, _, _, _, _, body⟩ => do
    exports body
    sealedEntry name
  | .valueBox d => sealedEntry d.name
  | .forward _ => pure ()
  | .typeId _ => pure ()
  | .typePrefix _ => pure ()
  | .annotationDecl _ => pure ()

def definitions : List Definition → LayoutM Unit
  | [] => pure ()
  | d :: ds => do
    definition d
    definitions ds

/-- Definitions within a body have layouts of their own. -/
def exports : List (Export Definition) → LayoutM Unit
  | [] => pure ()
  | .definition d :: rest => do
    definition d
    exports rest
  | .attribute _ :: rest => exports rest
  | .operation _ :: rest => exports rest
  | .stateMember _ :: rest => exports rest
  | .initializer _ :: rest => exports rest
  | .port _ :: rest => exports rest

end

/-- The entry of a type that was announced and never defined. -/
def forwardEntry (t : SymbolTable) (id : SymbolId) : Entry :=
  ⟨id, t.qualifiedName id, .sealed "forward declaration"⟩

end Layout

/-- The layouts of a unit, over the table of its symbols. -/
def buildModel (s : Specification) (t : SymbolTable) : TypeModel :=
  let ((), m) := ((Layout.definitions s.definitions).run t).run .empty
  t.danglingForwards.foldl (fun m (id, _) => m.insert (Layout.forwardEntry t id)) m

end Idl
