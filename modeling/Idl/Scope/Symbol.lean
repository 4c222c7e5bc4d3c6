import Idl.Syntax.Definition

/-!
Symbols: what a definition leaves behind for others to refer to.
-/

set_option autoImplicit false

namespace Idl

inductive SymbolKind
  | root
  | module
  | struct
  | union
  | enum
  | enumerator (enum : SymbolId) (ordinal : Nat)
  | bitset
  | bitmask
  | bitValue (bitmask : SymbolId) (index : Nat)
  | typedef
  | const
  | exception
  | native
  | interface
  | value
  | valueBox
  | event
  | component
  | home
deriving DecidableEq, Repr

namespace SymbolKind

/-- A symbol of the kind may stand where a type is expected. -/
def isType : SymbolKind → Bool
  | .root | .module | .enumerator _ _ | .bitValue _ _ | .const => false
  | .struct | .union | .enum | .bitset | .bitmask | .typedef | .exception | .native | .interface
  | .value | .valueBox | .event | .component | .home => true

/-- What a symbol of the kind is, in messages. -/
def noun : SymbolKind → String
  | .root => "global scope"
  | .module => "module"
  | .struct => "struct"
  | .union => "union"
  | .enum => "enum"
  | .enumerator _ _ => "enumerator"
  | .bitset => "bitset"
  | .bitmask => "bitmask"
  | .bitValue _ _ => "bitmask value"
  | .typedef => "typedef"
  | .const => "constant"
  | .exception => "exception"
  | .native => "native type"
  | .interface => "interface"
  | .value => "valuetype"
  | .valueBox => "value box"
  | .event => "eventtype"
  | .component => "component"
  | .home => "home"

/-- The kind of symbol that a forward declaration announces. -/
def ofForward : ForwardKind → SymbolKind
  | .struct => .struct
  | .union => .union
  | .interface => .interface
  | .value => .value
  | .event => .event
  | .component => .component

end SymbolKind

/-- The value of a symbol, as far as it has one. -/
inductive ConstSlot
  /-- The symbol is no constant. -/
  | absent
  /-- The constant has not been reached. -/
  | pending
  /-- The constant could not be evaluated. -/
  | failed
  | value (constant : Constant)
deriving DecidableEq, Repr

/-- The type that a typedef names, and whether the name adds array dimensions to it. -/
structure Alias where
  type : TypeSpec
  isArray : Bool

structure Symbol where
  name : String
  kind : SymbolKind
  /-- The scope around the symbol. The root alone has none. -/
  parent : Option SymbolId
  /-- The place of the defining identifier. -/
  span : Span
  /-- Only a forward declaration has been seen. -/
  isForward : Bool
  /-- The names declared in the symbol, in order. -/
  members : List (String × SymbolId)
  constant : ConstSlot
  aliased : Option Alias

namespace Symbol

/-- A symbol that declares nothing yet. -/
def fresh (name : String) (kind : SymbolKind) (parent : Option SymbolId) (span : Span) : Symbol :=
  ⟨name, kind, parent, span, false, [], .absent, none⟩

/-- The global scope. -/
def root : Symbol := fresh "" .root none Span.empty

end Symbol

/-- A name that its scope held already. -/
structure Redeclaration where
  scope : SymbolId
  name : String
  span : Span
  previous : Span
deriving DecidableEq, Repr

end Idl
