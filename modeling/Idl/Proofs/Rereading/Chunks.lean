import Idl.Proofs.Grammar.Printed
import Idl.Proofs.Grammar.TypeTokens
import Idl.Syntax.Printer.Definition

/-!
The printed text in chunks: blanks, words, marks, names and literals, in the order of the text. Main
statement: `Specification.toList_text`.
-/

set_option autoImplicit false

namespace Idl

/-- A part of a printed text: blanks, or what is read as a whole. -/
inductive Chunk
  | gap (blanks : List Char)
  | word (k : Keyword)
  | mark (m : Punct)
  | ident (i : Ident)
  | name (n : ScopedName)
  /-- The name of an annotation, which may be spelled as a keyword. -/
  | label (n : ScopedName)
  | literal (l : Literal)
  | op (o : BinaryOp)
  /-- A text outside of expressions. -/
  | text (s : String)

namespace Chunk

abbrev blank : Chunk := .gap [' ']

abbrev newline : Chunk := .gap ['\n']

/-- Blanks in front of a line. -/
def indent (n : Nat) : Chunk := .gap (List.replicate n ' ')

def chars : Chunk → List Char
  | .gap blanks => blanks
  | .word k => k.text.toList
  | .mark m => m.text.toList
  | .ident i => i.name.toList
  | .name n => n.text.toList
  | .label n => n.text.toList
  | .literal l => l.text.toList
  | .op o => o.text.toList
  | .text s => (Text.shownString s).toList

end Chunk

/-- The text of chunks. -/
def printed (cs : List Chunk) : List Char := cs.flatMap Chunk.chars

@[simp] theorem printed_nil : printed [] = [] := rfl

@[simp] theorem printed_cons (c : Chunk) (cs : List Chunk) :
    printed (c :: cs) = c.chars ++ printed cs := List.flatMap_cons

@[simp] theorem printed_append (cs ds : List Chunk) :
    printed (cs ++ ds) = printed cs ++ printed ds := List.flatMap_append

theorem printed_flatMap {α : Type} (as : List α) (f : α → List Chunk) :
    printed (as.flatMap f) = as.flatMap fun a => printed (f a) := by
  induction as with
  | nil => rfl
  | cons a as ih => simp [ih]

/-! Chunks of the parts of a unit. -/

/-- Items with commas between them. -/
def commas {α : Type} (f : α → List Chunk) : List α → List Chunk
  | [] => []
  | a :: as => f a ++ as.flatMap fun b => .mark .comma :: .blank :: f b

/-- What stands in braces, on lines of its own. -/
def braced (n : Nat) (inside : List Chunk) : List Chunk :=
  .blank :: .mark .leftBrace :: .newline :: (inside ++ [.indent n, .mark .rightBrace])

def identChunks (is : List Ident) : List Chunk := commas (fun i => [.ident i]) is

def nameChunks (ns : List ScopedName) : List Chunk := commas (fun n => [.name n]) ns

/-- A word and names in parentheses, unless there are none. -/
def raisesChunks (k : Keyword) (ns : List ScopedName) : List Chunk :=
  if ns.isEmpty then []
  else .blank :: .word k :: .mark .leftParen :: (nameChunks ns ++ [.mark .rightParen])

def ConstExpr.chunks : ConstExpr → List Chunk
  | .binary o left right _ _ =>
    .mark .leftParen :: (left.chunks ++ .blank :: .op o :: .blank :: (right.chunks ++
      [.mark .rightParen]))
  | .unary o operand _ _ => .mark o.mark :: operand.chunks
  | .literal l _ _ => [.literal l]
  | .name n _ _ => [.name n]

def AnnotationArgs.chunks : AnnotationArgs → List Chunk
  | .none => []
  | .single e => .mark .leftParen :: (e.chunks ++ [.mark .rightParen])
  | .named params =>
    .mark .leftParen :: (commas (fun p : Ident × ConstExpr =>
      .ident p.1 :: .blank :: .mark .equals :: .blank :: p.2.chunks) params ++ [.mark .rightParen])

def AnnotationUse.chunks (a : AnnotationUse) : List Chunk :=
  .mark .atSign :: .label a.name :: a.args.chunks

/-- Annotations on lines of their own. -/
def lineUses (n : Nat) (as : List AnnotationUse) : List Chunk :=
  as.flatMap fun a => .indent n :: (a.chunks ++ [.newline])

/-- Annotations in front of something on its line. -/
def inlineUses (as : List AnnotationUse) : List Chunk := as.flatMap fun a => a.chunks ++ [.blank]

def Declarator.chunks (d : Declarator) : List Chunk :=
  .ident d.name :: d.dims.flatMap fun e => .mark .leftBracket :: (e.chunks ++ [.mark .rightBracket])

def declaratorChunks (ds : List Declarator) : List Chunk := commas Declarator.chunks ds

def Primitive.chunks (k : Primitive) : List Chunk :=
  match k.words with
  | [] => []
  | w :: words => .word w :: words.flatMap fun v => [.blank, .word v]

def baseChunks (b : Option NamedType) : List Chunk :=
  match b with
  | some t => [.blank, .mark .colon, .blank, .name t.name]
  | none => []

def boundChunks (b : Option ConstExpr) : List Chunk :=
  match b with
  | some e => .mark .comma :: .blank :: e.chunks
  | none => []

def textBoundChunks (b : Option ConstExpr) : List Chunk :=
  match b with
  | some e => .mark .less :: (e.chunks ++ [.mark .greater])
  | none => []

def Enumerator.chunks (v : Enumerator) : List Chunk := inlineUses v.annotations ++ [.ident v.name]

/-- Annotated names, each on its line. -/
def enumeratorChunks (n : Nat) : List Enumerator → List Chunk
  | [] => []
  | [v] => .indent n :: (inlineUses v.annotations ++ [.ident v.name, .newline])
  | v :: vs =>
    .indent n :: (inlineUses v.annotations ++ .ident v.name :: .mark .comma :: .newline ::
      enumeratorChunks n vs)

def EnumType.chunks (n : Nat) (t : EnumType) : List Chunk :=
  .word .enum :: .blank :: .ident t.name :: braced n (enumeratorChunks (n + 4) t.enumerators)

def BitmaskType.chunks (n : Nat) (t : BitmaskType) : List Chunk :=
  .word .bitmask :: .blank :: .ident t.name :: braced n (enumeratorChunks (n + 4) t.values)

/-- Names behind something else, unless there are none. -/
def trailChunks (is : List Ident) : List Chunk :=
  if is.isEmpty then [] else .blank :: identChunks is

/-- The type of a bitfield behind its width. -/
def fieldTypeChunks (k : Option Primitive) : List Chunk :=
  match k with
  | some k => .mark .comma :: .blank :: k.chunks
  | none => []

def Bitfield.chunks (n : Nat) (f : Bitfield) : List Chunk :=
  lineUses n f.annotations ++ .indent n :: .word .bitfield :: .mark .less :: (f.width.chunks ++
    (fieldTypeChunks f.type ++ .mark .greater :: (trailChunks f.names ++ [.mark .semi, .newline])))

def BitsetType.chunks (n : Nat) (t : BitsetType) : List Chunk :=
  .word .bitset :: .blank :: .ident t.name :: (baseChunks t.base ++
    braced n (t.bitfields.flatMap (Bitfield.chunks (n + 4))))

def CaseLabel.chunks (n : Nat) : CaseLabel → List Chunk
  | .value e => .indent n :: .word .caseKw :: .blank :: (e.chunks ++ [.mark .colon, .newline])
  | .default _ => [.indent n, .word .default, .mark .colon, .newline]

mutual

def TypeSpec.chunks (n : Nat) : TypeSpec → List Chunk
  | .primitive k => k.chunks
  | .named t => [.name t.name]
  | .sequence element b =>
    .word .sequence :: .mark .less :: (element.chunks n ++ (boundChunks b ++ [.mark .greater]))
  | .set element b =>
    .word .set :: .mark .less :: (element.chunks n ++ (boundChunks b ++ [.mark .greater]))
  | .map key value b =>
    .word .map :: .mark .less :: (key.chunks n ++ .mark .comma :: .blank :: (value.chunks n ++
      (boundChunks b ++ [.mark .greater])))
  | .string b => .word .string :: textBoundChunks b
  | .wstring b => .word .wstring :: textBoundChunks b
  | .fixed none => [.word .fixed]
  | .fixed (some (digits, scale)) =>
    .word .fixed :: .mark .less :: (digits.chunks ++ .mark .comma :: .blank :: (scale.chunks ++
      [.mark .greater]))
  | .struct ⟨i, b, fields, _⟩ =>
    .word .struct :: .blank :: .ident i :: (baseChunks b ++ braced n (memberChunks (n + 4) fields))
  | .union ⟨i, ⟨as, type, _⟩, cases, _⟩ =>
    .word .union :: .blank :: .ident i :: .blank :: .word .switch :: .blank :: .mark .leftParen ::
      (inlineUses as ++ (type.chunks n ++ .mark .rightParen :: braced n (caseChunks (n + 4) cases)))
  | .enum t => t.chunks n
  | .bitset t => t.chunks n
  | .bitmask t => t.chunks n

def memberChunks (n : Nat) : List (Member TypeSpec) → List Chunk
  | [] => []
  | ⟨as, type, ds, _⟩ :: rest =>
    lineUses n as ++ .indent n :: (type.chunks n ++ .blank :: (declaratorChunks ds ++
      .mark .semi :: .newline :: memberChunks n rest))

def caseChunks (n : Nat) : List (UnionCase TypeSpec) → List Chunk
  | [] => []
  | ⟨labels, as, type, d, _⟩ :: rest =>
    labels.flatMap (CaseLabel.chunks n) ++ (lineUses (n + 4) as ++ .indent (n + 4) ::
      (type.chunks (n + 4) ++ .blank :: (d.chunks ++ .mark .semi :: .newline :: caseChunks n rest)))

end

/-- A word that is only there where something holds. -/
def flagChunks (k : Keyword) (holds : Bool) : List Chunk := if holds then [.word k, .blank] else []

def Direction.word : Direction → Keyword
  | .input => .inKw
  | .output => .out
  | .both => .inOut

def Member.chunks (n : Nat) (m : Member TypeSpec) : List Chunk :=
  lineUses n m.annotations ++ .indent n :: (m.type.chunks n ++ .blank ::
    (declaratorChunks m.declarators ++ [.mark .semi, .newline]))

def UnionCase.chunks (n : Nat) (c : UnionCase TypeSpec) : List Chunk :=
  c.labels.flatMap (CaseLabel.chunks n) ++ (lineUses (n + 4) c.annotations ++ .indent (n + 4) ::
    (c.type.chunks (n + 4) ++ .blank :: (c.declarator.chunks ++ [.mark .semi, .newline])))

theorem memberChunks_eq (n : Nat) (ms : List (Member TypeSpec)) :
    memberChunks n ms = ms.flatMap (Member.chunks n) := by
  induction ms with
  | nil => rw [memberChunks, List.flatMap_nil]
  | cons m ms ih => simp [memberChunks, Member.chunks, ih]

theorem caseChunks_eq (n : Nat) (cs : List (UnionCase TypeSpec)) :
    caseChunks n cs = cs.flatMap (UnionCase.chunks n) := by
  induction cs with
  | nil => rw [caseChunks, List.flatMap_nil]
  | cons c cs ih => simp [caseChunks, UnionCase.chunks, ih]

def Param.chunks (n : Nat) (p : Param) : List Chunk :=
  inlineUses p.annotations ++ .word p.direction.word :: .blank :: (p.type.chunks n ++
    [.blank, .ident p.name])

def paramChunks (n : Nat) (ps : List Param) : List Chunk :=
  .mark .leftParen :: (commas (Param.chunks n) ps ++ [.mark .rightParen])

/-! Exports, without the annotations in front. -/

def Attribute.declChunks (n : Nat) (a : Attribute) : List Chunk :=
  flagChunks .readonly a.readonly ++ .word .attributeKw :: .blank :: (a.type.chunks n ++
    (trailChunks a.names ++
      (if a.readonly then raisesChunks .raises a.getRaises
        else raisesChunks .getRaises a.getRaises ++ raisesChunks .setRaises a.setRaises)))

def contextChunks (texts : List String) : List Chunk :=
  if texts.isEmpty then []
  else .blank :: .word .context :: .mark .leftParen :: (commas (fun s => [.text s]) texts ++
    [.mark .rightParen])

def resultChunks (n : Nat) (t : Option TypeSpec) : List Chunk :=
  match t with
  | some t => t.chunks n
  | none => [.word .void]

def Operation.declChunks (n : Nat) (o : Operation) : List Chunk :=
  flagChunks .oneway o.oneway ++ (resultChunks n o.result ++ .blank :: .ident o.name ::
    (paramChunks n o.params ++ (raisesChunks .raises o.raises ++ contextChunks o.context)))

def StateMember.word (m : StateMember) : Keyword := if m.isPublic then .publicKw else .privateKw

def StateMember.declChunks (n : Nat) (m : StateMember) : List Chunk :=
  .word m.word :: .blank :: (m.member.type.chunks n ++ .blank ::
    declaratorChunks m.member.declarators)

def InitializerKind.word : InitializerKind → Keyword
  | .factory => .factory
  | .finder => .finder

def Initializer.declChunks (n : Nat) (i : Initializer) : List Chunk :=
  .word i.kind.word :: .blank :: .ident i.name :: (paramChunks n i.params ++
    raisesChunks .raises i.raises)

def PortKind.chunks : PortKind → List Chunk
  | .provides => [.word .provides]
  | .uses true => [.word .uses, .blank, .word .multiple]
  | .uses false => [.word .uses]
  | .emits => [.word .emits]
  | .publishes => [.word .publishes]
  | .consumes => [.word .consumes]

def Port.declChunks (p : Port) : List Chunk :=
  p.kind.chunks ++ [.blank, .name p.type, .blank, .ident p.name]

def Qualifier.word : Qualifier → Keyword
  | .abstractType => .abstractKw
  | .localType => .localKw
  | .customType => .custom

def qualifierChunks (q : Option Qualifier) : List Chunk :=
  match q with
  | some q => [.word q.word, .blank]
  | none => []

/-- A lead and names, unless there are none. -/
def leadChunks (lead : List Chunk) (ns : List ScopedName) : List Chunk :=
  if ns.isEmpty then [] else lead ++ nameChunks ns

def supportsChunks (ns : List ScopedName) : List Chunk :=
  leadChunks [.blank, .word .supports, .blank] ns

/-- What stands before the body of a value or event type. -/
def ValueType.headChunks (k : Keyword) (v : ValueType Definition) : List Chunk :=
  qualifierChunks v.qualifier ++ .word k :: .blank :: .ident v.name ::
    (leadChunks (.blank :: .mark .colon :: .blank :: flagChunks .truncatable v.truncatable)
        v.bases ++
      supportsChunks v.supports)

def optionalChunks (lead : List Chunk) (n : Option ScopedName) : List Chunk :=
  match n with
  | some n => lead ++ [.name n]
  | none => []

def colonChunks (n : Option ScopedName) : List Chunk :=
  optionalChunks [.blank, .mark .colon, .blank] n

def defaultChunks (e : Option ConstExpr) : List Chunk :=
  match e with
  | some e => .blank :: .word .default :: .blank :: e.chunks
  | none => []

def AnnotationMember.chunks (n : Nat) (m : AnnotationMember) : List Chunk :=
  .indent n :: (m.type.chunks n ++ .blank :: .ident m.name :: (defaultChunks m.default ++
    [.mark .semi, .newline]))

def ForwardKind.word : ForwardKind → Keyword
  | .struct => .struct
  | .union => .union
  | .interface => .interface
  | .value => .valueType
  | .event => .eventType
  | .component => .component

mutual

def Definition.chunks (n : Nat) : Definition → List Chunk
  | ⟨as, kind, _⟩ => lineUses n as ++ .indent n :: (kindChunks n kind ++ [.mark .semi, .newline])

def kindChunks (n : Nat) : DefinitionKind Definition → List Chunk
  | .module ⟨i, ds⟩ =>
    .word .moduleKw :: .blank :: .ident i :: braced n (definitionChunks (n + 4) ds)
  | .struct t => (TypeSpec.struct t).chunks n
  | .union t => (TypeSpec.union t).chunks n
  | .enum t => t.chunks n
  | .bitset t => t.chunks n
  | .bitmask t => t.chunks n
  | .typedef d => .word .typeDef :: .blank :: (d.type.chunks n ++ .blank ::
      declaratorChunks d.declarators)
  | .const d => .word .const :: .blank :: (d.type.chunks n ++ .blank :: .ident d.name :: .blank ::
      .mark .equals :: .blank :: d.value.chunks)
  | .exception d => .word .exception :: .blank :: .ident d.name ::
      braced n (memberChunks (n + 4) d.members)
  | .native i => [.word .native, .blank, .ident i]
  | .forward d => qualifierChunks d.qualifier ++ [.word d.kind.word, .blank, .ident d.name]
  | .interface ⟨i, q, bases, body⟩ =>
    qualifierChunks q ++ .word .interface :: .blank :: .ident i ::
      (leadChunks [.blank, .mark .colon, .blank] bases ++ braced n (exportChunks (n + 4) body))
  | .value ⟨i, q, truncatable, bases, supports, body⟩ =>
    ValueType.headChunks .valueType ⟨i, q, truncatable, bases, supports, []⟩ ++
      braced n (exportChunks (n + 4) body)
  | .event ⟨i, q, truncatable, bases, supports, body⟩ =>
    ValueType.headChunks .eventType ⟨i, q, truncatable, bases, supports, []⟩ ++
      braced n (exportChunks (n + 4) body)
  | .valueBox d => .word .valueType :: .blank :: .ident d.name :: .blank :: d.type.chunks n
  | .component ⟨i, b, supports, body⟩ =>
    .word .component :: .blank :: .ident i :: (colonChunks b ++ (supportsChunks supports ++
      braced n (exportChunks (n + 4) body)))
  | .home ⟨i, b, supports, manages, key, body⟩ =>
    .word .home :: .blank :: .ident i :: (colonChunks b ++ (supportsChunks supports ++ .blank ::
      .word .manages :: .blank :: .name manages ::
        (optionalChunks [.blank, .word .primaryKey, .blank] key ++
          braced n (exportChunks (n + 4) body))))
  | .typeId d => [.word .typeId, .blank, .name d.target, .blank, .text d.text]
  | .typePrefix d => [.word .typePrefix, .blank, .name d.target, .blank, .text d.text]
  | .annotationDecl ⟨i, ms, ds⟩ =>
    .mark .atSign :: .ident ⟨"annotation", .empty⟩ :: .blank :: .ident i ::
      braced n (ms.flatMap (AnnotationMember.chunks (n + 4)) ++ definitionChunks (n + 4) ds)

def definitionChunks (n : Nat) : List Definition → List Chunk
  | [] => []
  | d :: ds => d.chunks n ++ definitionChunks n ds

def exportChunks (n : Nat) : List (Export Definition) → List Chunk
  | [] => []
  | .definition d :: rest => d.chunks n ++ exportChunks n rest
  | .attribute a :: rest =>
    lineUses n a.annotations ++ .indent n :: (a.declChunks n ++ .mark .semi :: .newline ::
      exportChunks n rest)
  | .operation o :: rest =>
    lineUses n o.annotations ++ .indent n :: (o.declChunks n ++ .mark .semi :: .newline ::
      exportChunks n rest)
  | .stateMember m :: rest =>
    lineUses n m.member.annotations ++ .indent n :: (m.declChunks n ++ .mark .semi :: .newline ::
      exportChunks n rest)
  | .initializer i :: rest =>
    .indent n :: (i.declChunks n ++ .mark .semi :: .newline :: exportChunks n rest)
  | .port p :: rest => .indent n :: (p.declChunks ++ .mark .semi :: .newline :: exportChunks n rest)

end

def Import.chunks (i : Import) : List Chunk :=
  .word .importKw :: .blank :: (match i.target with
    | .scope n => .name n
    | .file path => .text path) :: [.mark .semi, .newline]

def Specification.chunks (s : Specification) : List Chunk :=
  s.imports.flatMap Import.chunks ++ definitionChunks 0 s.definitions

/-! Their text. -/

attribute [local simp] Chunk.chars Punct.text Keyword.text

@[simp] theorem toList_pad (n : Nat) : (Printer.pad n).toList = (Chunk.indent n).chars := by
  have repeated : (Printer.pad n).toList = List.replicate n ' ' := by
    rw [Printer.pad, String.pushn]
    induction n with
    | zero => rfl
    | succ n ih => rw [Nat.repeat, String.toList_push, ih, List.replicate_succ']
  exact repeated

theorem toList_commas {α : Type} {f : α → String} {g : α → List Chunk} (as : List α)
    (same : ∀ a ∈ as, (f a).toList = printed (g a)) :
    (Printer.commaSeparated (as.map f)).toList = printed (commas g as) := by
  cases as with
  | nil => rfl
  | cons a as =>
    rw [List.forall_mem_cons] at same
    rw [Printer.commaSeparated, List.map_cons, Grammar.toList_intercalate_cons, commas,
      printed_append, same.1, printed_flatMap, List.flatMap_map]
    congr 1
    refine List.flatMap_congr fun b mem => ?_
    simp [same.2 b mem]

theorem toList_join {α : Type} {f : α → String} {g : α → List Chunk} (as : List α)
    (same : ∀ a ∈ as, (f a).toList = printed (g a)) :
    (String.join (as.map f)).toList = printed (as.flatMap g) := by
  rw [printed_flatMap, String.toList_join, List.flatMap_map]
  exact List.flatMap_congr same

@[simp] theorem toList_names (is : List Ident) :
    (Printer.names is).toList = printed (identChunks is) :=
  toList_commas is fun i _ => by simp

@[simp] theorem toList_scopedNames (ns : List ScopedName) :
    (Printer.scopedNames ns).toList = printed (nameChunks ns) :=
  toList_commas ns fun n _ => by simp

theorem toList_raises (k : Keyword) (ns : List ScopedName) :
    (Printer.raises k.text ns).toList = printed (raisesChunks k ns) := by
  rw [Printer.raises, raisesChunks]
  split <;> simp

@[simp] theorem ConstExpr.toList_text (e : ConstExpr) : e.text.toList = printed e.chunks := by
  induction e with
  | binary o left right span value ih ih' =>
    simp [ConstExpr.text, ConstExpr.chunks, ih, ih']
  | unary o operand span value ih =>
    have text : o.text = o.mark.text := by cases o <;> rfl
    simp [ConstExpr.text, ConstExpr.chunks, ih, text, -Punct.text]
  | literal | name => simp [ConstExpr.text, ConstExpr.chunks]

@[simp] theorem toList_annotationArgs (args : AnnotationArgs) :
    (Printer.annotationArgs args).toList = printed args.chunks := by
  cases args with
  | none => rfl
  | single e => simp [Printer.annotationArgs, AnnotationArgs.chunks]
  | named params =>
    have each : ∀ p ∈ params, (p.1.name ++ " = " ++ p.2.text).toList =
        printed (.ident p.1 :: .blank :: .mark .equals :: .blank :: p.2.chunks) := by
      intro p _
      simp
    simp [Printer.annotationArgs, AnnotationArgs.chunks, toList_commas params each]

@[simp] theorem toList_annotationUse (a : AnnotationUse) :
    (Printer.annotationUse a).toList = printed a.chunks := by
  simp [Printer.annotationUse, AnnotationUse.chunks]

@[simp] theorem toList_annotationLines (n : Nat) (as : List AnnotationUse) :
    (Printer.annotationLines n as).toList = printed (lineUses n as) :=
  toList_join as fun a _ => by simp

@[simp] theorem toList_inlineAnnotations (as : List AnnotationUse) :
    (Printer.inlineAnnotations as).toList = printed (inlineUses as) :=
  toList_join as fun a _ => by simp

@[simp] theorem toList_declarator (d : Declarator) :
    (Printer.declarator d).toList = printed d.chunks := by
  have dims := toList_join (g := fun e : ConstExpr =>
    .mark .leftBracket :: (e.chunks ++ [.mark .rightBracket]))
    (f := fun e => "[" ++ e.text ++ "]") d.dims fun e _ => by simp
  rw [Printer.declarator, String.toList_append, dims]
  simp [Declarator.chunks]

@[simp] theorem toList_declarators (ds : List Declarator) :
    (Printer.declarators ds).toList = printed (declaratorChunks ds) :=
  toList_commas ds fun d _ => toList_declarator d

@[simp] theorem toList_primitive (k : Primitive) : k.text.toList = printed k.chunks := by
  cases k <;> rfl

@[simp] theorem toList_base (b : Option NamedType) :
    (Printer.base b).toList = printed (baseChunks b) := by
  cases b <;> simp [Printer.base, baseChunks]

@[simp] theorem toList_bound (b : Option ConstExpr) :
    (Printer.bound b).toList = printed (boundChunks b) := by
  cases b <;> simp [Printer.bound, boundChunks]

@[simp] theorem toList_stringBound (b : Option ConstExpr) :
    (Printer.stringBound b).toList = printed (textBoundChunks b) := by
  cases b <;> simp [Printer.stringBound, textBoundChunks]

@[simp] theorem toList_enumerators (n : Nat) (vs : List Enumerator) :
    (Printer.enumerators n vs).toList = printed (enumeratorChunks n vs) := by
  match vs with
  | [] => rfl
  | [v] => simp [Printer.enumerators, enumeratorChunks]
  | v :: w :: vs => simp [Printer.enumerators, enumeratorChunks, toList_enumerators n (w :: vs)]

@[simp] theorem toList_enumType (n : Nat) (t : EnumType) :
    (Printer.enumType n t).toList = printed (t.chunks n) := by
  simp [Printer.enumType, EnumType.chunks, braced]

@[simp] theorem toList_bitmaskType (n : Nat) (t : BitmaskType) :
    (Printer.bitmaskType n t).toList = printed (t.chunks n) := by
  simp [Printer.bitmaskType, BitmaskType.chunks, braced]

theorem toList_bitfield (n : Nat) (f : Bitfield) :
    (Printer.bitfield n f).toList = printed (f.chunks n) := by
  obtain ⟨as, width, type, is, span⟩ := f
  cases type <;> cases is <;>
    simp [Printer.bitfield, Bitfield.chunks, fieldTypeChunks, trailChunks]

@[simp] theorem toList_bitsetType (n : Nat) (t : BitsetType) :
    (Printer.bitsetType n t).toList = printed (t.chunks n) := by
  have fields := toList_join t.bitfields fun f _ => toList_bitfield (n + 4) f
  simp [Printer.bitsetType, BitsetType.chunks, braced, -String.toList_join, fields]

theorem toList_caseLabel (n : Nat) (label : CaseLabel) :
    (Printer.caseLabel n label).toList = printed (label.chunks n) := by
  cases label <;> simp [Printer.caseLabel, CaseLabel.chunks]

mutual

@[simp] theorem toList_typeSpec (n : Nat) (t : TypeSpec) :
    (Printer.typeSpec n t).toList = printed (t.chunks n) := by
  unfold Printer.typeSpec
  match t with
  | .primitive _ | .named _ | .string _ | .wstring _ | .fixed none | .enum _ | .bitset _
  | .bitmask _ => simp [TypeSpec.chunks]
  | .fixed (some (_, _)) => simp [TypeSpec.chunks]
  | .sequence element _ | .set element _ =>
    simp [TypeSpec.chunks, toList_typeSpec n element]
  | .map key value _ =>
    simp [TypeSpec.chunks, toList_typeSpec n key, toList_typeSpec n value]
  | .struct ⟨_, _, fields, _⟩ =>
    simp [TypeSpec.chunks, braced, toList_members (n + 4) fields]
  | .union ⟨_, ⟨_, type, _⟩, cases, _⟩ =>
    simp [TypeSpec.chunks, braced, toList_typeSpec n type,
      toList_unionCases (n + 4) cases]

@[simp] theorem toList_members (n : Nat) (ms : List (Member TypeSpec)) :
    (Printer.members n ms).toList = printed (memberChunks n ms) := by
  match ms with
  | [] => rfl
  | ⟨_, type, _, _⟩ :: rest =>
    simp [Printer.members, memberChunks, toList_typeSpec n type, toList_members n rest]

theorem toList_unionCases (n : Nat) (cs : List (UnionCase TypeSpec)) :
    (Printer.unionCases n cs).toList = printed (caseChunks n cs) := by
  match cs with
  | [] => rfl
  | ⟨labels, _, type, _, _⟩ :: rest =>
    have labels := toList_join labels fun label _ => toList_caseLabel n label
    simp [Printer.unionCases, caseChunks, -String.toList_join, labels,
      toList_typeSpec (n + 4) type, toList_unionCases n rest]

end

/-! Exports and definitions. -/

@[simp] theorem toList_param (n : Nat) (p : Param) :
    (Printer.param n p).toList = printed (p.chunks n) := by
  obtain ⟨as, direction, type, i⟩ := p
  cases direction <;> simp [Printer.param, Param.chunks, Direction.text, Direction.word]

@[simp] theorem toList_params (n : Nat) (ps : List Param) :
    (Printer.params n ps).toList = printed (paramChunks n ps) := by
  have each := toList_commas ps fun p _ => toList_param n p
  simp [Printer.params, paramChunks, each]

theorem toList_attributeDecl (n : Nat) (a : Attribute) :
    (Printer.attributeDecl n a).toList =
      printed (lineUses n a.annotations ++ .indent n :: a.declChunks n) := by
  have raises := toList_raises .raises a.getRaises
  have get := toList_raises .getRaises a.getRaises
  have set := toList_raises .setRaises a.setRaises
  simp only [Keyword.text] at raises get set
  obtain ⟨as, readonly, type, is, getRaises, setRaises, span⟩ := a
  cases readonly <;> cases is <;>
    simp [Printer.attributeDecl, Attribute.declChunks, flagChunks, trailChunks, raises, get, set]

@[simp] theorem toList_context (texts : List String) :
    (Printer.context texts).toList = printed (contextChunks texts) := by
  have each := toList_commas (f := Text.shownString) (g := fun s => [.text s]) texts
    fun s _ => by simp
  rw [Printer.context, contextChunks]
  split
  · rfl
  · simp [each]

theorem toList_operation (n : Nat) (o : Operation) :
    (Printer.operation n o).toList =
      printed (lineUses n o.annotations ++ .indent n :: o.declChunks n) := by
  have raises := toList_raises .raises o.raises
  simp only [Keyword.text] at raises
  obtain ⟨as, oneway, result, i, ps, ns, texts, span⟩ := o
  cases oneway <;> cases result <;>
    simp [Printer.operation, Operation.declChunks, flagChunks, resultChunks, raises]

theorem toList_stateMember (n : Nat) (m : StateMember) :
    (Printer.stateMember n m).toList =
      printed (lineUses n m.member.annotations ++ .indent n :: m.declChunks n) := by
  obtain ⟨isPublic, member⟩ := m
  cases isPublic <;> simp [Printer.stateMember, StateMember.declChunks, StateMember.word]

theorem toList_initializer (n : Nat) (i : Initializer) :
    (Printer.initializer n i).toList = printed (.indent n :: i.declChunks n) := by
  have raises := toList_raises .raises i.raises
  simp only [Keyword.text] at raises
  obtain ⟨kind, name, ps, ns, span⟩ := i
  cases kind <;>
    simp [Printer.initializer, Initializer.declChunks, InitializerKind.text,
      InitializerKind.word, raises]

theorem toList_port (n : Nat) (p : Port) :
    (Printer.port n p).toList = printed (.indent n :: p.declChunks) := by
  obtain ⟨kind, type, i, span⟩ := p
  match kind with
  | .provides | .uses true | .uses false | .emits | .publishes | .consumes =>
    simp [Printer.port, Port.declChunks, PortKind.text, PortKind.chunks]

@[simp] theorem toList_qualifier (q : Option Qualifier) :
    (Printer.qualifier q).toList = printed (qualifierChunks q) := by
  match q with
  | none => rfl
  | some .abstractType | some .localType | some .customType => rfl

theorem toList_namesAfter {lead : String} {cs : List Chunk} (same : lead.toList = printed cs)
    (ns : List ScopedName) : (Printer.namesAfter lead ns).toList = printed (leadChunks cs ns) := by
  rw [Printer.namesAfter, leadChunks]
  split <;> simp [same]

@[simp] theorem toList_supports (ns : List ScopedName) :
    (Printer.namesAfter " supports " ns).toList = printed (supportsChunks ns) :=
  toList_namesAfter rfl ns

theorem toList_valueHead (k : Keyword) (v : ValueType Definition) :
    (Printer.valueHead k.text v).toList = printed (v.headChunks k) := by
  obtain ⟨i, q, truncatable, bases, supports, body⟩ := v
  cases truncatable <;> cases bases <;>
    simp [Printer.valueHead, ValueType.headChunks, leadChunks, flagChunks]

theorem toList_optionalName {lead : String} {cs : List Chunk} (same : lead.toList = printed cs)
    (n : Option ScopedName) :
    (Printer.optionalName lead n).toList = printed (optionalChunks cs n) := by
  cases n <;> simp [Printer.optionalName, optionalChunks, same]

@[simp] theorem toList_colonName (n : Option ScopedName) :
    (Printer.optionalName " : " n).toList = printed (colonChunks n) :=
  toList_optionalName rfl n

theorem toList_annotationMember (n : Nat) (m : AnnotationMember) :
    (Printer.annotationMember n m).toList = printed (m.chunks n) := by
  obtain ⟨type, i, default⟩ := m
  cases default <;> simp [Printer.annotationMember, AnnotationMember.chunks, defaultChunks]

mutual

@[simp] theorem toList_definition (n : Nat) (d : Definition) :
    (Printer.definition n d).toList = printed (d.chunks n) := by
  match d with
  | ⟨_, kind, _⟩ => simp [Printer.definition, Definition.chunks, toList_definitionKind n kind]

theorem toList_definitionKind (n : Nat) (kind : DefinitionKind Definition) :
    (Printer.definitionKind n kind).toList = printed (kindChunks n kind) := by
  unfold Printer.definitionKind
  match kind with
  | .struct _ | .union _ | .enum _ | .bitset _ | .bitmask _ | .typedef _ | .const _ | .exception _
  | .native _ | .valueBox _ | .typeId _ | .typePrefix _ =>
    simp [kindChunks, braced]
  | .module ⟨_, ds⟩ =>
    simp [kindChunks, braced, toList_definitions (n + 4) ds]
  | .forward ⟨kind, _, _⟩ =>
    cases kind <;>
      simp [kindChunks, ForwardKind.text, ForwardKind.word]
  | .interface ⟨_, _, bases, body⟩ =>
    have bases : (Printer.namesAfter " : " bases).toList =
        printed (leadChunks [.blank, .mark .colon, .blank] bases) := toList_namesAfter rfl bases
    simp [kindChunks, braced, bases, toList_exports (n + 4) body]
  | .value ⟨i, q, truncatable, bases, supports, body⟩ =>
    have head := toList_valueHead .valueType ⟨i, q, truncatable, bases, supports, []⟩
    simp only [Keyword.text] at head
    simp [kindChunks, braced, head, toList_exports (n + 4) body]
  | .event ⟨i, q, truncatable, bases, supports, body⟩ =>
    have head := toList_valueHead .eventType ⟨i, q, truncatable, bases, supports, []⟩
    simp only [Keyword.text] at head
    simp [kindChunks, braced, head, toList_exports (n + 4) body]
  | .component ⟨_, _, _, body⟩ =>
    simp [kindChunks, braced, Printer.componentHead,
      toList_exports (n + 4) body]
  | .home ⟨_, _, _, _, key, body⟩ =>
    have key : (Printer.optionalName " primarykey " key).toList =
        printed (optionalChunks [.blank, .word .primaryKey, .blank] key) :=
      toList_optionalName rfl key
    simp [kindChunks, braced, Printer.homeHead, key,
      toList_exports (n + 4) body]
  | .annotationDecl ⟨_, ms, ds⟩ =>
    have members := toList_join ms fun m _ => toList_annotationMember (n + 4) m
    simp [kindChunks, braced, -String.toList_join, members,
      toList_definitions (n + 4) ds]

theorem toList_definitions (n : Nat) (ds : List Definition) :
    (Printer.definitions n ds).toList = printed (definitionChunks n ds) := by
  match ds with
  | [] => rfl
  | d :: rest =>
    simp [Printer.definitions, definitionChunks, toList_definition n d, toList_definitions n rest]

theorem toList_exports (n : Nat) (es : List (Export Definition)) :
    (Printer.exports n es).toList = printed (exportChunks n es) := by
  match es with
  | [] => rfl
  | .definition d :: rest =>
    simp [Printer.exports, exportChunks, toList_definition n d, toList_exports n rest]
  | .attribute a :: rest =>
    simp [Printer.exports, exportChunks, toList_attributeDecl n a, toList_exports n rest]
  | .operation o :: rest =>
    simp [Printer.exports, exportChunks, toList_operation n o, toList_exports n rest]
  | .stateMember m :: rest =>
    simp [Printer.exports, exportChunks, toList_stateMember n m, toList_exports n rest]
  | .initializer i :: rest =>
    simp [Printer.exports, exportChunks, toList_initializer n i, toList_exports n rest]
  | .port p :: rest =>
    simp [Printer.exports, exportChunks, toList_port n p, toList_exports n rest]

end

/-- A printed unit is the text of its chunks. -/
theorem Specification.toList_text (s : Specification) : s.text.toList = printed s.chunks := by
  have imports := toList_join (f := Printer.importDecl) (g := Import.chunks) s.imports fun i _ => by
    obtain ⟨target, span⟩ := i
    cases target <;> simp [Printer.importDecl, Import.chunks]
  simp [Specification.text, Specification.chunks, -String.toList_join, imports, toList_definitions]

end Idl
