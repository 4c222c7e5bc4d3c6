import Idl.Binding.Alias
import Idl.Proofs.Binding.Binds
import Idl.Proofs.Layout.Laid

/-!
Types after binding. Unless binding reports something, every name in a type refers to a type and
every size has a value, bases are of the right kind and labels of the discriminant's type; what the
type declares stays the same. Main statement: `binds_typeSpec`.
-/

set_option autoImplicit false

namespace Idl

open Binding

/-- The expression has got a value as a size. -/
def Sized (e : ConstExpr) : Prop := Valued sizeType e

/-- The names in a type refer to types, and its sizes have values. -/
def Settled (t : SymbolTable) (τ : TypeSpec) : Prop :=
  τ.Every (fun type => ∃ id, type.target = some id ∧ (t.kind id).isType = true) Sized
    fun digits scale => Sized digits ∧ Sized scale

def SettledMember (t : SymbolTable) (m : Member TypeSpec) : Prop :=
  Settled t m.type ∧ ∀ d ∈ m.declarators, ∀ e ∈ d.dims, Sized e

def SettledCase (t : SymbolTable) (c : UnionCase TypeSpec) : Prop :=
  Settled t c.type ∧ ∀ e ∈ c.declarator.dims, Sized e

/-- The base, if there is one, is a symbol of the kind. -/
def BaseOf (t : SymbolTable) (kind : SymbolKind) (base : Option NamedType) : Prop :=
  ∀ type ∈ base, ∃ id, type.target = some id ∧ t.kind id = kind

/-- The labels that are values are values of the type. -/
def LabelsOf (type : Option ConstType) (ls : List CaseLabel) : Prop :=
  ∀ labelType ∈ type, ∀ e, .value e ∈ ls → Valued labelType e

/-- The second declaration is the first one bound. -/
def BoundAs (t : SymbolTable) : Laid → Laid → Prop
  | .struct _, .struct s => BaseOf t .struct s.base ∧ ∀ m ∈ s.members, SettledMember t m
  | .union _, .union u =>
    Settled t u.discriminant.type ∧ (∀ c ∈ u.cases, SettledCase t c) ∧
      ∀ c ∈ u.cases, LabelsOf (t.discriminantType? u.discriminant.type) c.labels
  | .enum _ _, .enum _ _ => True
  | .bitset s, .bitset s' =>
    BaseOf t .bitset s'.base ∧
      ∀ f ∈ s'.bitfields, Sized f.width ∧ ∃ g ∈ s.bitfields, g.type = f.type
  | .bitmask _ _, .bitmask _ _ => True
  | .typedef _ _, .typedef type d =>
    Settled t type ∧ (∀ e ∈ d.dims, Sized e) ∧ ∀ id, t.definedAt? d.name.span = some id →
      (t.symbol id).aliased.map Alias.outline = some (type.head, !d.dims.isEmpty)
  | .const d, .const d' =>
    d'.type.declarations = d.type.declarations ∧
      ∃ constant, d'.value.value = some constant ∧ t.constType? d'.type = some constant.type ∧
        constant.value.HasType constant.type
  | .exception _, .exception d => ∀ m ∈ d.members, SettledMember t m
  | .native _, .native _ => True
  | .closed _ _, .closed _ _ => True
  | _, _ => False

/-! Over tables of one outline, types and declarations are bound alike. -/

section

variable {t u : SymbolTable}

theorem TypeSpec.Every.imp {named named' : NamedType → Prop} {size size' : ConstExpr → Prop}
    {fixed fixed' : ConstExpr → ConstExpr → Prop} (names : ∀ n, named n → named' n)
    (sizes : ∀ e, size e → size' e) (pairs : ∀ d s, fixed d s → fixed' d s) :
    (τ : TypeSpec) → τ.Every named size fixed → τ.Every named' size' fixed'
  | .named _, holds => names _ holds
  | .sequence element _, holds =>
    ⟨TypeSpec.Every.imp names sizes pairs element holds.1, fun e mem => sizes e (holds.2 e mem)⟩
  | .set element _, holds =>
    ⟨TypeSpec.Every.imp names sizes pairs element holds.1, fun e mem => sizes e (holds.2 e mem)⟩
  | .map key value _, holds =>
    ⟨TypeSpec.Every.imp names sizes pairs key holds.1,
      TypeSpec.Every.imp names sizes pairs value holds.2.1, fun e mem => sizes e (holds.2.2 e mem)⟩
  | .string _, holds => fun e mem => sizes e (holds e mem)
  | .wstring _, holds => fun e mem => sizes e (holds e mem)
  | .fixed (some (_, _)), holds => pairs _ _ holds
  | .fixed none, _ => trivial
  | .primitive _, _ => trivial
  | .struct _, _ => trivial
  | .union _, _ => trivial
  | .enum _, _ => trivial
  | .bitset _, _ => trivial
  | .bitmask _, _ => trivial

theorem Settled.congr (same : SameFrame t u) {τ : TypeSpec} (settled : Settled t τ) :
    Settled u τ :=
  TypeSpec.Every.imp (fun _ ⟨id, target, isType⟩ => ⟨id, target, by rw [same.kind]; exact isType⟩)
    (fun _ sized => sized) (fun _ _ sized => sized) τ settled

theorem SettledMember.congr (same : SameFrame t u) {m : Member TypeSpec}
    (settled : SettledMember t m) : SettledMember u m :=
  ⟨settled.1.congr same, settled.2⟩

theorem SettledCase.congr (same : SameFrame t u) {c : UnionCase TypeSpec}
    (settled : SettledCase t c) : SettledCase u c :=
  ⟨settled.1.congr same, settled.2⟩

theorem BaseOf.congr (same : SameFrame t u) {kind : SymbolKind} {base : Option NamedType}
    (holds : BaseOf t kind base) : BaseOf u kind base := fun type mem => by
  obtain ⟨id, target, found⟩ := holds type mem
  exact ⟨id, target, (same.kind id).trans found⟩

theorem BoundAs.congr (same : SameOutline t u) {x y : Laid} (bound : BoundAs t x y) :
    BoundAs u x y := by
  unfold BoundAs at bound ⊢
  split at bound
  · exact ⟨bound.1.congr same.frame, fun m mem => (bound.2 m mem).congr same.frame⟩
  · refine ⟨bound.1.congr same.frame, fun c mem => (bound.2.1 c mem).congr same.frame, ?_⟩
    rw [SymbolTable.discriminantType?_congr same rfl]
    exact bound.2.2
  · trivial
  · exact ⟨bound.1.congr same.frame, bound.2⟩
  · trivial
  · refine ⟨bound.1.congr same.frame, bound.2.1, fun id place => ?_⟩
    rw [same.frame.definedAt?] at place
    rw [same.aliases]
    exact bound.2.2 id place
  · rw [SymbolTable.constType?_congr same rfl]
    exact bound
  · exact fun m mem => (bound m mem).congr same.frame
  · trivial
  · trivial
  · exact bound.elim

end

/-- The second type is the first one bound in the scope. -/
structure BoundType (t : SymbolTable) (scope : SymbolId) (τ τ' : TypeSpec) : Prop where
  declarations : τ'.declarations = τ.declarations
  settled : Settled t τ'
  laid : List.Forall₂ (BoundAs t) τ.laid τ'.laid
  head : τ'.head = (namesBound t scope τ).head

structure BoundMembers (t : SymbolTable) (ms ms' : List (Member TypeSpec)) : Prop where
  length : ms'.length = ms.length
  declarations : memberDeclarations ms' = memberDeclarations ms
  settled : ∀ m ∈ ms', SettledMember t m
  laid : List.Forall₂ (BoundAs t) (memberLaid ms) (memberLaid ms')

structure BoundCases (t : SymbolTable) (type : Option ConstType)
    (cs cs' : List (UnionCase TypeSpec)) : Prop where
  declarations : caseDeclarations cs' = caseDeclarations cs
  settled : ∀ c ∈ cs', SettledCase t c
  labels : ∀ c ∈ cs', LabelsOf type c.labels
  laid : List.Forall₂ (BoundAs t) (caseLaid cs) (caseLaid cs')

namespace Binding

variable {t : SymbolTable}

theorem binds_size (scope : SymbolId) (e : ConstExpr) : Binds t (size scope e) Sized :=
  binds_expr scope sizeType e

theorem binds_size? (scope : SymbolId) (e : Option ConstExpr) :
    Binds t (size? scope e) fun e' => ∀ size ∈ e', Sized size := by
  refine (Binds.mapOption (R := fun _ => Sized) (binds_size scope) e).weaken ?_
  rintro _ (holds | _) size mem
  · cases mem
    exact holds
  · cases mem

theorem binds_valueParam (scope : SymbolId) (type : ConstType) (params : List (Ident × ConstExpr)) :
    Binds t (valueParam scope type params) fun _ => True := by
  induction params with
  | nil => exact Binds.pure trivial
  | cons p rest ih =>
    rw [valueParam]
    split
    · exact (binds_expr scope type p.2).bind fun _ => Binds.pure fun _ => trivial
    · exact ih.bind fun _ => Binds.pure fun _ => trivial

theorem binds_annotationUse (scope : SymbolId) (a : AnnotationUse) :
    Binds t (annotationUse scope a) fun _ => True := by
  rw [annotationUse]
  split
  · exact Binds.pure trivial
  · split
    · exact Binds.pure trivial
    · exact (binds_expr scope _ _).bind fun _ => Binds.pure fun _ => trivial
    · exact (binds_valueParam scope _ _).bind fun _ => Binds.pure fun _ => trivial

theorem binds_annotations (scope : SymbolId) (as : List AnnotationUse) :
    Binds t (annotations scope as) fun _ => True :=
  (Binds.mapM as fun a _ => binds_annotationUse scope a).free

/-- The second declarator is the first one with its dimensions evaluated. -/
structure BoundDeclarator (d d' : Declarator) : Prop where
  name : d'.name = d.name
  sized : ∀ e ∈ d'.dims, Sized e
  isEmpty : d'.dims.isEmpty = d.dims.isEmpty

theorem binds_declarator (scope : SymbolId) (d : Declarator) :
    Binds t (declarator scope d) (BoundDeclarator d) := by
  refine (Binds.mapM (R := fun _ => Sized) d.dims fun e _ => binds_size scope e).bind fun dims =>
    Binds.pure fun sized => ⟨rfl, fun e mem => ?_, ?_⟩
  · obtain ⟨_, _, holds⟩ := exists_of_forall₂ sized e mem
    exact holds
  · generalize d.dims = old at sized
    cases sized <;> rfl

/-- A name that is bound stands for a type, the one it resolves to. -/
structure BoundName (t : SymbolTable) (scope : SymbolId) (type type' : NamedType) : Prop where
  target : ∃ id, type'.target = some id ∧ (t.kind id).isType = true
  resolved : type'.target =
    (t.resolve scope type.name).toOption.filter fun id => (t.kind id).isType

/-- What is done with what a name of a type refers to in a table. -/
def withResolved (table : SymbolTable) (type : NamedType) :
    Except LookupError SymbolId → BindM NamedType
  | .ok id => do
    let symbol := table.symbol id
    if symbol.kind.isType then return { type with target := some id }
    report (.notType type.name.text symbol.kind symbol.span) type.name.span
    return type
  | .error error => do
    report (.lookup error) type.name.span
    return type

theorem binds_namedType (scope : SymbolId) (type : NamedType) :
    Binds t (namedType scope type) (BoundName t scope type) := by
  intro b
  have unfolded : (namedType scope type).run b =
      (withResolved b.table type (b.table.resolve scope type.name)).run b := rfl
  rw [unfolded]
  cases found : b.table.resolve scope type.name with
  | error error => exact ⟨_, rfl, fun none => by cases none⟩
  | ok id =>
    cases isType : (b.table.symbol id).kind.isType with
    | false =>
      refine ⟨[⟨.notType type.name.text (b.table.symbol id).kind (b.table.symbol id).span,
        type.name.span⟩], ?_, fun none => by cases none⟩
      simp only [withResolved, isType]
      rfl
    | true =>
      refine ⟨[], ?_, fun _ steady => ?_⟩
      · simp only [withResolved, isType]
        exact (List.append_nil b.errors).symm
      · simp only [withResolved, isType]
        rw [steady.outline.frame.resolve] at found
        have kind : (t.kind id).isType = true := by
          rw [← steady.outline.frame.kind]
          exact isType
        refine ⟨steady, ⟨id, rfl, kind⟩, ?_⟩
        rw [found]
        exact (if_pos kind).symm

theorem binds_base (scope : SymbolId) (owner : Ident) (kind : SymbolKind) (type : NamedType) :
    Binds t (base scope owner kind type) fun type' =>
      ∃ id, type'.target = some id ∧ t.kind id = kind := by
  refine (binds_namedType scope type).bind fun type' => ?_
  cases target : type'.target with
  | none =>
    refine Binds.pure fun bound => ?_
    obtain ⟨id, some, -⟩ := bound.target
    rw [target] at some
    cases some
  | some id =>
    refine (Binds.looked (R := fun found => found = t.kind id) fun u steady =>
      steady.outline.frame.kind id).bind fun found => ?_
    split
    · next same => exact Binds.pure fun eq _ => ⟨id, target, eq.symm.trans same⟩
    · exact Binds.reported _ _ _ (Binds.pure trivial)

theorem binds_base? (scope : SymbolId) (owner : Ident) (kind : SymbolKind)
    (type : Option NamedType) :
    Binds t (type.mapM (base scope owner kind)) (BaseOf t kind) := by
  refine (Binds.mapOption (R := fun _ type' => ∃ id, type'.target = some id ∧ t.kind id = kind)
    (binds_base scope owner kind) type).weaken ?_
  rintro _ (holds | _) type' mem
  · cases mem
    exact holds
  · cases mem

theorem binds_enumerators (scope : SymbolId) (es : List Enumerator) :
    Binds t (es.mapM (enumerator scope)) fun es' => es'.map (·.name) = es.map (·.name) := by
  refine (Binds.mapM (R := fun e e' => e'.name = e.name) es fun e _ =>
    (binds_annotations scope e.annotations).bind fun _ => Binds.pure fun _ => rfl).weaken ?_
  intro es' same
  induction same with
  | nil => rfl
  | cons eq _ ih => rw [List.map_cons, List.map_cons, eq, ih]

theorem listing_congr (owner : Ident) (kind : SymbolKind) {es es' : List Enumerator}
    (names : es'.map (·.name) = es.map (·.name)) :
    listing owner kind es' = listing owner kind es := by
  have listed (vs : List Enumerator) : listing owner kind vs =
      ⟨owner, .defined kind⟩ :: (vs.map (·.name)).map fun name => ⟨name, .listed owner⟩ := by
    rw [listing, List.map_map]
    rfl
  rw [listed, listed, names]

theorem binds_enumType (scope : SymbolId) (e : EnumType) :
    Binds t (enumType scope e) fun e' => e'.name = e.name ∧
      listing e'.name .enum e'.enumerators = listing e.name .enum e.enumerators :=
  (binds_enumerators scope e.enumerators).bind fun _ => Binds.pure fun names =>
    ⟨rfl, listing_congr e.name .enum names⟩

theorem binds_bitmaskType (scope : SymbolId) (s : BitmaskType) :
    Binds t (bitmaskType scope s) fun s' => s'.name = s.name ∧
      listing s'.name .bitmask s'.values = listing s.name .bitmask s.values :=
  (binds_enumerators scope s.values).bind fun _ => Binds.pure fun names =>
    ⟨rfl, listing_congr s.name .bitmask names⟩

theorem binds_bitfield (scope : SymbolId) (f : Bitfield) :
    Binds t (bitfield scope f) fun f' => Sized f'.width ∧ f.type = f'.type :=
  (binds_annotations scope f.annotations).bind fun _ => (binds_size scope f.width).bind fun _ =>
    Binds.pure fun sized _ => ⟨sized, rfl⟩

theorem binds_bitsetType (scope : SymbolId) (s : BitsetType) :
    Binds t (bitsetType scope s)
      fun s' => s'.name = s.name ∧ BoundAs t (.bitset s) (.bitset s') := by
  refine (binds_base? scope s.name .bitset s.base).bind fun b => ?_
  refine (Binds.mapM s.bitfields fun f _ => binds_bitfield scope f).bind fun fs => ?_
  refine Binds.pure fun fields base => ⟨rfl, base, fun f mem => ?_⟩
  obtain ⟨g, inside, sized, type⟩ := exists_of_forall₂ fields f mem
  exact ⟨sized, g, inside, type⟩

theorem binds_caseLabel (scope : SymbolId) (type : Option ConstType) (l : CaseLabel) :
    Binds t (caseLabel scope type l) fun l' =>
      ∀ labelType ∈ type, ∀ e, l' = .value e → Valued labelType e := by
  cases type with
  | none => exact Binds.pure fun _ mem => by cases mem
  | some type =>
    cases l with
    | default span => exact Binds.pure fun _ _ e eq => by cases eq
    | value e =>
      refine (binds_expr scope type e).bind fun e' => Binds.pure fun valued labelType mem f eq => ?_
      cases mem
      cases eq
      exact valued

theorem binds_caseLabels (scope : SymbolId) (type : Option ConstType) (ls : List CaseLabel) :
    Binds t (ls.mapM (caseLabel scope type)) (LabelsOf type) := by
  refine (Binds.mapM ls fun l _ => binds_caseLabel scope type l).weaken ?_
  intro ls' labels labelType mem e inside
  obtain ⟨_, _, valued⟩ := exists_of_forall₂ labels _ inside
  exact valued labelType mem e rfl

theorem binds_scopeOf (name : Ident) (outer : SymbolId) :
    Binds t (scopeOf name outer) fun id => id = (t.definedAt? name.span).getD outer :=
  (Binds.looked (R := fun place => place = t.definedAt? name.span) fun u steady =>
    steady.outline.frame.definedAt? name.span).bind fun _ => Binds.pure fun eq => by rw [eq]

mutual

theorem binds_typeSpec (t : SymbolTable) (scope : SymbolId) : (τ : TypeSpec) →
    Binds t (typeSpec scope τ) (BoundType t scope τ)
  | .primitive k => by
    rw [typeSpec]
    exact Binds.pure ⟨rfl, trivial, by rw [TypeSpec.laid]; exact .nil, rfl⟩
  | .named type => by
    rw [typeSpec]
    refine (binds_namedType scope type).bind fun type' => Binds.pure fun bound =>
      ⟨rfl, bound.target, by rw [TypeSpec.laid, TypeSpec.laid]; exact .nil, ?_⟩
    rw [TypeSpec.head, namesBound, TypeSpec.head, bound.resolved]
  | .sequence element bound => by
    rw [typeSpec]
    refine (binds_typeSpec t scope element).bind fun element' =>
      (binds_size? scope bound).bind fun bound' => Binds.pure fun sized inner =>
        ⟨?_, ⟨inner.settled, sized⟩, ?_, rfl⟩
    · rw [TypeSpec.declarations, TypeSpec.declarations, inner.declarations]
    · rw [TypeSpec.laid, TypeSpec.laid]
      exact inner.laid
  | .set element bound => by
    rw [typeSpec]
    refine (binds_typeSpec t scope element).bind fun element' =>
      (binds_size? scope bound).bind fun bound' => Binds.pure fun sized inner =>
        ⟨?_, ⟨inner.settled, sized⟩, ?_, rfl⟩
    · rw [TypeSpec.declarations, TypeSpec.declarations, inner.declarations]
    · rw [TypeSpec.laid, TypeSpec.laid]
      exact inner.laid
  | .map key value bound => by
    rw [typeSpec]
    refine (binds_typeSpec t scope key).bind fun key' =>
      (binds_typeSpec t scope value).bind fun value' =>
        (binds_size? scope bound).bind fun bound' => Binds.pure fun sized second first =>
          ⟨?_, ⟨first.settled, second.settled, sized⟩, ?_, rfl⟩
    · rw [TypeSpec.declarations, TypeSpec.declarations, first.declarations, second.declarations]
    · rw [TypeSpec.laid, TypeSpec.laid]
      exact List.rel_append first.laid second.laid
  | .string bound => by
    rw [typeSpec]
    exact (binds_size? scope bound).bind fun bound' => Binds.pure fun sized =>
      ⟨rfl, sized, by rw [TypeSpec.laid, TypeSpec.laid]; exact .nil, rfl⟩
  | .wstring bound => by
    rw [typeSpec]
    exact (binds_size? scope bound).bind fun bound' => Binds.pure fun sized =>
      ⟨rfl, sized, by rw [TypeSpec.laid, TypeSpec.laid]; exact .nil, rfl⟩
  | .fixed none => by
    rw [typeSpec]
    exact Binds.pure ⟨rfl, trivial, by rw [TypeSpec.laid]; exact .nil, rfl⟩
  | .fixed (some (digits, scale)) => by
    rw [typeSpec]
    exact (binds_size scope digits).bind fun digits' => (binds_size scope scale).bind fun scale' =>
      Binds.pure fun second first =>
        ⟨rfl, ⟨first, second⟩, by rw [TypeSpec.laid, TypeSpec.laid]; exact .nil, rfl⟩
  | .struct s => by
    rw [typeSpec]
    refine (binds_structType t scope s).bind fun s' => Binds.pure fun bound =>
      ⟨bound.1, trivial, bound.2, rfl⟩
  | .union u => by
    rw [typeSpec]
    refine (binds_unionType t scope u).bind fun u' => Binds.pure fun bound =>
      ⟨bound.1, trivial, bound.2, rfl⟩
  | .enum e => by
    rw [typeSpec]
    refine (binds_enumType scope e).bind fun e' => Binds.pure fun same => ⟨?_, trivial, ?_, ?_⟩
    · rw [TypeSpec.declarations, TypeSpec.declarations, same.2]
    · rw [TypeSpec.laid, TypeSpec.laid]
      exact .cons trivial .nil
    · rw [TypeSpec.head, namesBound, TypeSpec.head, same.1]
  | .bitset s => by
    rw [typeSpec]
    refine (binds_bitsetType scope s).bind fun s' => Binds.pure fun same => ⟨?_, trivial, ?_, rfl⟩
    · rw [TypeSpec.declarations, TypeSpec.declarations, same.1]
    · rw [TypeSpec.laid, TypeSpec.laid]
      exact .cons same.2 .nil
  | .bitmask s => by
    rw [typeSpec]
    refine (binds_bitmaskType scope s).bind fun s' => Binds.pure fun same => ⟨?_, trivial, ?_, rfl⟩
    · rw [TypeSpec.declarations, TypeSpec.declarations, same.2]
    · rw [TypeSpec.laid, TypeSpec.laid]
      exact .cons trivial .nil

theorem binds_structType (t : SymbolTable) (scope : SymbolId) : (s : StructType TypeSpec) →
    Binds t (structType scope s) fun s' =>
      (TypeSpec.struct s').declarations = (TypeSpec.struct s).declarations ∧
      List.Forall₂ (BoundAs t) (TypeSpec.struct s).laid (TypeSpec.struct s').laid
  | ⟨name, b, fields, span⟩ => by
    rw [structType]
    refine (binds_base? scope name .struct b).bind fun b' =>
      (binds_scopeOf name scope).bind fun id => (binds_members t id fields).bind fun fields' =>
        Binds.pure fun bound _ base => ⟨?_, ?_⟩
    · rw [TypeSpec.declarations, TypeSpec.declarations, bound.declarations]
    · rw [TypeSpec.laid, TypeSpec.laid]
      exact .cons ⟨base, bound.settled⟩ bound.laid

theorem binds_members (t : SymbolTable) (scope : SymbolId) : (ms : List (Member TypeSpec)) →
    Binds t (members scope ms) (BoundMembers t ms)
  | [] => by
    rw [members]
    exact Binds.pure ⟨rfl, rfl, by simp, by rw [memberLaid]; exact .nil⟩
  | ⟨as, type, ds, span⟩ :: rest => by
    rw [members]
    refine (binds_annotations scope as).bind fun as' =>
      (binds_typeSpec t scope type).bind fun type' =>
        (Binds.mapM ds fun d _ => binds_declarator scope d).bind fun ds' =>
          (binds_members t scope rest).bind fun rest' => Binds.pure fun more names bound _ =>
            ⟨congrArg (· + 1) more.length, ?_, fun m mem => ?_, ?_⟩
    · rw [memberDeclarations, memberDeclarations, bound.declarations, more.declarations]
    · rcases List.mem_cons.mp mem with rfl | mem
      · refine ⟨bound.settled, fun d inside => ?_⟩
        obtain ⟨_, _, declarator⟩ := exists_of_forall₂ names d inside
        exact declarator.sized
      · exact more.settled m mem
    · rw [memberLaid, memberLaid]
      exact List.rel_append bound.laid more.laid

theorem binds_unionType (t : SymbolTable) (scope : SymbolId) : (u : UnionType TypeSpec) →
    Binds t (unionType scope u) fun u' =>
      (TypeSpec.union u').declarations = (TypeSpec.union u).declarations ∧
      List.Forall₂ (BoundAs t) (TypeSpec.union u).laid (TypeSpec.union u').laid
  | ⟨name, ⟨as, type, switchSpan⟩, cases, span⟩ => by
    rw [unionType]
    refine (binds_scopeOf name scope).bind fun id => (binds_annotations id as).bind fun as' =>
      (binds_typeSpec t id type).bind fun type' =>
        (Binds.looked (R := fun labels => labels = t.discriminantType? type') fun u steady =>
          SymbolTable.discriminantType?_congr steady.outline rfl).bind fun labels =>
          (binds_unionCases t id labels cases).bind fun cases' =>
            Binds.pure fun inCases same bound _ _ => ⟨?_, ?_⟩
    · rw [TypeSpec.declarations, TypeSpec.declarations, bound.declarations, inCases.declarations]
    · rw [TypeSpec.laid, TypeSpec.laid]
      have labelled := inCases.labels
      rw [same] at labelled
      exact .cons ⟨bound.settled, inCases.settled, labelled⟩
        (List.rel_append bound.laid inCases.laid)

theorem binds_unionCases (t : SymbolTable) (scope : SymbolId) (labelType : Option ConstType) :
    (cs : List (UnionCase TypeSpec)) →
    Binds t (unionCases scope labelType cs) (BoundCases t labelType cs)
  | [] => by
    rw [unionCases]
    exact Binds.pure ⟨rfl, by simp, by simp, by rw [caseLaid]; exact .nil⟩
  | ⟨ls, as, type, d, span⟩ :: rest => by
    rw [unionCases]
    refine (binds_caseLabels scope labelType ls).bind fun ls' =>
      (binds_annotations scope as).bind fun as' => (binds_typeSpec t scope type).bind fun type' =>
        (binds_declarator scope d).bind fun d' =>
          (binds_unionCases t scope labelType rest).bind fun rest' =>
            Binds.pure fun more declarator bound _ labels =>
              ⟨?_, fun c mem => ?_, fun c mem => ?_, ?_⟩
    · rw [caseDeclarations, caseDeclarations, bound.declarations, more.declarations]
    · rcases List.mem_cons.mp mem with rfl | mem
      · exact ⟨bound.settled, declarator.sized⟩
      · exact more.settled c mem
    · rcases List.mem_cons.mp mem with rfl | mem
      · exact labels
      · exact more.labels c mem
    · rw [caseLaid, caseLaid]
      exact List.rel_append bound.laid more.laid

end

end Binding

end Idl
