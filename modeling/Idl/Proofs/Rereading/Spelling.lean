import Idl.Proofs.Rereading.Chunks

/-!
How the chunks of a text are scanned: what may stand behind each, and which tokens it becomes. Main
statement: `scans_chunks`.
-/

set_option autoImplicit false

namespace Idl

/-! The classes of the tokens that chunks become. -/

/-- The classes of the tokens of a name, by the class of its first word. -/
def ScopedName.kinds (n : ScopedName) (front : TokenKind) : List TokenKind :=
  (if n.absolute then [.punct .colonColon] else []) ++
    front :: n.more.flatMap fun _ => [.punct .colonColon, .ident]

def BinaryOp.kinds : BinaryOp → List TokenKind
  | .shl => [.punct .less, .punct .less]
  | .shr => [.punct .greater, .punct .greater]
  | op => [.punct op.mark]

def Chunk.kinds : Chunk → List TokenKind
  | .gap _ => []
  | .word k => [.keyword k]
  | .mark m => [.punct m]
  | .ident _ => [.ident]
  | .name n => n.kinds .ident
  | .label n => n.kinds (.ofWord n.first.name)
  | .literal l => [l.tokenKind]
  | .op o => o.kinds
  | .text _ => [.literal .string]

def kinds (cs : List Chunk) : List TokenKind := cs.flatMap Chunk.kinds

@[simp] theorem kinds_nil : kinds [] = [] := rfl

@[simp] theorem kinds_cons (c : Chunk) (cs : List Chunk) : kinds (c :: cs) = c.kinds ++ kinds cs :=
  List.flatMap_cons

@[simp] theorem kinds_append (cs ds : List Chunk) : kinds (cs ++ ds) = kinds cs ++ kinds ds :=
  List.flatMap_append

/-! Chunks and their tokens. -/

section

open Grammar

/-- In front of the rest, the tokens stand for the chunk. What follows a label does not go on with
its name. -/
inductive Chunk.Spells : Chunk → List Token → List Token → Prop
  | gap {blanks : List Char} {rest : List Token} : Spells (.gap blanks) [] rest
  | word {k : Keyword} {t : Token} {rest : List Token} (kind : t.kind = .keyword k) :
    Spells (.word k) [t] rest
  | mark {m : Punct} {t : Token} {rest : List Token} (kind : t.kind = .punct m) :
    Spells (.mark m) [t] rest
  | ident {i : Ident} {t : Token} {rest : List Token} (names : Names t i) :
    Spells (.ident i) [t] rest
  | name {n : ScopedName} {ts rest : List Token} (spelled : SpellsName n ts) :
    Spells (.name n) ts rest
  | keyword {n : ScopedName} {word : Keyword} {t : Token} {rest : List Token}
    (alone : n.absolute = false ∧ n.first.name = word.text ∧ n.more = [])
    (kind : t.kind = .keyword word) (lexeme : t.lexeme = word.text) : Spells (.label n) [t] rest
  | label {n : ScopedName} {ts rest : List Token} (formed : n.Formed) (spelled : SpellsName n ts)
    (apart : ∀ t ∈ rest.head?, t.kind ≠ .punct .colonColon) : Spells (.label n) ts rest
  | literal {l : Literal} {t : Token} {rest : List Token} (kind : t.kind = l.tokenKind)
    (spelled : SpellsLiteral l [t]) : Spells (.literal l) [t] rest
  | op {o : BinaryOp} {ts rest : List Token} (spelled : SpellsOp o ts) : Spells (.op o) ts rest
  | text {s : String} {t : Token} {rest : List Token} (quotes : Quotes .string s.toList t) :
    Spells (.text s) [t] rest

/-- The tokens stand for the chunks, one after the other. -/
def Spelled : List Chunk → List Token → Prop
  | [], ts => ts = []
  | c :: cs, ts => ∃ us vs, ts = us ++ vs ∧ c.Spells us vs ∧ Spelled cs vs

theorem spelled_gap {blanks : List Char} {cs : List Chunk} {ts : List Token} :
    Spelled (.gap blanks :: cs) ts ↔ Spelled cs ts := by
  constructor
  · rintro ⟨us, vs, rfl, spells, spelled⟩
    cases spells
    exact spelled
  · exact fun spelled => ⟨[], ts, rfl, .gap, spelled⟩

/-- The chunks without the blanks between them. -/
def solid : List Chunk → List Chunk
  | [] => []
  | .gap _ :: cs => solid cs
  | c :: cs => c :: solid cs

theorem spelled_solid {cs : List Chunk} {ts : List Token} :
    Spelled (solid cs) ts ↔ Spelled cs ts := by
  induction cs generalizing ts with
  | nil => rfl
  | cons c cs ih =>
    cases c with
    | gap blanks => rw [solid, ih, spelled_gap]
    | _ => simp only [solid, Spelled, ih]

theorem solid_append (cs ds : List Chunk) : solid (cs ++ ds) = solid cs ++ solid ds := by
  induction cs with
  | nil => rfl
  | cons c cs ih => cases c <;> simp [solid, ih]

theorem kinds_solid (cs : List Chunk) : kinds (solid cs) = kinds cs := by
  induction cs with
  | nil => rfl
  | cons c cs ih => cases c <;> simp [solid, ih, Chunk.kinds]

theorem kinds_of_segments {is : List Ident} {groups : List (List Token)}
    (more : List.Forall₂ SpellsSegment is groups) :
    groups.flatten.map (·.kind) = is.flatMap fun _ => [.punct .colonColon, .ident] := by
  induction more with
  | nil => rfl
  | cons segment _ ih =>
    obtain ⟨colons, names⟩ := segment
    simp [colons, names.kind, ih]

theorem Grammar.SpellsName.kinds {n : ScopedName} {ts : List Token} (spelled : SpellsName n ts) :
    ts.map (·.kind) = n.kinds .ident := by
  cases spelled with
  | absolute absolute colons first more =>
    simp [ScopedName.kinds, absolute, colons, first.kind, kinds_of_segments more]
  | relative relative first more =>
    simp [ScopedName.kinds, relative, first.kind, kinds_of_segments more]

theorem Grammar.SpellsOp.kinds {o : BinaryOp} {ts : List Token} (spelled : SpellsOp o ts) :
    ts.map (·.kind) = o.kinds := by
  cases spelled with
  | one single kind => cases o <;> simp_all [BinaryOp.kinds, BinaryOp.mark]
  | two shift first second _ =>
    obtain rfl | rfl := shift <;> simp [BinaryOp.kinds, BinaryOp.mark, first, second]

theorem Chunk.Spells.kinds {c : Chunk} {ts rest : List Token} (spells : c.Spells ts rest) :
    ts.map (·.kind) = c.kinds := by
  cases spells with
  | gap => rfl
  | word kind | mark kind => simp [Chunk.kinds, kind]
  | ident names => simp [Chunk.kinds, names.kind]
  | name spelled => exact spelled.kinds
  | keyword alone kind _ =>
    simp [Chunk.kinds, ScopedName.kinds, alone, kind, TokenKind.ofWord, Keyword.ofText?_text]
  | @label n _ _ formed spelled _ =>
    have free : TokenKind.ofWord n.first.name = .ident := by
      rw [TokenKind.ofWord, (formed n.first (List.mem_cons_self ..)).free]
    rw [Chunk.kinds, free]
    exact spelled.kinds
  | literal kind _ => simp [Chunk.kinds, kind]
  | op spelled => exact spelled.kinds
  | text quotes => simp [Chunk.kinds, quotes.kind]

theorem kinds_of_spelled {cs : List Chunk} {ts : List Token} (spelled : Spelled cs ts) :
    ts.map (·.kind) = kinds cs := by
  induction cs generalizing ts with
  | nil =>
    obtain rfl := spelled
    rfl
  | cons c cs ih =>
    obtain ⟨us, vs, rfl, spells, spelled⟩ := spelled
    rw [List.map_append, spells.kinds, ih spelled, kinds_cons]

end

/-! Which texts give back what they were written from. -/

/-- The texts of the chunks stand for them alone: no literal is infinite and no zero character
stands in front of a digit, texts outside of expressions need no code points, and no name that is
absolute stands directly behind an annotation whose own name would go on with it. -/
def Legible : List Chunk → Prop
  | [] => True
  | .literal l :: cs => l.Legible ∧ Legible cs
  | .text s :: cs =>
    (Text.quoteShown '"' s.toList = Text.quoteLiteral '"' s.toList ∧ NulsApart s.toList) ∧
      Legible cs
  | .label n :: cs =>
    (n.IsKeyword ∨ (kinds cs).head? ≠ some (.punct .colonColon)) ∧ Legible cs
  | _ :: cs => Legible cs

/-! What may stand behind a chunk. -/

/-- In front of the others, the text of the chunk ends where the chunk does. -/
def Chunk.Stands (c : Chunk) (cs : List Chunk) : Prop :=
  match c with
  | .gap blanks => ∀ b ∈ blanks, b = ' ' ∨ b = '\n'
  | .mark m => m = .colon ∨ m = .slash → ∀ d ∈ (printed cs).head?, d ≠ ':' ∧ d ≠ '/' ∧ d ≠ '*'
  | .word _ => Delimited (printed cs)
  | .ident i => i.Formed ∧ Delimited (printed cs)
  | .name n => n.Formed ∧ Delimited (printed cs)
  | .label n => (n.IsKeyword ∨ n.Formed) ∧ Delimited (printed cs)
  | .literal l => l.Formed ∧ Delimited (printed cs)
  | .op _ => (printed cs).head? = some ' '
  | .text _ => True

/-- Each chunk stands in front of the others. -/
def Standing : List Chunk → Prop
  | [] => True
  | c :: cs => c.Stands cs ∧ Standing cs

theorem Scanned.newline (p : Place) (after : List Char) : Scanned p ['\n'] after [] where
  scan fresh := by
    refine ⟨true, ?_⟩
    have gap : Lexer.piece fresh '\n' after = .gap 0 := rfl
    rw [List.singleton_append, Lexer.scan_gap gap]
    simp
  readable := by simp
  few := Nat.zero_le _

theorem Scanned.gap {blanks : List Char} (blank : ∀ b ∈ blanks, b = ' ' ∨ b = '\n') (p : Place)
    (after : List Char) : Scanned p blanks after [] := by
  induction blanks generalizing p with
  | nil => exact .nil p after
  | cons b blanks ih =>
    rw [List.forall_mem_cons] at blank
    obtain ⟨rfl | rfl, others⟩ := blank
    · exact (Scanned.blank p _).append (ih others _)
    · exact (Scanned.newline p _).append (ih others _)

namespace Grammar

variable {p : Place}

/-- The text of legible chunks that stand is scanned into tokens that spell them. -/
theorem scans_chunks {cs : List Chunk} (standing : Standing cs) (legible : Legible cs) :
    Scans p (printed cs) [] (Spelled cs) := by
  induction cs generalizing p with
  | nil => exact (Scanned.nil p []).scans rfl
  | cons c cs ih =>
    obtain ⟨stands, standing⟩ := standing
    -- a chunk whose tokens do not depend on what follows
    have plain {P : List Token → Prop} (legible : Legible cs)
        (first : Scans p c.chars (printed cs) P) (spells : ∀ us vs, P us → c.Spells us vs) :
        Scans p (printed (c :: cs)) [] (Spelled (c :: cs)) := by
      rw [printed_cons]
      rw [← List.append_nil (printed cs)] at first
      refine first.bind fun us holds => (ih standing legible).imp fun vs spelled => ?_
      exact ⟨us, vs, rfl, spells us vs holds, spelled⟩
    cases c with
    | gap blanks =>
      exact plain legible ((Scanned.gap stands p _).scans (P := (· = [])) rfl)
        fun us vs none => none ▸ .gap
    | word k =>
      refine plain legible ((Scanned.keyword k stands).scans
        (P := fun us => ∃ t, us = [t] ∧ t.kind = .keyword k) ⟨_, rfl, rfl⟩) ?_
      rintro _ vs ⟨t, rfl, kind⟩
      exact .word kind
    | mark m =>
      refine plain legible ((Scanned.mark m stands).scans
        (P := fun us => ∃ t, us = [t] ∧ t.kind = .punct m) ⟨_, rfl, rfl⟩) ?_
      rintro _ vs ⟨t, rfl, kind⟩
      exact .mark kind
    | ident i =>
      refine plain legible ((Scanned.ident stands.1 stands.2).scans
        (P := fun us => ∃ t, us = [t] ∧ Names t i) ⟨_, rfl, rfl, rfl⟩) ?_
      rintro _ vs ⟨t, rfl, names⟩
      exact .ident names
    | name n => exact plain legible (scans_name stands.1 stands.2) fun us vs => .name
    | label n =>
      obtain ⟨formed, delimited⟩ := stands
      obtain ⟨apart, legible⟩ := legible
      by_cases alone : n.IsKeyword
      · obtain ⟨word, relative, same, last⟩ := alone
        have text : n.text = word.text := by
          simp [ScopedName.text, ScopedName.path, ScopedName.segments, relative, same, last]
        have scanned := Scanned.keyword (p := p) word delimited
        rw [← text] at scanned
        refine plain legible (scanned.scans (P := fun us => ∃ t, us = [t] ∧
          t.kind = .keyword word ∧ t.lexeme = word.text) ⟨_, rfl, rfl, text⟩) ?_
        rintro _ vs ⟨t, rfl, kind, lexeme⟩
        exact .keyword ⟨relative, same, last⟩ kind lexeme
      · have formed := formed.resolve_left alone
        have apart := apart.resolve_left alone
        have first : Scans p n.text.toList (printed cs ++ []) (SpellsName n) := by
          rw [List.append_nil]
          exact scans_name formed delimited
        rw [printed_cons]
        refine first.bind fun us name => (ih standing legible).imp fun vs spelled => ?_
        refine ⟨us, vs, rfl, .label formed name fun t mem kind => apart ?_, spelled⟩
        rw [← kinds_of_spelled spelled, List.head?_map, mem, Option.map_some, kind]
    | literal l =>
      refine plain legible.2 (scans_legible stands.1 legible.1 stands.2) ?_
      rintro _ vs ⟨t, rfl, kind, spelled⟩
      exact .literal kind spelled
    | op o =>
      have front : ∃ more, printed cs = ' ' :: more := by
        cases eq : printed cs with
        | nil => simp [Chunk.Stands, eq] at stands
        | cons d more =>
          rw [Chunk.Stands, eq, List.head?_cons, Option.some.injEq] at stands
          exact ⟨more, by rw [stands]⟩
      obtain ⟨more, front⟩ := front
      have first := scans_op o p more
      rw [← front] at first
      exact plain legible first fun us vs => .op
    | text s =>
      obtain ⟨⟨shown, apart⟩, legible⟩ := legible
      have first := @scans_string p (printed cs) s apart false
      have text : Text.shownString s = String.ofList (quotedText false '"' s.toList) := by
        rw [Text.shownString, shown]
        rfl
      rw [← text] at first
      refine plain legible first ?_
      rintro _ vs ⟨t, rfl, quotes⟩
      exact .text quotes

end Grammar

end Idl
