import Idl.Text.Bytes

/-!
Places in a source text. A span counts bytes from the start of the text; its line and column start
at one, and the column counts characters.
-/

set_option autoImplicit false

namespace Idl

/-- A stretch of source text, with the line and column of its first character. -/
structure Span where
  offset : Nat
  len : Nat
  line : Nat
  column : Nat
deriving DecidableEq, Repr

namespace Span

/-- The place of nothing: no line and no column. -/
protected def empty : Span := ⟨0, 0, 0, 0⟩

instance : Inhabited Span := ⟨Span.empty⟩

/-- One past the last byte covered. -/
def stop (a : Span) : Nat := a.offset + a.len

/-- The least span that covers both, at the line and column of the one that starts first; of two
that start together, the left one. -/
def join (a b : Span) : Span :=
  let first := if a.offset ≤ b.offset then a else b
  ⟨first.offset, max a.stop b.stop - first.offset, first.line, first.column⟩

/-- `b` starts exactly where `a` stops. -/
def adjacent (a b : Span) : Bool := a.stop == b.offset

/-- The span as diagnostics show it. -/
def text (a : Span) : String := s!"{a.line}:{a.column}"

@[simp] theorem offset_join (a b : Span) : (a.join b).offset = min a.offset b.offset := by
  simp only [join]; split <;> omega

@[simp] theorem stop_join (a b : Span) : (a.join b).stop = max a.stop b.stop := by
  simp only [join, stop]; split <;> omega

@[simp] theorem adjacent_iff (a b : Span) : a.adjacent b = true ↔ a.stop = b.offset := by
  simp [adjacent]

end Span

/-- A point between two characters of a source text. -/
structure Place where
  offset : Nat
  line : Nat
  column : Nat
deriving DecidableEq, Repr

namespace Place

/-- The beginning of a text. -/
def start : Place := ⟨0, 1, 1⟩

/-- One character further. A newline ends its line. -/
def step (p : Place) (c : Char) : Place :=
  if c = '\n' then ⟨p.offset + c.utf8Size, p.line + 1, 1⟩
  else ⟨p.offset + c.utf8Size, p.line, p.column + 1⟩

/-- Past all of `cs`. -/
def past (p : Place) (cs : List Char) : Place := cs.foldl step p

/-- The span of `cs`, where `p` is the place of its first character. -/
def spanOf (p : Place) (cs : List Char) : Span :=
  ⟨p.offset, Text.byteCount cs, p.line, p.column⟩

@[simp] theorem past_nil (p : Place) : p.past [] = p := rfl

@[simp] theorem past_cons (p : Place) (c : Char) (cs : List Char) :
    p.past (c :: cs) = (p.step c).past cs := rfl

theorem past_append (p : Place) (xs ys : List Char) :
    p.past (xs ++ ys) = (p.past xs).past ys := List.foldl_append

@[simp] theorem offset_step (p : Place) (c : Char) :
    (p.step c).offset = p.offset + c.utf8Size := by
  simp only [step]; split <;> rfl

@[simp] theorem offset_past (p : Place) (cs : List Char) :
    (p.past cs).offset = p.offset + Text.byteCount cs := by
  induction cs generalizing p with
  | nil => simp
  | cons c cs ih => simp [ih, Nat.add_assoc]

/-- A span stops where the text after it begins. -/
theorem stop_spanOf (p : Place) (cs : List Char) : (p.spanOf cs).stop = (p.past cs).offset := by
  simp [spanOf, Span.stop]

end Place

end Idl
