import Idl.Proofs.Progress.Unit
import Idl.Proofs.Token.Spaced

/-!
The lexer and the parser agree on literals. A literal that the lexer lets pass has a value of its
kind, so no reader refuses one of a text. Main statement: `literals_accepted`.
-/

set_option autoImplicit false

namespace Idl

/-- The lexeme has a value of its kind. The mark of its radix, if it has one, is whole characters
in front of its digits. -/
structure HasValue (k : LiteralKind) (lexeme : List Char) : Prop where
  value : Lexeme.fault? k lexeme = none
  hex : k = .hex → ∃ x digits, (x = 'x' ∨ x = 'X') ∧ lexeme = '0' :: x :: digits ∧
    Lexeme.dropBytes 2 lexeme = digits
  octal : k = .octal → ∃ digits, lexeme = '0' :: digits ∧ Lexeme.dropBytes 1 lexeme = digits

/-- The literals among the tokens have values. -/
def Decodable (ts : List Token) : Prop :=
  ∀ t ∈ ts, ∀ k, t.kind = .literal k → HasValue k t.lexeme.toList

/-! Tokens of a text. -/

theorem hasValue_number {k : LiteralKind} {text : List Char} (shape : Shape.IsNumber k text)
    (value : Lexeme.fault? k text = none) : HasValue k text where
  value := value
  hex := by
    rintro rfl
    cases shape with
    | @hex x ds mark some digits =>
      refine ⟨x, ds, mark, rfl, ?_⟩
      rcases mark with rfl | rfl <;> simp [Lexeme.dropBytes, Char.utf8Size]
  octal := by
    rintro rfl
    cases shape with
    | @octal ds digits => exact ⟨ds, rfl, by simp [Lexeme.dropBytes, Char.utf8Size]⟩

theorem hasValue_quoted {wide : Bool} {quote : Char} {text : List Char}
    (value : Lexeme.fault? (quotedKind wide quote) text = none) :
    HasValue (quotedKind wide quote) text := by
  have other : quotedKind wide quote ≠ .hex ∧ quotedKind wide quote ≠ .octal := by
    rw [quotedKind]
    split <;> split <;> decide
  exact ⟨value, fun hex => absurd hex other.1, fun octal => absurd octal other.2⟩

theorem Lexical.hasValue {kind : TokenKind} {text : List Char} (lexical : Lexical kind text)
    {k : LiteralKind} (literal : kind = .literal k) : HasValue k text := by
  cases lexical with
  | word _ _ =>
    rw [TokenKind.ofWord] at literal
    split at literal <;> cases literal
  | number shape value =>
    cases literal
    exact hasValue_number shape value
  | quoted _ _ value =>
    cases literal
    exact hasValue_quoted value
  | mark mark => cases literal

/-- Whatever else is wrong with a text, its literals have values. -/
theorem Lexer.decodable_scan (p : Place) (fresh : Bool) (cs : List Char) :
    Decodable ((scan p fresh cs).filterMap Item.token?) := by
  fun_induction scan p fresh cs with
  | case1 => exact List.forall_mem_nil _
  | case2 p fresh c cs more found skipped ih => exact ih
  | case3 p fresh c cs found => exact List.forall_mem_nil _
  | case4 p fresh c cs kind more fault found lexeme ih =>
    refine List.forall_mem_cons.mpr ⟨fun k literal => ?_, ih⟩
    dsimp only at literal
    cases fault with
    | some f =>
      obtain ⟨malformed, -⟩ := blamed_of_piece found
      rw [malformed] at literal
      cases literal
    | none =>
      obtain ⟨text, rest, rfl, rfl, lexical, -⟩ := lexical_of_piece found
      simpa [lexeme] using lexical.hasValue literal

theorem decodable_tokenize (text : String) : Decodable (tokenize text).tokens :=
  List.forall_mem_append.mpr ⟨Lexer.decodable_scan _ _ _, fun _ mem _ literal => by
    rw [List.mem_singleton.mp mem] at literal
    cases literal⟩

/-! Readers of literals. -/

namespace Grammar

variable {α β : Type}

/-- From `s` the reader returns something and leaves no other tokens than there were. -/
def Succeeds (p : Parser α) (s : Cursor) : Prop := ∃ a t, p s = .ok a t ∧ t.rest ⊆ s.rest

namespace Succeeds

variable {s : Cursor} {p : Parser α} {k : α → Parser β}

theorem pure (a : α) : Succeeds (Pure.pure a) s := ⟨a, s, rfl, List.Subset.refl _⟩

theorem bind (first : Succeeds p s) (second : ∀ a t, t.rest ⊆ s.rest → Succeeds (k a) t) :
    Succeeds (p >>= k) s := by
  obtain ⟨a, t, read, sub⟩ := first
  obtain ⟨b, u, read', sub'⟩ := second a t sub
  exact ⟨b, u, by rw [bind_apply, read]; exact read', List.Subset.trans sub' sub⟩

theorem many {stop : Cursor → Bool} {item : Parser α}
    (items : ∀ t, t.rest ⊆ s.rest → stop t = false → Succeeds item t) :
    Succeeds (many stop item) s := by
  obtain ⟨n, length⟩ : ∃ n, s.rest.length = n := ⟨_, rfl⟩
  induction n using Nat.strong_induction_on generalizing s with
  | _ n ih =>
    by_cases stopped : stop s = true
    · exact ⟨[], s, by rw [many_eq, if_pos stopped], List.Subset.refl _⟩
    · obtain ⟨a, t, read, sub⟩ := items s (List.Subset.refl _) (Bool.not_eq_true _ ▸ stopped)
      by_cases shorter : t.rest.length < s.rest.length
      · obtain ⟨as, u, rest, sub'⟩ := ih _ (length ▸ shorter)
          (fun u into => items u (List.Subset.trans into sub)) rfl
        refine ⟨a :: as, u, ?_, List.Subset.trans sub' sub⟩
        rw [many_eq, if_neg stopped, read]
        dsimp only
        rw [if_pos shorter, rest]
        rfl
      · refine ⟨[a], t, ?_, sub⟩
        rw [many_eq, if_neg stopped, read]
        exact if_neg shorter

end Succeeds

section

variable {k : LiteralKind} {s : Cursor} (decodable : Decodable s.rest) (next : s.kind = .literal k)

include decodable next

theorem succeeds_decoded {decode : List Char → Except LiteralFault α}
    (decodes : Decodes k decode) : Succeeds (decoded decode) s := by
  have rest := rest_of_kind (s := s) (by rw [next]; nofun)
  have value : Lexeme.fault? k s.peek.lexeme.toList = none :=
    (decodable s.peek (by rw [rest]; exact List.mem_cons_self) k next).value
  cases eq : decode s.peek.lexeme.toList with
  | error reason =>
    rw [decodes _ reason eq] at value
    cases value
  | ok a =>
    refine ⟨(a, s.peek.span), s.bump, by rw [decoded]; simp only [eq], ?_⟩
    rw [Cursor.rest_bump]
    exact List.tail_subset _

theorem succeeds_stringRun (string : k = .string ∨ k = .wstring) : Succeeds (stringRun k) s :=
  (succeeds_decoded decodable next (decodes_string string)).bind fun _ _ sub =>
    (Succeeds.many fun _ sub' going =>
      succeeds_decoded (fun x mem => decodable x (sub (sub' mem))) (by simpa using going)
        (decodes_string string)).bind fun _ _ _ => .pure _

theorem succeeds_literal : Succeeds (literal k) s := by
  have decode {α : Type} {f : List Char → Except LiteralFault α} (decodes : Decodes k f) :=
    succeeds_decoded decodable next decodes
  cases k with
  | decimal => exact (decode (decodes_integer (by simp))).bind fun _ _ _ => .pure _
  | octal => exact (decode (decodes_integer (by simp))).bind fun _ _ _ => .pure _
  | hex => exact (decode (decodes_integer (by simp))).bind fun _ _ _ => .pure _
  | float => exact (decode decodes_float).bind fun _ _ _ => .pure _
  | fixed => exact (decode decodes_fixed).bind fun _ _ _ => .pure _
  | char => exact (decode (decodes_char (.inl rfl))).bind fun _ _ _ => .pure _
  | wchar => exact (decode (decodes_char (.inr rfl))).bind fun _ _ _ => .pure _
  | string => exact (succeeds_stringRun decodable next (.inl rfl)).bind fun _ _ _ => .pure _
  | wstring => exact (succeeds_stringRun decodable next (.inr rfl)).bind fun _ _ _ => .pure _

end

theorem succeeds_stringLiteral {s : Cursor} (decodable : Decodable s.rest)
    (next : s.kind = .literal .string) : Succeeds stringLiteral s := by
  have is : (s.kind == TokenKind.literal .string) = true := beq_iff_eq.mpr next
  have unfolded : stringLiteral s = (stringRun .string >>= fun r => Pure.pure r.1) s := by
    rw [stringLiteral, bind_apply, test]
    dsimp only
    rw [if_pos is]
  rw [Succeeds, unfolded]
  exact (succeeds_stringRun decodable next (.inl rfl)).bind fun _ _ _ => .pure _

end Grammar

open Grammar in
/-- No reader refuses a literal of a text, in whatever it stands. -/
theorem literals_accepted (limit : Nat) (text : String) :
    Decodable (tokenize text).tokens ∧
    (∀ (s : Cursor) (k : LiteralKind), s.rest ⊆ (tokenize text).tokens → s.kind = .literal k →
      (∃ e t, literal k s = .ok e t) ∧ (k = .string → ∃ value t, stringLiteral s = .ok value t)) ∧
    ∀ e ∈ (parseTokens limit (tokenize text).tokens).errors, ∀ t reason,
      e ≠ .badLiteral t reason := by
  have decodable := decodable_tokenize text
  refine ⟨decodable, fun s k sub next => ⟨?_, ?_⟩, ?_⟩
  · obtain ⟨e, t, read, -⟩ := succeeds_literal (fun x mem => decodable x (sub mem)) next
    exact ⟨e, t, read⟩
  · rintro rfl
    obtain ⟨value, t, read, -⟩ := succeeds_stringLiteral (fun x mem => decodable x (sub mem)) next
    exact ⟨value, t, read⟩
  · rintro _ mem t reason rfl
    obtain ⟨⟨used, new, spent, -⟩, -, done⟩ := read_parseTokens limit (tokenize text).tokens
    rw [← errors_ending, spent.errors] at mem
    obtain ⟨among, k, literal, fault⟩ := spent.blames _ mem
    have all : (tokenize text).tokens.filter (·.isReadable) = used := by
      have rest := spent.rest
      rwa [done, List.append_nil] at rest
    rw [← all] at among
    rw [(decodable t (List.mem_filter.mp among).1 k literal).value] at fault
    cases fault

/-- Strings side by side where a unit imports a file, and numbers with marks of their radix. -/
def importingText : String := "import \"\\x41\" \"b\";const long x=0X1f+07;"

open Grammar in
theorem literals_accepted_importing :
    let tokens := (tokenize importingText).tokens
    let s := (Cursor.ofTokens tokens).bump
    s.rest ⊆ tokens ∧ s.kind = .literal .string ∧ (∃ value t, stringLiteral s = .ok value t) ∧
      ∀ e ∈ (parseTokens 3 tokens).errors, ∀ t reason, e ≠ .badLiteral t reason := by
  have sub : (Cursor.ofTokens (tokenize importingText).tokens).bump.rest ⊆
      (tokenize importingText).tokens := by
    rw [Cursor.rest_bump]
    exact List.Subset.trans (List.tail_subset _) (List.filter_subset_self _)
  have next : (Cursor.ofTokens (tokenize importingText).tokens).bump.kind = .literal .string := by
    cbv
  have accepted := literals_accepted 3 importingText
  exact ⟨sub, next, (accepted.2.1 _ .string sub next).2 rfl, accepted.2.2⟩

end Idl
