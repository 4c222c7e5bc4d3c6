import Idl.Text.Graphic

/-!
Quoted text. The source form escapes what would end or break a literal; the shown form also spells
out, by code point, what a reader could not see.
-/

set_option autoImplicit false

namespace Idl.Text

/-- One character inside a source literal that ends at `quote`. -/
def escape (quote c : Char) : List Char :=
  if c = '\n' then ['\\', 'n']
  else if c = '\t' then ['\\', 't']
  else if c = '\r' then ['\\', 'r']
  else if c = '\x00' then ['\\', '0']
  else if c = '\\' then ['\\', '\\']
  else if c = quote then ['\\', quote]
  else [c]

/-- The character by its code point, in lower-case hexadecimal digits. -/
def codePoint (c : Char) : List Char :=
  ['\\', 'u', '\x7b'] ++ Nat.toDigits 16 c.toNat ++ ['\x7d']

/-- One character between quotes in a message. -/
def escapeShown (quote c : Char) : List Char :=
  if escape quote c ≠ [c] then escape quote c
  else if isCombining c || isHidden c then codePoint c
  else [c]

/-- The source literal for `cs`. -/
def quoteLiteral (quote : Char) (cs : List Char) : List Char :=
  quote :: (cs.flatMap (escape quote) ++ [quote])

/-- `cs` between quotes as messages show it. -/
def quoteShown (quote : Char) (cs : List Char) : List Char :=
  quote :: (cs.flatMap (escapeShown quote) ++ [quote])

/-- A string as messages show it. -/
def shownString (s : String) : String := String.ofList (quoteShown '"' s.toList)

/-- A character as messages show it. -/
def shownChar (c : Char) : String := String.ofList (quoteShown '\'' [c])

@[simp] theorem escape_quote (quote : Char) (ne_newline : quote ≠ '\n') (ne_tab : quote ≠ '\t')
    (ne_return : quote ≠ '\r') (ne_nul : quote ≠ '\x00') : escape quote quote = ['\\', quote] := by
  simp only [escape, ne_newline, ne_tab, ne_return, ne_nul, if_false, if_true]
  split <;> simp_all

end Idl.Text
