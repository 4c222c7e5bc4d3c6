/-!
Files that have to be text.
-/

set_option autoImplicit false

namespace Idl

/-- Why a file cannot be read or written. -/
inductive FileFault
  | missing
  | directory
  | notDirectory
  | nameTooLong
  | denied
  | notText
  | other (reason : String)
deriving DecidableEq, Repr

def FileFault.message : FileFault → String
  | .missing => "No such file or directory (os error 2)"
  | .directory => "Is a directory (os error 21)"
  | .notDirectory => "Not a directory (os error 20)"
  | .nameTooLong => "File name too long (os error 36)"
  | .denied => "Permission denied (os error 13)"
  | .notText => "stream did not contain valid UTF-8"
  | .other reason => reason

/-- The text that bytes encode. -/
def textOfBytes (bytes : ByteArray) : Except FileFault String :=
  match String.fromUTF8? bytes with
  | some text => .ok text
  | none => .error .notText

/-- The texts of files by their paths. -/
abbrev Files : Type := String → Except FileFault String

@[simp] theorem textOfBytes_toUTF8 (s : String) : textOfBytes s.toUTF8 = .ok s := by
  have valid : s.toUTF8.IsValidUTF8 := s.isValidUTF8
  simp only [textOfBytes, String.fromUTF8?, valid, ↓reduceDIte]
  rfl

end Idl
