import PagedStore.Text.Joining
import PagedStore.Text.Unseen

set_option autoImplicit false

/-!
Texts between double quotes on one line: quotes and backslashes are escaped, and so is whatever
would not show by itself or would join what stands before it.
-/

namespace PagedStore.Quoted

def isEscaped (c : Char) : Bool :=
  Ranges.within c.toNat unseen || Ranges.within c.toNat joining

def hexDigits (n : Nat) : List Char := Nat.toDigits 16 n

def escape : Char → List Char
  | '\x00' => ['\\', '0']
  | '\t' => ['\\', 't']
  | '\n' => ['\\', 'n']
  | '\r' => ['\\', 'r']
  | '"' => ['\\', '"']
  | '\\' => ['\\', '\\']
  | c => if isEscaped c then ['\\', 'u', '\x7b'] ++ hexDigits c.toNat ++ ['\x7d'] else [c]

def quote (s : String) : String := String.ofList (['"'] ++ s.toList.flatMap escape ++ ['"'])

theorem escape_of_plain {c : Char} (h : isEscaped c = false) (hq : c ≠ '"') (hb : c ≠ '\\') :
    escape c = [c] := by
  unfold escape
  split <;> simp_all
  all_goals exact absurd h (by decide)

end PagedStore.Quoted
