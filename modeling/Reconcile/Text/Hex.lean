/-!
# Hexadecimal digits

Numbers in lower-case hexadecimal digits of a fixed width, as escapes need them.
-/

namespace Reconcile.Text

/-- The lower-case hexadecimal digit of a number below sixteen. -/
def hexDigit (n : Nat) : Char :=
  if n < 10 then Char.ofNat ('0'.toNat + n) else Char.ofNat ('a'.toNat + (n - 10))

/-- The last hexadecimal digits of a number, as many as the width says. -/
def hex : Nat → Nat → List Char
  | 0, _ => []
  | width + 1, n => hex width (n / 16) ++ [hexDigit (n % 16)]

end Reconcile.Text
