/-!
# UTF-8

A decoder that reads one byte at a time and answers one unit per character: `some c` for a
well-formed character and `none` for each maximal stretch of bytes that starts like a
character and then breaks off. Reading strictly asks that no unit is `none`; reading
leniently puts the replacement character in its place.
-/

namespace Reconcile.Text.Utf8

/-! ## §1 The decoder -/

/-- Where the decoder stands: between characters, or inside one that has `owed` more bytes
to come, the next of them from `low` to `high`, with the bits of `code` collected so far. -/
inductive State where
  | between
  | inside (code owed low high : Nat)

/-- What a byte that starts a character leads to: the units it settles and the state after. -/
def start (b : Nat) : List (Option Char) × State :=
  if b < 0x80 then ([some (Char.ofNat b)], .between)
  else if b < 0xC2 then ([none], .between)
  else if b < 0xE0 then ([], .inside (b - 0xC0) 1 0x80 0xBF)
  else if b = 0xE0 then ([], .inside 0 2 0xA0 0xBF)
  else if b = 0xED then ([], .inside 0xD 2 0x80 0x9F)
  else if b < 0xF0 then ([], .inside (b - 0xE0) 2 0x80 0xBF)
  else if b = 0xF0 then ([], .inside 0 3 0x90 0xBF)
  else if b < 0xF4 then ([], .inside (b - 0xF0) 3 0x80 0xBF)
  else if b = 0xF4 then ([], .inside 4 3 0x80 0x8F)
  else ([none], .between)

/-- One byte: the units it settles and the state after it. A byte that cannot go on with the
current character breaks it off and then starts a character itself. -/
def step : State → Nat → List (Option Char) × State
  | .between, b => start b
  | .inside code owed low high, b =>
    if low ≤ b ∧ b ≤ high then
      let code := code * 64 + (b - 0x80)
      if owed = 1 then ([some (Char.ofNat code)], .between)
      else ([], .inside code (owed - 1) 0x80 0xBF)
    else
      let (units, next) := start b
      (none :: units, next)

/-- The units of the bytes that follow a state; a character cut short by the end is `none`. -/
def unitsFrom : State → List UInt8 → List (Option Char)
  | .between, [] => []
  | .inside .., [] => [none]
  | state, b :: bs =>
    let (units, next) := step state b.toNat
    units ++ unitsFrom next bs

/-- The units of a byte sequence. -/
def units (bytes : List UInt8) : List (Option Char) := unitsFrom .between bytes

/-! ## §2 Two ways to read -/

/-- The text of a byte sequence, if every byte belongs to a well-formed character. -/
def decode? (bytes : List UInt8) : Option (List Char) := (units bytes).mapM id

/-- The text of a byte sequence with U+FFFD for each stretch that is no character. -/
def decodeLenient (bytes : List UInt8) : List Char :=
  (units bytes).map fun unit => unit.getD '\ufffd'

end Reconcile.Text.Utf8
