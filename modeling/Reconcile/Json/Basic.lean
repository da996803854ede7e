import Reconcile.Ordered

/-!
# JSON values

A JSON document as a value. Whole numbers and decimal numbers are different values, a
decimal number keeps the decimal it was written as, and an object keeps its members in order.
`Json.canonicalText` is the string that two values share exactly when they are equal up to the
order of members and the decimal spelling of one double-precision number.
-/

namespace Reconcile

/-! ## §1 Values -/

/-- A number written with a fraction or an exponent, or one of the three special numbers. -/
inductive Decimal where
  /-- The number `± mantissa · 10 ^ exponent`. -/
  | finite (negative : Bool) (mantissa : Nat) (exponent : Int)
  | infinite (negative : Bool)
  | undefined
  deriving DecidableEq

/-- A JSON value. -/
inductive Json where
  | null
  | bool (value : Bool)
  | int (value : Int)
  | decimal (value : Decimal)
  | string (value : Str)
  | array (items : List Json)
  | object (members : List (Str × Json))
  deriving Inhabited

namespace Decimal

/-- The double-precision number nearest to a decimal. Beyond the range of such numbers the
answer is an infinity or a zero without computing the power of ten. -/
def toFloat : Decimal → Float
  | .undefined => 0.0 / 0.0
  | .infinite negative => if negative then -1.0 / 0.0 else 1.0 / 0.0
  | .finite negative mantissa exponent =>
    let magnitude : Int := (Nat.toDigits 10 mantissa).length + exponent
    let absolute : Float :=
      if mantissa = 0 ∨ magnitude < -400 then 0.0
      else if 400 < magnitude then 1.0 / 0.0
      else Float.ofScientific mantissa (decide (exponent < 0)) exponent.natAbs
    if negative then -absolute else absolute

/-- Whether the nearest double-precision number is a whole number inside the range of signed words
of 64 bits. -/
def isWord (d : Decimal) : Bool :=
  d.toFloat == d.toFloat.floor && -9223372036854775808.0 < d.toFloat
    && d.toFloat < 9223372036854775808.0

end Decimal

namespace Json

/-! ## §2 Parts of a value -/

/-- The value of a member, if the members include one of that name; the last one counts. -/
def member? (name : String) : List (Str × Json) → Option Json
  | [] => none
  | (other, value) :: members =>
    (member? name members).or (if other = name then some value else none)

/-- The object of some members whose names are texts. -/
def record (members : List (String × Json)) : Json :=
  .object (members.map fun (name, value) => (.ofString name, value))

/-- The string that a value is, if it is one. -/
def string? : Json → Option Str
  | .string s => some s
  | _ => none

/-- Whether a value counts as absent where a list may be left out: null, false, zero and
everything empty. -/
def isVoid : Json → Bool
  | .null => true
  | .bool b => !b
  | .int i => i == 0
  | .decimal d => d.toFloat == 0.0
  | .string s => s.isEmpty
  | .array items => items.isEmpty
  | .object members => members.isEmpty

/-! ## §3 Canonical text -/

/-- A piece of a string with a backslash before a backslash and a quote. -/
def guardedPiece (p : Piece) : List Piece :=
  if p = .char '"' ∨ p = .char '\\' then [.char '\\', p] else [p]

/-- A string with a backslash before each backslash and each quote. -/
def guarded (s : Str) : Str := ⟨s.pieces.flatMap guardedPiece⟩

mutual

/-- A string that two values share exactly when they differ at most in the order of members and
in the spelling of one double-precision number. -/
def canonicalText : Json → Str
  | .null => "null"
  | .bool b => if b then "true" else "false"
  | .int i => "i" ++ toString i
  | .decimal .undefined => "undefined"
  | .decimal d => "d" ++ toString d.toFloat.toBits.toNat
  | .string s => "\"" ++ guarded s ++ "\""
  | .array items => "[" ++ Str.intercalate "," (itemTexts items) ++ "]"
  | .object members =>
    "(" ++ Str.intercalate ","
      ((Ordered.sortBy Prod.fst (memberTexts members)).map fun (name, text) =>
        "\"" ++ name ++ "\":" ++ text) ++ ")"

/-- The canonical texts of the items of an array. -/
def itemTexts : List Json → List Str
  | [] => []
  | item :: items => canonicalText item :: itemTexts items

/-- The guarded names of an object's members with the canonical texts of their values. -/
def memberTexts : List (Str × Json) → List (Str × Str)
  | [] => []
  | (name, value) :: members => (guarded name, canonicalText value) :: memberTexts members

end

end Json
end Reconcile
