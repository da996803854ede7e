import Reconcile.Json.Basic
import Reconcile.Table

/-!
# Reading JSON

`Json.parse` reads a whole text as one JSON value. The grammar is that of JSON with the three
special numbers `NaN`, `Infinity` and `-Infinity` admitted. An escaped pair of surrogates is one
character. What readers of JSON do differently is set by a dialect: how deep a text may nest, how
many digits a number may have, whether half of a character may stand alone, and whether an object
keeps every value of a name that it repeats.

Layers:
1. Dialects, and what can be wrong with a text
2. Blanks and numbers
3. Strings
4. Values
-/

namespace Reconcile.Json

/-! ## §1 Dialects -/

/-- What readers of JSON do differently. -/
structure Dialect where
  /-- How many arrays and objects may stand inside each other, if there is a bound. -/
  depth : Option Nat := none
  /-- Whether the bound counts arrays and objects without content. -/
  emptyCounts : Bool := true
  /-- How many digits a number may have before a fraction or an exponent, if there is a bound. -/
  digits : Option Nat := none
  /-- Whether the bound on digits holds for decimal numbers too. -/
  boundsAll : Bool := false
  /-- Whether half of a character may stand alone. -/
  halves : Bool := false
  /-- Whether an object keeps every value of a name that it repeats. Otherwise the last value
  stands in the place of the first. -/
  repeats : Bool := false
  deriving DecidableEq

/-- Why a text is not read. -/
inductive Fault where
  | malformed
  | tooDeep
  /-- A number of so many digits, of which only so many are allowed. -/
  | tooManyDigits (bound count : Nat)
  deriving DecidableEq

/-- What to tell about a text that is not read. -/
def Fault.message : Fault → String
  | .malformed => "The text is not JSON"
  | .tooDeep => "The text nests too deep"
  | .tooManyDigits bound count =>
    "Exceeds the limit (" ++ toString bound
      ++ " digits) for integer string conversion: value has " ++ toString count
      ++ " digits; use sys.set_int_max_str_digits() to increase the limit"

namespace Dialect

/-- Whether no further array or object may stand inside a number of them. -/
def isFull (d : Dialect) (level : Nat) : Bool :=
  match d.depth with
  | none => false
  | some bound => bound ≤ level

/-- The fault of a number that has too many digits before its fraction, if it has. -/
def digitFault? (d : Dialect) (whole : Bool) (count : Nat) : Option Fault :=
  match d.digits with
  | none => none
  | some bound =>
    if (whole || d.boundsAll) && bound < count then some (.tooManyDigits bound count) else none

end Dialect

/-! ## §2 Blanks and numbers -/

/-- The four characters that may stand between tokens. -/
def isSpace (c : Char) : Bool := c == ' ' || c == '\t' || c == '\n' || c == '\r'

/-- The text from its first character that is no blank. -/
def skipSpace (cs : List Char) : List Char := cs.dropWhile isSpace

/-- The number that a row of decimal digits denotes. -/
def digitsValue (digits : List Char) : Nat :=
  digits.foldl (fun n d => 10 * n + (d.toNat - '0'.toNat)) 0

/-- The digits of a fraction and what follows them; no digits if there is no fraction. -/
def readFraction : List Char → List Char × List Char
  | '.' :: c :: rest =>
    if c.isDigit then ((c :: rest).takeWhile Char.isDigit, (c :: rest).dropWhile Char.isDigit)
    else ([], '.' :: c :: rest)
  | cs => ([], cs)

/-- The value of an exponent and what follows it, if there is an exponent. -/
def readExponent? : List Char → Option (Int × List Char)
  | [] => none
  | e :: rest =>
    if e = 'e' ∨ e = 'E' then
      let (negative, rest) :=
        match rest with
        | '-' :: rest => (true, rest)
        | '+' :: rest => (false, rest)
        | rest => (false, rest)
      let digits := rest.takeWhile Char.isDigit
      if digits.isEmpty then none
      else
        let size : Int := digitsValue digits
        some (if negative then -size else size, rest.dropWhile Char.isDigit)
    else none

/-- A number without its sign, and what follows it. -/
def readUnsigned (d : Dialect) (negative : Bool) (cs : List Char) :
    Except Fault (Json × List Char) :=
  let whole := cs.takeWhile Char.isDigit
  if whole.isEmpty ∨ (whole.head? = some '0' ∧ whole.length ≠ 1) then .error .malformed
  else
    let (fraction, afterFraction) := readFraction (cs.dropWhile Char.isDigit)
    let exponent? := readExponent? afterFraction
    match d.digitFault? (fraction.isEmpty && exponent?.isNone) whole.length with
    | some fault => .error fault
    | none =>
      let mantissa := digitsValue (whole ++ fraction)
      match exponent? with
      | some (exponent, rest) =>
        .ok (.decimal (.finite negative mantissa (exponent - fraction.length)), rest)
      | none =>
        if fraction.isEmpty then
          .ok (.int (if negative then -(mantissa : Int) else mantissa), afterFraction)
        else
          .ok (.decimal (.finite negative mantissa (-(fraction.length : Int))), afterFraction)

/-! ## §3 Strings -/

/-- What one character or escape of a string stands for: a character, or a code unit that may
be half of a character. -/
inductive Unit16 where
  | char (c : Char)
  | unit (code : Nat)

/-- The value of a hexadecimal digit. -/
def hexValue? (c : Char) : Option Nat :=
  if '0' ≤ c ∧ c ≤ '9' then some (c.toNat - '0'.toNat)
  else if 'a' ≤ c ∧ c ≤ 'f' then some (c.toNat - 'a'.toNat + 10)
  else if 'A' ≤ c ∧ c ≤ 'F' then some (c.toNat - 'A'.toNat + 10)
  else none

/-- The code unit that four hexadecimal digits write. -/
def hexUnit? (a b c d : Char) : Option Nat :=
  match hexValue? a, hexValue? b, hexValue? c, hexValue? d with
  | some a, some b, some c, some d => some (((a * 16 + b) * 16 + c) * 16 + d)
  | _, _, _, _ => none

/-- The character that a backslash and a letter stand for. -/
def shortEscape? : Char → Option Char
  | '"' => some '"'
  | '\\' => some '\\'
  | '/' => some '/'
  | 'b' => some '\x08'
  | 'f' => some '\x0c'
  | 'n' => some '\n'
  | 'r' => some '\r'
  | 't' => some '\t'
  | _ => none

/-- The units of a string up to its closing quote, and what follows the quote. -/
def readUnits? : List Char → Option (List Unit16 × List Char)
  | [] => none
  | '"' :: rest => some ([], rest)
  | '\\' :: 'u' :: a :: b :: c :: d :: rest =>
    match hexUnit? a b c d, readUnits? rest with
    | some code, some (units, after) => some (.unit code :: units, after)
    | _, _ => none
  | '\\' :: c :: rest =>
    match shortEscape? c, readUnits? rest with
    | some c, some (units, after) => some (.char c :: units, after)
    | _, _ => none
  | c :: rest =>
    if c = '\\' ∨ c.toNat < 0x20 then none
    else (readUnits? rest).map fun (units, after) => (.char c :: units, after)

/-- Whether a code unit is the first half of a character. -/
def isHigh (code : Nat) : Bool := 0xD800 ≤ code && code < 0xDC00

/-- Whether a code unit is the second half of a character. -/
def isLow (code : Nat) : Bool := 0xDC00 ≤ code && code < 0xE000

/-- A code unit that goes with no other. -/
def ofUnit (code : Nat) : Piece :=
  if isHigh code || isLow code then .half (Fin.ofNat 0x800 (code - 0xD800))
  else .char (Char.ofNat code)

/-- The pieces of a string's units: two halves that belong together are one character. -/
def joinUnits : List Unit16 → List Piece
  | [] => []
  | .char c :: rest => .char c :: joinUnits rest
  | .unit high :: .unit low :: rest =>
    if isHigh high && isLow low then
      .char (Char.ofNat (0x10000 + (high - 0xD800) * 0x400 + (low - 0xDC00))) :: joinUnits rest
    else ofUnit high :: joinUnits (.unit low :: rest)
  | .unit code :: rest => ofUnit code :: joinUnits rest

/-- The string that starts behind an opening quote, and what follows its closing quote. -/
def readString (d : Dialect) (cs : List Char) : Except Fault (Str × List Char) :=
  match readUnits? cs with
  | none => .error .malformed
  | some (units, rest) =>
    let s : Str := ⟨joinUnits units⟩
    if s.isText || d.halves then .ok (s, rest) else .error .malformed

/-! ## §4 Values -/

/-- The members of an object with one more read behind them. -/
def Dialect.addMember (d : Dialect) (name : Str) (value : Json)
    (members : List (Str × Json)) : List (Str × Json) :=
  if d.repeats then members ++ [(name, value)] else Table.assign name value members

mutual

/-- The value at the start of a text, which stands inside a number of arrays and objects, and what
follows it. The first number bounds the nested steps. -/
def readValue (d : Dialect) : Nat → Nat → List Char → Except Fault (Json × List Char)
  | 0, _, _ => .error .malformed
  | steps + 1, level, cs =>
    match skipSpace cs with
    | '"' :: rest => (readString d rest).map fun (s, rest) => (.string s, rest)
    | '[' :: rest =>
      if d.emptyCounts && d.isFull level then .error .tooDeep
      else
        match skipSpace rest with
        | ']' :: rest => .ok (.array [], rest)
        | rest =>
          if d.isFull level then .error .tooDeep
          else (readItems d steps (level + 1) rest).map fun (items, rest) => (.array items, rest)
    | '\x7b' :: rest =>
      if d.emptyCounts && d.isFull level then .error .tooDeep
      else
        match skipSpace rest with
        | '\x7d' :: rest => .ok (.object [], rest)
        | rest =>
          if d.isFull level then .error .tooDeep
          else
            (readMembers d steps (level + 1) [] rest).map fun (members, rest) =>
              (.object members, rest)
    | 'n' :: 'u' :: 'l' :: 'l' :: rest => .ok (.null, rest)
    | 't' :: 'r' :: 'u' :: 'e' :: rest => .ok (.bool true, rest)
    | 'f' :: 'a' :: 'l' :: 's' :: 'e' :: rest => .ok (.bool false, rest)
    | 'N' :: 'a' :: 'N' :: rest => .ok (.decimal .undefined, rest)
    | 'I' :: 'n' :: 'f' :: 'i' :: 'n' :: 'i' :: 't' :: 'y' :: rest =>
      .ok (.decimal (.infinite false), rest)
    | '-' :: 'I' :: 'n' :: 'f' :: 'i' :: 'n' :: 'i' :: 't' :: 'y' :: rest =>
      .ok (.decimal (.infinite true), rest)
    | '-' :: rest => readUnsigned d true rest
    | rest => readUnsigned d false rest

/-- The items of an array up to its closing bracket, and what follows it. -/
def readItems (d : Dialect) : Nat → Nat → List Char → Except Fault (List Json × List Char)
  | 0, _, _ => .error .malformed
  | steps + 1, level, cs =>
    match readValue d steps level cs with
    | .error fault => .error fault
    | .ok (item, rest) =>
      match skipSpace rest with
      | ']' :: rest => .ok ([item], rest)
      | ',' :: rest =>
        (readItems d steps level rest).map fun (items, rest) => (item :: items, rest)
      | _ => .error .malformed

/-- The members of an object up to its closing brace, added to those read before, and what
follows the brace. -/
def readMembers (d : Dialect) : Nat → Nat → List (Str × Json) → List Char →
    Except Fault (List (Str × Json) × List Char)
  | 0, _, _, _ => .error .malformed
  | steps + 1, level, members, cs =>
    match skipSpace cs with
    | '"' :: rest =>
      match readString d rest with
      | .error fault => .error fault
      | .ok (name, rest) =>
        match skipSpace rest with
        | ':' :: rest =>
          match readValue d steps level rest with
          | .error fault => .error fault
          | .ok (value, rest) =>
            let members := d.addMember name value members
            match skipSpace rest with
            | '\x7d' :: rest => .ok (members, rest)
            | ',' :: rest => readMembers d steps level members rest
            | _ => .error .malformed
        | _ => .error .malformed
    | _ => .error .malformed

end

/-- The value that a whole text writes. Every nested step leaves a character behind, so twice
the length of the text bounds their number. -/
def parse (d : Dialect) (text : List Char) : Except Fault Json :=
  match readValue d (2 * text.length + 2) 0 text with
  | .error fault => .error fault
  | .ok (value, rest) => if (skipSpace rest).isEmpty then .ok value else .error .malformed

end Reconcile.Json
