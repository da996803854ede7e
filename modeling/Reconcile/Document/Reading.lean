import Reconcile.Coordinate
import Reconcile.Json.Basic
import Reconcile.Table

/-!
# Reading documents

Reading a JSON value as something of the domain either succeeds or tells everything that does not
fit, each with its place in the document. The parts of a value are read side by side, so what is
wrong with one part does not hide what is wrong with another. A document may come as a value or as a
text, and directives are read a little differently from each.

Layers:
1. What does not fit, and where
2. Readings and how they combine
3. Texts, flags and choices
4. Lists and objects
-/

namespace Reconcile

/-! ## §1 Mismatches -/

/-- What does not fit. -/
inductive Mismatch where
  | missing
  | notObject
  | notText
  | emptyText
  /-- A string that is no text where a text is needed. -/
  | brokenText
  | notList
  | notMapping
  | notChoice
  | notFlag
  | unknownFlag
  | notDirective
  | noDirectiveName
  | unknownDirective
  | notJson
  /-- A text that is no pattern. -/
  | unreadable (fault : TextFault)
  /-- A string that is no text where a pattern is needed. -/
  | brokenPattern
  deriving DecidableEq

/-- How a document comes. -/
inductive Origin where
  | value
  | text
  deriving DecidableEq

/-- A step on the way to a place in a document. -/
inductive Step where
  | field (name : Str)
  | index (i : Nat)
  deriving DecidableEq

/-- Something that does not fit, with the way to its place. -/
structure Detail where
  mismatch : Mismatch
  place : List Step := []
  deriving DecidableEq

/-! ## §2 Readings -/

/-- The outcome of reading: a value, or everything that does not fit. -/
inductive Reading (α : Type) where
  | ok (a : α)
  | failed (details : List Detail)

namespace Reading

/-- A reading that fails in one thing. -/
def fail {α : Type} (mismatch : Mismatch) : Reading α := .failed [{ mismatch := mismatch }]

/-- A reading with its value changed. -/
def map {α β : Type} (f : α → β) : Reading α → Reading β
  | .ok a => .ok (f a)
  | .failed details => .failed details

/-- Two readings side by side: what is wrong with either is told, the first one first. -/
def apply {α β : Type} (f : Reading (α → β)) (x : Reading α) : Reading β :=
  match f, x with
  | .ok f, .ok a => .ok (f a)
  | .ok _, .failed details => .failed details
  | .failed details, .ok _ => .failed details
  | .failed details, .failed more => .failed (details ++ more)

instance : Functor Reading where
  map := map

instance : Applicative Reading where
  pure := .ok
  seq f x := apply f (x ())

/-- A reading of a part, its mismatches placed in the whole. -/
def under {α : Type} (step : Step) : Reading α → Reading α
  | .ok a => .ok a
  | .failed details =>
    .failed (details.map fun d => { d with place := step :: d.place })

/-- The value, or everything that does not fit. -/
def toExcept {α : Type} : Reading α → Except (List Detail) α
  | .ok a => .ok a
  | .failed details => .error details

/-! ## §3 Scalars -/

/-- Read a string, be it a text or not. -/
def string : Json → Reading Str
  | .string s => .ok s
  | _ => fail .notText

/-- Read a text that is not empty. -/
def nonemptyText : Json → Reading Str
  | .string s =>
    if s.isText then if s.isEmpty then fail .emptyText else .ok s else fail .brokenText
  | _ => fail .notText

/-- Read a text as a pattern. -/
def writtenPattern : Json → Reading WrittenPattern
  | .string s =>
    if s.isText then
      match WrittenPattern.read s with
      | .ok written => .ok written
      | .error fault => fail (.unreadable fault)
    else fail .brokenPattern
  | _ => fail .notText

/-- Read a word that stands for one of some choices. -/
def choice {α : Type} (ofWord? : String → Option α) : Json → Reading α
  | .string s =>
    match s.text? with
    | some word =>
      match ofWord? word with
      | some a => .ok a
      | none => fail .notChoice
    | none => fail .brokenText
  | _ => fail .notChoice

/-- A character with an ASCII capital made small. -/
def lowered (c : Char) : Char := if c.isUpper then c.toLower else c

/-- The flag that a word stands for, whatever the case of its letters. -/
def flagOfWord? (word : String) : Option Bool :=
  let word := String.ofList (word.toList.map lowered)
  if ["0", "off", "f", "false", "n", "no"].contains word then some false
  else if ["1", "on", "t", "true", "y", "yes"].contains word then some true
  else none

/-- Whether a whole number is a signed word of 64 bits, and so small enough to be taken for a flag
at all. -/
def isWord (i : Int) : Bool := -0x8000000000000000 ≤ i && i < 0x8000000000000000

/-- Read a flag: a truth value, zero or one, or a word for either. -/
def flag : Json → Reading Bool
  | .bool b => .ok b
  | .int i =>
    if i = 0 then .ok false
    else if i = 1 then .ok true
    else if isWord i then fail .unknownFlag
    else fail .notFlag
  | .decimal d =>
    if d.toFloat == 0.0 then .ok false
    else if d.toFloat == 1.0 then .ok true
    else if d.isWord then fail .unknownFlag
    else fail .notFlag
  | .string s =>
    match s.text? with
    | some word =>
      match flagOfWord? word with
      | some b => .ok b
      | none => fail .unknownFlag
    | none => fail .brokenText
  | _ => fail .notFlag

/-- Read what may be null. -/
def nullable {α : Type} (read : Json → Reading α) : Json → Reading (Option α)
  | .null => .ok none
  | value => (read value).map some

/-! ## §4 Lists and objects -/

/-- Read the items of a list, the first of them at an index. -/
def itemsFrom {α : Type} (read : Json → Reading α) (index : Nat) : List Json → Reading (List α)
  | [] => .ok []
  | item :: items =>
    List.cons <$> (read item).under (.index index) <*> itemsFrom read (index + 1) items

/-- Read a list. -/
def list {α : Type} (read : Json → Reading α) : Json → Reading (List α)
  | .array items => itemsFrom read 0 items
  | _ => fail .notList

/-- Read the values of a mapping in the order of its keys. -/
def mappedFrom {α : Type} (read : Json → Reading α) :
    List (Str × Json) → Reading (List (Str × α))
  | [] => .ok []
  | (name, value) :: members =>
    List.cons <$> ((read value).under (.field name.shown)).map (fun a => (name, a))
      <*> mappedFrom read members

/-- Read a mapping from strings. Where a name is repeated, every value has to fit and the last one
counts. -/
def mapping {α : Type} (read : Json → Reading α) : Json → Reading (Table Str α)
  | .object members => (mappedFrom read members).map Table.ofList
  | _ => fail .notMapping

/-- Read an object by its members. -/
def object {α : Type} (read : List (Str × Json) → Reading α) : Json → Reading α
  | .object members => read members
  | _ => fail .notObject

/-- Read a member that must be there. -/
def field {α : Type} (name : String) (read : Json → Reading α)
    (members : List (Str × Json)) : Reading α :=
  match Json.member? name members with
  | some value => (read value).under (.field name)
  | none => (fail .missing).under (.field name)

/-- Read a member that may be left out for a default. -/
def fieldOr {α : Type} (name : String) (default : α) (read : Json → Reading α)
    (members : List (Str × Json)) : Reading α :=
  match Json.member? name members with
  | some value => (read value).under (.field name)
  | none => .ok default

end Reading
end Reconcile
