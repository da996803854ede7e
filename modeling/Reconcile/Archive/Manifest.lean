import Reconcile.Text.Blank
import Reconcile.Text.Pieces

/-!
# Manifests

The main section of a manifest is its lines up to the first blank one. A line that starts with a
space goes on with the line before it. A line `key: value` is an attribute.
-/

namespace Reconcile.Manifest

/-! ## §1 The main section -/

/-- The lines of the main section, with what follows on further lines joined to them. The first
argument is the line being put together. -/
def unfoldFrom (current : List Char) : List (List Char) → List (List Char)
  | [] => [current]
  | (' ' :: rest) :: more => unfoldFrom (current ++ rest) more
  | line :: more =>
    if (Text.strip Text.isBlank line).isEmpty then [current] else current :: unfoldFrom line more

/-- The lines of the main section of a text. -/
def mainSection (text : List Char) : List (List Char) :=
  match Text.lines text with
  | [] => []
  | line :: more => if (Text.strip Text.isBlank line).isEmpty then [] else unfoldFrom line more

/-! ## §2 Attributes -/

/-- The value of the first attribute with a key among some lines; a blank value counts as none.
Blanks around keys and values do not count. -/
def valueIn (header : List Char) : List (List Char) → Option (List Char)
  | [] => none
  | line :: more =>
    match Text.cutAtFirst ':' line with
    | none => valueIn header more
    | some (key, value) =>
      if Text.strip Text.isBlank key = header then
        if (Text.strip Text.isBlank value).isEmpty then none else some (Text.strip Text.isBlank value)
      else valueIn header more

/-- The value of an attribute of the main section. -/
def value? (text : String) (header : String) : Option String :=
  (valueIn header.toList (mainSection text.toList)).map String.ofList

end Reconcile.Manifest
