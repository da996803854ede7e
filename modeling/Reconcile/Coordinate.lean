import Reconcile.Text.Pieces
import Reconcile.Ordered

/-!
# Coordinates and patterns

A coordinate `group:name:version` identifies one artifact; a pattern `group:name` or
`group:name:version` selects the artifacts of one key, of every version or of one. Both are
written as parts between colons, with blanks around the whole allowed, and `WrittenPattern` is a
pattern kept together with the text that it was read from.

Layers:
1. Parts and the texts that are refused
2. Coordinates
3. Patterns
4. Patterns with their text
-/

namespace Reconcile

/-! ## §1 Parts -/

/-- A string that was to be read as a coordinate or as a pattern and is neither. -/
inductive TextFault where
  | coordinate (text : Str)
  | pattern (text : Str)
  deriving DecidableEq

/-- What to tell about a string that could not be read. -/
def TextFault.message : TextFault → Str
  | .coordinate text =>
    "Invalid artifact coordinate '" ++ text ++ "', expected 'group:name:version'"
  | .pattern text =>
    "Invalid coordinate pattern '" ++ text ++ "', expected 'group:name[:version]'"

/-- A character that a part is made of: an ASCII letter or digit, or one of `_ . - +`. -/
def isPartChar (c : Char) : Bool :=
  c.isAlphanum || c == '_' || c == '.' || c == '-' || c == '+'

/-- A part is a non-empty row of part characters; one line feed may end it. -/
def isPart (ps : List Piece) : Bool :=
  let body := if ps.getLast? = some (.char '\n') then ps.dropLast else ps
  !body.isEmpty && body.all (Piece.holds isPartChar)

/-- The parts of a string: what stands between its colons, blanks around the whole left out. -/
def writtenParts (text : Str) : List (List Piece) :=
  Text.pieces (· == .char ':') text.strip.pieces

/-! ## §2 Coordinates -/

/-- The group and the name of an artifact, which all its versions share. -/
structure Key where
  group : Str
  name : Str
  deriving DecidableEq

/-- The identity of an artifact. -/
structure Coordinate where
  group : Str
  name : Str
  version : Str
  deriving DecidableEq

namespace Coordinate

/-- The key of a coordinate. -/
def key (c : Coordinate) : Key := ⟨c.group, c.name⟩

/-- A coordinate in writing. -/
def text (c : Coordinate) : Str := c.group ++ ":" ++ c.name ++ ":" ++ c.version

/-- The coordinate that a string of three parts writes. -/
def parse (text : Str) : Except TextFault Coordinate :=
  match writtenParts text with
  | [group, name, version] =>
    if isPart group && isPart name && isPart version then
      .ok ⟨⟨group⟩, ⟨name⟩, ⟨version⟩⟩
    else .error (.coordinate text)
  | _ => .error (.coordinate text)

/-- Coordinates in the order of their texts. -/
def inTextOrder (cs : List Coordinate) : List Coordinate := Ordered.sortBy text cs

end Coordinate

/-! ## §3 Patterns -/

/-- A selection of artifacts by key and, if a version is given, by version. -/
structure Pattern where
  group : Str
  name : Str
  version : Option Str
  deriving DecidableEq

namespace Pattern

/-- The key of the artifacts that a pattern can select. -/
def key (p : Pattern) : Key := ⟨p.group, p.name⟩

/-- Whether a pattern gives a version. -/
def isExact (p : Pattern) : Bool := p.version.isSome

/-- A pattern in writing. -/
def text (p : Pattern) : Str :=
  match p.version with
  | none => p.group ++ ":" ++ p.name
  | some version => p.group ++ ":" ++ p.name ++ ":" ++ version

/-- The pattern that a string of two or three parts writes. -/
def parse (text : Str) : Except TextFault Pattern :=
  match writtenParts text with
  | [group, name] =>
    if isPart group && isPart name then .ok ⟨⟨group⟩, ⟨name⟩, none⟩
    else .error (.pattern text)
  | [group, name, version] =>
    if isPart group && isPart name && isPart version then
      .ok ⟨⟨group⟩, ⟨name⟩, some ⟨version⟩⟩
    else .error (.pattern text)
  | _ => .error (.pattern text)

/-- The pattern that selects one coordinate. -/
def exact (c : Coordinate) : Pattern := ⟨c.group, c.name, some c.version⟩

/-- A pattern selects the coordinates of its key that have its version, if it gives one. -/
def selects (p : Pattern) (c : Coordinate) : Bool :=
  decide (p.key = c.key) &&
    match p.version with
    | none => true
    | some version => decide (version = c.version)

end Pattern

/-! ## §4 Patterns with their text -/

/-- A pattern together with the text that it was read from. -/
structure WrittenPattern where
  text : Str
  pattern : Pattern
  /-- The text writes the pattern. -/
  writes : Pattern.parse text = .ok pattern

namespace WrittenPattern

/-- Texts that are equal write the same pattern. -/
theorem eq_of_text_eq {a b : WrittenPattern} (h : a.text = b.text) : a = b := by
  obtain ⟨text, pattern, writes⟩ := a
  obtain ⟨text', pattern', writes'⟩ := b
  simp only at h
  subst h
  rw [writes] at writes'
  cases writes'
  rfl

instance : DecidableEq WrittenPattern := fun a b =>
  if h : a.text = b.text then .isTrue (eq_of_text_eq h) else .isFalse fun e => h (e ▸ rfl)

/-- Read a text as a pattern and keep the text. -/
def read (text : Str) : Except TextFault WrittenPattern :=
  match h : Pattern.parse text with
  | .ok pattern => .ok ⟨text, pattern, h⟩
  | .error fault => .error fault

end WrittenPattern
end Reconcile
