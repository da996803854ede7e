import Reconcile.Attempt
import Reconcile.Text.Pieces
import Reconcile.Text.Quoted
import Reconcile.Text.Utf8

/-!
# Files

Paths and the files behind them. A path is its segments; empty segments and single dots do not
count. What a path leads to is found by its bytes. A file is a row of bytes or an archive of named
entries, and every path that leads to a file leads through directories.

Layers:
1. Paths
2. Bytes of paths, and the places that they lead to
3. Files, and why they cannot be used
4. The way to a file
5. Reading
6. Writing
-/

namespace Reconcile

/-! ## §1 Paths -/

/-- Where a path starts: in the current directory or at the root. A path with exactly two slashes
in front keeps both. -/
inductive Anchor where
  | here
  | root
  | doubleRoot
  deriving DecidableEq

/-- A start in writing. -/
def Anchor.text : Anchor → Str
  | .here => ""
  | .root => "/"
  | .doubleRoot => "//"

/-- A path from the root or from the current directory. -/
structure Path where
  anchor : Anchor := .here
  segments : List Str := []
  deriving DecidableEq

namespace Path

/-- The names between the slashes of a string. -/
def names (text : Str) : List Str := (Text.pieces (· == .char '/') text.pieces).map Str.mk

/-- The start of the path that a string writes. -/
def anchorOf (text : Str) : Anchor :=
  match (text.pieces.takeWhile (· == .char '/')).length with
  | 0 => .here
  | 2 => .doubleRoot
  | _ => .root

/-- The path that a string writes. -/
def ofText (text : Str) : Path where
  anchor := anchorOf text
  segments := (names text).filter fun s => s ≠ "" ∧ s ≠ "."

/-- A path in writing. -/
def text (p : Path) : Str :=
  if p.anchor = .here ∧ p.segments.isEmpty then "."
  else p.anchor.text ++ Str.intercalate "/" p.segments

/-- A path as seen from a base directory. -/
def under (p : Path) (base : Option Path) : Path :=
  match base with
  | none => p
  | some base =>
    if p.anchor = .here then { base with segments := base.segments ++ p.segments } else p

/-- The directory that holds what a path leads to. -/
def parent (p : Path) : Path := { p with segments := p.segments.dropLast }

end Path

/-! ## §2 Places -/

/-- The bytes that a piece of a string writes in a path. Of the halves of characters, those that
stand for a byte beyond ASCII write that byte, and the others cannot be written. -/
def Piece.bytes? : Piece → Option (List UInt8)
  | .char c => some (String.utf8EncodeChar c)
  | .half index =>
    if 0x480 ≤ index.val ∧ index.val < 0x500 then some [(index.val - 0x400).toUInt8] else none

/-- The bytes that a string writes in a path, if it can be written. -/
def Str.bytes? (s : Str) : Option (List UInt8) := (s.pieces.mapM Piece.bytes?).map List.flatten

/-- The name of a file in its directory. -/
abbrev FileName := List UInt8

/-- A place for files, as seen from the root or from the current directory. -/
structure Place where
  rooted : Bool := false
  names : List FileName := []
  deriving DecidableEq

namespace Place

/-- The byte between the names of a path. -/
def slash : UInt8 := 0x2F

/-- The name by which every directory calls itself. -/
def dot : FileName := [0x2E]

/-- The name by which every directory calls the one above it. -/
def dots : FileName := [0x2E, 0x2E]

/-- The names between the slashes of a row of bytes. -/
def namesOf (bytes : List UInt8) : List FileName := Text.pieces (· == slash) bytes

/-- The place where the path of some bytes starts. Both kinds of root are one place. -/
def startOf (bytes : List UInt8) : Place := { rooted := bytes.head? = some slash }

/-- The names of a row of bytes that lead from one place to another. -/
def stepsOf (bytes : List UInt8) : List FileName :=
  (namesOf bytes).filter fun name => name ≠ [] ∧ name ≠ dot

/-- The place whose names stand between the slashes of a text. -/
def ofText (text : String) : Place :=
  let bytes := text.toList.flatMap String.utf8EncodeChar
  { startOf bytes with names := stepsOf bytes }

/-- The place of a name in a directory. -/
def child (place : Place) (name : FileName) : Place := { place with names := place.names ++ [name] }

/-- The directory above a directory; the root is above itself. -/
def up (place : Place) : Place :=
  match place.names.getLast? with
  | none => if place.rooted then place else place.child dots
  | some last =>
    if last = dots then place.child dots else { place with names := place.names.dropLast }

/-- Whether a place is a directory on the way to another. -/
def leadsTowards (p q : Place) : Bool :=
  p.rooted == q.rooted && p.names.length < q.names.length && p.names.isPrefixOf q.names

end Place

/-! ## §3 Files -/

/-- A named file inside an archive. -/
structure Entry where
  name : String
  bytes : List UInt8 := []

/-- What a path can lead to. -/
inductive Node where
  | directory
  | file (bytes : List UInt8)
  | archive (entries : List Entry)

/-- Why a file cannot be used as what it should be. -/
inductive FileFault where
  | missing
  | isDirectory
  | notDirectory
  | nameTooLong
  | occupied
  /-- The path holds the character that no name can hold. -/
  | unnamable
  /-- The path holds half of a character that stands for no byte. -/
  | unencodable
  /-- More directories are missing than can be made in one go. -/
  | tooDeep
  | notArchive
  | notText
  deriving DecidableEq

/-- Whether the path is at fault and not what stands there: no file can have such a path. -/
def FileFault.isOfPath : FileFault → Bool
  | .unnamable => true
  | .unencodable => true
  | _ => false

/-- Where the first half of a character stands that cannot be written in a path, and the halves in a
row from there on. -/
def unwritten (path : Str) : Nat × List (Fin 0x800) :=
  let position := path.pieces.findIdx fun p => p.bytes?.isNone
  let row := (path.pieces.drop position).takeWhile fun p => p.half?.isSome
  (position, row.filterMap Piece.half?)

/-- What to tell about a path that cannot be written in bytes. -/
def encodingMessage (path : Str) : Str :=
  match unwritten path with
  | (position, [index]) =>
    "'utf-8' codec can't encode character '" ++ Str.ofChars (Text.escapedHalf index)
      ++ "' in position " ++ toString position ++ ": surrogates not allowed"
  | (position, halves) =>
    "'utf-8' codec can't encode characters in position " ++ toString position ++ "-"
      ++ toString (position + halves.length - 1) ++ ": surrogates not allowed"

/-- What to tell about a file that cannot be used. -/
def FileFault.message (fault : FileFault) (path : Str) : Str :=
  match fault with
  | .missing => "[Errno 2] No such file or directory: " ++ Text.quoted path
  | .isDirectory => "[Errno 21] Is a directory: " ++ Text.quoted path
  | .notDirectory => "[Errno 20] Not a directory: " ++ Text.quoted path
  | .nameTooLong => "[Errno 36] File name too long: " ++ Text.quoted path
  | .occupied => "[Errno 17] File exists: " ++ Text.quoted path
  | .unnamable => "embedded null byte"
  | .unencodable => encodingMessage path
  | .tooDeep => "Too many directories are missing: " ++ Text.quoted path
  | .notArchive => "File is not a zip file"
  | .notText => Text.quoted path ++ " is not UTF-8 text"

/-- The files that can be read, by place. -/
structure Files where
  nodes : List (Place × Node) := []

namespace Files

/-! ## §4 The way to a file -/

/-- How many bytes a name may have. -/
def nameLimit : Nat := 255

/-- How many bytes a path may have. -/
def pathLimit : Nat := 4095

/-- The bytes of a path, or what is wrong with it whatever files there are. -/
def encode (text : Str) : Except FileFault (List UInt8) :=
  match text.bytes? with
  | none => .error .unencodable
  | some bytes =>
    if bytes.contains 0 then .error .unnamable
    else if pathLimit < bytes.length then .error .nameTooLong
    else .ok bytes

/-- What stands at a place. The current directory, those above it, the root and every directory on
the way to a file exist. -/
def node? (files : Files) (place : Place) : Option Node :=
  match files.nodes.find? fun entry => entry.1 = place with
  | some entry => some entry.2
  | none =>
    if place.names.all (· == Place.dots) || files.nodes.any (fun entry => place.leadsTowards entry.1)
    then some .directory
    else none

/-- Go from a place along some names; each step starts in a directory. -/
def walk (files : Files) (place : Place) : List FileName → Except FileFault Place
  | [] => .ok place
  | name :: names =>
    match files.node? place with
    | none => .error .missing
    | some .directory =>
      if name = [] ∨ name = Place.dot then walk files place names
      else if name = Place.dots then walk files place.up names
      else if nameLimit < name.length then .error .nameTooLong
      else walk files (place.child name) names
    | some _ => .error .notDirectory

/-- What the path that a string writes leads to. -/
def reach (files : Files) (text : Str) : Except FileFault Node :=
  if text.isEmpty then .error .missing
  else
    match encode text with
    | .error fault => .error fault
    | .ok bytes =>
      match files.walk (Place.startOf bytes) (Place.namesOf bytes) with
      | .error fault => .error fault
      | .ok place =>
        match files.node? place with
        | some node => .ok node
        | none => .error .missing

/-- Whether a path leads to anything. A name that is too long leaves the question open. -/
def has (files : Files) (p : Path) : Except FileFault Bool :=
  match files.reach p.text with
  | .ok _ => .ok true
  | .error .nameTooLong => .error .nameTooLong
  | .error _ => .ok false

/-! ## §5 Reading -/

/-- The entries of an archive. -/
def readArchive (files : Files) (p : Path) : Except FileFault (List Entry) :=
  match files.reach p.text with
  | .error fault => .error fault
  | .ok .directory => .error .isDirectory
  | .ok (.file _) => .error .notArchive
  | .ok (.archive entries) => .ok entries

/-- The text of a file. The bytes of an archive are no text unless it is empty, when they are
its end mark alone. -/
def readText (files : Files) (path : Str) : Except FileFault (List Char) :=
  match files.reach path with
  | .error fault => .error fault
  | .ok .directory => .error .isDirectory
  | .ok (.archive []) => .ok ['P', 'K', '\x05', '\x06']
  | .ok (.archive _) => .error .notText
  | .ok (.file bytes) =>
    match Text.Utf8.decode? bytes with
    | some text => .ok text
    | none => .error .notText

/-! ## §6 Writing -/

/-- How many names may lie between the first directory that is missing and the end of the way, both
counted, for the directories to be made. -/
def missingLimit : Nat := 986

/-- The files with a directory at a place. The directories on the way to it go without saying. -/
def putDirectory (files : Files) (place : Place) : Files :=
  { nodes := (place, .directory) :: files.nodes.filter fun entry =>
      match entry.2 with
      | .directory => !entry.1.leadsTowards place
      | _ => true }

/-- The files with a row of bytes at a place, whatever stood there before. -/
def put (files : Files) (place : Place) (bytes : List UInt8) : Files :=
  { nodes := (place, .file bytes) :: files.nodes.filter fun entry => entry.1 ≠ place }

/-- Go from a directory along some names and make the directories that are missing. A file on the
way is no directory to go through; at the end of the way, and once a directory had to be made, it
stands where a directory should be made. -/
def makeWay (files : Files) (made : Bool) (place : Place) :
    List FileName → Files × Except FileFault Place
  | [] => (files, .ok place)
  | name :: names =>
    if name = Place.dots then makeWay files made place.up names
    else if nameLimit < name.length then (files, .error .nameTooLong)
    else
      match files.node? (place.child name) with
      | some .directory => makeWay files made (place.child name) names
      | some _ => (files, .error (if made || names.isEmpty then .occupied else .notDirectory))
      | none =>
        if !made && missingLimit < names.length + 1 then (files, .error .tooDeep)
        else makeWay (files.putDirectory (place.child name)) true (place.child name) names

/-- Make the directory that a path leads to, with those on the way. -/
def makeDirectory (files : Files) (p : Path) : Files × Except FileFault Place :=
  match encode p.text with
  | .error fault => (files, .error fault)
  | .ok bytes => files.makeWay false (Place.startOf bytes) (Place.stepsOf bytes)

/-- Write a row of bytes to a path that ends in a directory. -/
def writeIn (files : Files) (directory : Place) (p : Path) (bytes : List UInt8) :
    Except FileFault Files :=
  match encode p.text with
  | .error fault => .error fault
  | .ok path =>
    match (Place.stepsOf path).getLast? with
    | none => .error .isDirectory
    | some name =>
      if name = Place.dots then .error .isDirectory
      else if nameLimit < name.length then .error .nameTooLong
      else
        match files.node? (directory.child name) with
        | some .directory => .error .isDirectory
        | _ => .ok (files.put (directory.child name) bytes)

/-- Write a row of bytes to a path. The directories on the way are made where they are missing, and
stay if nothing can be written after all. -/
def write (files : Files) (p : Path) (bytes : List UInt8) : Attempt FileFault Files :=
  match files.makeDirectory p.parent with
  | (files, .error fault) => .stopped files fault
  | (files, .ok directory) => .ofExcept files (files.writeIn directory p bytes)

end Files
end Reconcile
