import Reconcile.Archive.Files
import Reconcile.Archive.Manifest
import Reconcile.Ordered

/-!
# What an archive tells about its module

The packages of an archive are the directories of its class files; what lies under the manifest
directory and the module descriptor itself does not count. The manifest may name the module.
-/

namespace Reconcile.Archive

/-! ## §1 Entries -/

/-- The name of an entry, which ends at the first character that no name can hold. -/
def nameOf (e : Entry) : List Char := e.name.toList.takeWhile (· ≠ '\x00')

/-- The name of a compiled module descriptor. -/
def moduleInfo : List Char := "module-info.class".toList

/-- The directory of the manifest. -/
def metaDirectory : List Char := "META-INF/".toList

/-- Whether an entry is a module descriptor: at the top, or anywhere below the versions of a
multi-release archive. -/
def isModuleInfo (name : List Char) : Bool :=
  name == moduleInfo ||
    ("META-INF/versions/".toList.isPrefixOf name && ('/' :: moduleInfo).isSuffixOf name)

/-- The package of an entry: the directory of a class file. A class file at the top has none. -/
def packageOf? (name : List Char) : Option (List Char) :=
  if isModuleInfo name || !".class".toList.isSuffixOf name || metaDirectory.isPrefixOf name then
    none
  else (Text.beforeLast '/' name).map fun directory =>
    directory.map fun c => if c = '/' then '.' else c

/-! ## §2 The summary -/

/-- What an archive tells about its module. -/
structure Summary where
  /-- The packages with class files, in increasing order. -/
  packages : List Str
  hasModuleInfo : Bool
  automaticName : Option Str
  deriving DecidableEq

/-- The content of the manifest: the last entry of its name. -/
def manifest? (entries : List Entry) : Option (List UInt8) :=
  (entries.reverse.find? fun e => nameOf e = "META-INF/MANIFEST.MF".toList).map Entry.bytes

/-- The summary of an archive's entries. -/
def summary (entries : List Entry) : Summary where
  packages :=
    Ordered.ofList (entries.filterMap fun e => (packageOf? (nameOf e)).map Str.ofChars)
  hasModuleInfo := entries.any fun e => isModuleInfo (nameOf e)
  automaticName :=
    (manifest? entries).bind fun bytes =>
      (Manifest.value? (String.ofList (Text.Utf8.decodeLenient bytes)) "Automatic-Module-Name").map
        Str.ofString

/-- The summary of the archive that a path leads to. -/
def read (files : Files) (p : Path) : Except FileFault Summary :=
  (files.readArchive p).map summary

end Reconcile.Archive
