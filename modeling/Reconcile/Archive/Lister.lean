import Reconcile.Archive.Summary
import Reconcile.Notice
import Reconcile.Table

/-!
# Package listers

A lister tells the packages of an artifact: from lists known beforehand or from the artifact's
archive. Where it knows nothing, it falls back on the packages that the resolver supplied; only a
path that no file can have stops it.
-/

namespace Reconcile

/-- The packages of an artifact, in any order and possibly repeated, and what was noticed. -/
structure Listing where
  packages : List Str
  notices : List Notice := []
  /-- What stopped the listing, if anything did. -/
  fault : Option FileFault := none

/-- A way to tell the packages of an artifact. -/
abbrev Lister := Artifact → Listing

namespace Lister

/-- The packages that the resolver supplied. -/
def supplied (a : Artifact) : List Str := a.packages.getD []

/-- List packages from known lists, which are found by the coordinate's text. -/
def static (known : List (Str × List Str)) : Lister := fun a =>
  match Table.lookup a.coordinate.text known with
  | some packages => { packages := packages }
  | none => { packages := supplied a }

/-- List the packages of the archive that the artifact's path leads to from a base directory. -/
def archive (files : Files) (base : Option Path) : Lister := fun a =>
  match a.path with
  | none => { packages := supplied a, notices := [.noArchive a.coordinate] }
  | some text =>
    if text.isEmpty then { packages := supplied a, notices := [.noArchive a.coordinate] }
    else
      let path := (Path.ofText text).under base
      match Archive.read files path with
      | .ok summary => { packages := summary.packages }
      | .error fault =>
        if fault.isOfPath then { packages := [], fault := some fault }
        else { packages := supplied a, notices := [.unreadableArchive path a.coordinate fault] }

end Lister
end Reconcile
