import Reconcile.Archive.Files
import Reconcile.Rule.Directive

/-!
# Notices

What the stages report about their course. A notice stops nothing.
-/

namespace Reconcile

/-- How much a notice matters. -/
inductive Level where
  | warning
  | error
  deriving DecidableEq

/-- One thing that a stage reports about its course. -/
inductive Notice where
  /-- Several artifacts match a pattern, and one was taken. -/
  | ambiguous (pattern : Pattern) (count : Nat) (chosen : Coordinate)
  /-- A directive would lead an edge from an artifact to itself. -/
  | selfDependency (directive : Directive) (c : Coordinate)
  /-- An artifact was to be merged a second time. -/
  | alreadyMerged (source host : Coordinate)
  /-- A rule is about no artifact. -/
  | unusedRule (target : Str)
  /-- An archive that should be read is not there. -/
  | absentArchive (path : Path) (c : Coordinate)
  /-- An archive has a module descriptor that the resolver does not tell of. -/
  | undeclaredModule (c : Coordinate)
  /-- An artifact has no archive to list. -/
  | noArchive (c : Coordinate)
  /-- The archive of an artifact cannot be listed. -/
  | unreadableArchive (path : Path) (c : Coordinate) (fault : FileFault)
  /-- The validation found errors. -/
  | rejected (count : Nat)

namespace Notice

/-- How much a notice matters. -/
def level : Notice → Level
  | .rejected _ => .error
  | _ => .warning

/-- A notice in words. -/
def message : Notice → Str
  | .ambiguous pattern count chosen =>
    "'" ++ pattern.text ++ "' matches " ++ toString count ++ " artifacts, using " ++ chosen.text
  | .selfDependency directive c =>
    "Ignoring " ++ directive.describe ++ " on " ++ c.text ++ ": self dependency"
  | .alreadyMerged source host => source.text ++ " is already merged into " ++ host.text
  | .unusedRule target => "Rule '" ++ target ++ "' matches no artifact in the catalog"
  | .absentArchive path c => "Archive " ++ path.text ++ " for " ++ c.text ++ " does not exist"
  | .undeclaredModule c =>
    c.text ++ " contains module-info.class but the resolver supplied no descriptor"
  | .noArchive c => "No archive path for " ++ c.text ++ ", using resolver package list"
  | .unreadableArchive path c fault =>
    "Cannot read " ++ path.text ++ " for " ++ c.text ++ ": " ++ fault.message path.text
      ++ "; using resolver package list"
  | .rejected count => "Reconciliation failed with " ++ toString count ++ " error(s)"

end Notice
end Reconcile
