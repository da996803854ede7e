import Reconcile.Archive.Files
import Reconcile.Document.Rules

/-!
# Documents in files

Reading the document behind a path, and the rule set that it holds. A document that nests too deep
or writes a whole number of too many digits is told apart from one that is not JSON at all.
-/

namespace Reconcile

/-! ## §1 Documents -/

/-- Why there is no document behind a path. -/
inductive DocumentFault where
  | file (fault : FileFault)
  | json (fault : Json.Fault)
  deriving DecidableEq

/-- How documents in files are read: they nest as deep as the reader's stack allows, whole numbers
are bounded, and half of a character may stand alone. -/
def Files.dialect : Json.Dialect where
  depth := some 989
  digits := some 4300
  halves := true

/-- The document behind a path. -/
def Files.readDocument (files : Files) (path : Str) : Except DocumentFault Json :=
  match files.readText path with
  | .error fault => .error (.file fault)
  | .ok text =>
    match Json.parse Files.dialect text with
    | .ok document => .ok document
    | .error fault => .error (.json fault)

/-! ## §2 Rule sets -/

/-- Why a rule set cannot be loaded. -/
inductive LoadFault where
  | document (path : Str) (fault : DocumentFault)
  | ruleSet (fault : RuleSetFault)

/-- What to tell about a rule set that cannot be loaded. -/
def LoadFault.message : LoadFault → Str
  | .document path _ => "Cannot read rule set '" ++ path ++ "'"
  | .ruleSet fault => fault.message

/-- The rule set in the document behind a path. -/
def RuleSet.load (files : Files) (path : Str) : Except LoadFault RuleSet :=
  match files.readDocument path with
  | .error fault => .error (.document path fault)
  | .ok document =>
    match RuleSet.ofJson document with
    | .ok rs => .ok rs
    | .error fault => .error (.ruleSet fault)

end Reconcile
