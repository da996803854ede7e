import Reconcile.Archive.Lister
import Reconcile.Attempt
import Reconcile.Graph.Edit
import Reconcile.Report
import Reconcile.Rule.RuleSet

/-!
# Synthesis of descriptors

The first stage reports rules that cannot take effect, lists packages and builds descriptors.

Layers:
1. Directives whose artifact is not in the catalog
2. The artifacts that get a descriptor; one with a native descriptor needs leave for it
3. Listing packages, every list before any descriptor
4. Building descriptors and noting exemptions
-/

namespace Reconcile.Synthesis

/-! ## §1 Dangling rule targets -/

/-- A directive of a rule that refers to an artifact which is not there. -/
def danglingTarget (rule : Str) (d : Directive) (p : Pattern) : Violation where
  kind := .danglingRuleTarget
  severity := .error
  message :=
    "Rule '" ++ rule ++ "' (" ++ d.describe ++ ") references '" ++ p.text
      ++ "' which is not in the artifact catalog"
  coordinates := [p.text]
  ruleTarget := some rule

/-- The directives of the rules about the graph's artifacts that refer to nothing in the graph,
each with the target of its rule. Of those that read the same in writing the first is kept. -/
def dangling (rs : RuleSet) (g : Graph) : List (Str × Directive) :=
  Ordered.distinctBy (fun (rule, d) => (rule, d.describe)) <| g.coordinates.flatMap fun c =>
    (rs.lookup c).flatMap fun r =>
      (r.directives.filter fun d => d.reference?.any fun p => (g.find p).isEmpty).map fun d =>
        (r.target.text, d)

/-- The violations for directives that refer to nothing in the graph. -/
def danglingTargets (rs : RuleSet) (g : Graph) : List Violation :=
  (dangling rs g).filterMap fun (rule, d) => d.reference?.map (danglingTarget rule d)

/-! ## §2 The artifacts to describe -/

/-- An artifact with a native descriptor for which rules ask for another without leave. -/
def realModulePatch (c : Coordinate) (d : Descriptor) (rule : Option Str) : Violation where
  kind := .realModulePatch
  severity := .error
  message :=
    c.text ++ " already has a module descriptor '" ++ d.name
      ++ "'; add patchRealModule() to patch it"
  coordinates := [c.text]
  modules := [d.name]
  ruleTarget := rule

/-- The native descriptor that stands in the way of a new one. -/
def obstacle? (rs : RuleSet) (g : Graph) (c : Coordinate) : Option Descriptor :=
  if (rs.directivesFor c).contains .patchRealModule then none
  else (g.artifact? c).bind Artifact.descriptor

/-- The artifacts whose rules need a descriptor. -/
def requested (rs : RuleSet) (g : Graph) : List Coordinate :=
  g.coordinates.filter rs.needsDescriptor

/-- The artifacts that get a descriptor. -/
def targets (rs : RuleSet) (g : Graph) : List Coordinate :=
  (requested rs g).filter fun c => (obstacle? rs g c).isNone

/-- The violations for the artifacts that are refused one. -/
def realModulePatches (rs : RuleSet) (g : Graph) : List Violation :=
  (requested rs g).filterMap fun c =>
    (obstacle? rs g c).map fun d =>
      realModulePatch c d ((rs.lookup c).head?.map fun r => r.target.text)

/-! ## §3 Packages -/

/-- The artifacts without a native descriptor that the directives for one artifact merge. -/
def sourcesToScan (rs : RuleSet) (g : Graph) (c : Coordinate) : List Coordinate :=
  ((rs.directivesFor c).filterMap Directive.mergeSource?).flatMap fun source =>
    (g.find source.pattern).filter fun s => ((g.artifact? s).bind Artifact.descriptor).isNone

/-- The artifacts whose packages are listed: those that export all of theirs and those that are
merged without a descriptor. -/
def toScan (rs : RuleSet) (g : Graph) : List Coordinate :=
  Coordinate.inTextOrder <| Ordered.distinct <| (targets rs g).flatMap fun c =>
    (if (rs.directivesFor c).contains .exportAllPackages then [c] else [])
      ++ sourcesToScan rs g c

/-- The listings of the artifacts whose packages are listed. -/
def listings (rs : RuleSet) (lister : Lister) (g : Graph) : List (Coordinate × Listing) :=
  (toScan rs g).filterMap fun c => (g.artifact? c).map fun a => (c, lister a)

/-- What stopped the first listing that was stopped. -/
def listingFault? (ls : List (Coordinate × Listing)) : Option FileFault :=
  ls.findSome? fun (_, listing) => listing.fault

/-- What was noticed by the listings in front of the first that was stopped. -/
def listingNotices (ls : List (Coordinate × Listing)) : List Notice :=
  (ls.takeWhile fun (_, listing) => listing.fault.isNone).flatMap fun (_, listing) =>
    listing.notices

/-! ## §4 Descriptors -/

/-- The descriptor to start from: the native one, else one with nothing but the module's name. -/
def skeleton (g : Graph) (a : Artifact) : Except GraphFault Descriptor :=
  match a.descriptor with
  | some d => .ok d
  | none => (g.moduleName a.coordinate).map fun name => { name := name }

/-- A descriptor with the name and the exports that directives ask for, where the scanned
packages are known. -/
def shaped (directives : List Directive) (scanned : List Str) (d : Descriptor) : Descriptor :=
  let d := { d with name := ((directives.filterMap Directive.chosenName?).getLast?).getD d.name }
  if directives.contains .exportAllPackages then
    { d with exports := Ordered.sortBy (fun package => package) scanned }
  else d.addExports (directives.filterMap Directive.exported?)

/-- The descriptor for one artifact. -/
def build (rs : RuleSet) (g : Graph) (c : Coordinate) : Except GraphFault Descriptor :=
  match g.artifact c with
  | .error fault => .error fault
  | .ok a =>
    (skeleton g a).map (shaped (rs.directivesFor c) ((g.scanned.get? c).getD []))

/-- Build the descriptor of one artifact and put it in force. -/
def describe (rs : RuleSet) (c : Coordinate) (g : Graph) : Attempt GraphFault Graph :=
  .ofExcept g <|
    match build rs g c with
    | .error fault => .error fault
    | .ok d => g.setSynthesized c d

/-- The artifacts that stay automatic by a directive. -/
def exempted (rs : RuleSet) (g : Graph) : List Coordinate :=
  g.coordinates.filter fun c => (rs.directivesFor c).contains .automaticModule

/-- The changes of the graph: packages, descriptors, exemptions. -/
def changes (rs : RuleSet) (ls : List (Coordinate × Listing)) (g : Graph) :
    Attempt GraphFault Graph :=
  let scan := Attempt.each (fun (c, listing) g => .ofExcept g (g.recordPackages c listing.packages))
    ls g
  let described := scan.andThen (Attempt.each (describe rs) (targets rs g))
  described.andThen <|
    Attempt.each (fun c g => .ofExcept g (g.exemptArtifact c)) (exempted rs g)

/-! ## §5 The stage -/

/-- What can stop the stage: a listing, or the graph. -/
inductive Fault where
  | listing (fault : FileFault)
  | graph (fault : GraphFault)
  deriving DecidableEq

/-- What to tell about a stage that was stopped. -/
def Fault.message : Fault → Str
  | .listing fault => fault.message ""
  | .graph fault => fault.message

/-- The outcome of the stage. -/
structure Outcome where
  attempt : Attempt Fault Graph
  violations : List Violation
  notices : List Notice

/-- Report rules without effect, list packages, build descriptors and note exemptions. -/
def run (rs : RuleSet) (lister : Lister) (g : Graph) : Outcome where
  attempt :=
    match listingFault? (listings rs lister g) with
    | some fault => .stopped g (.listing fault)
    | none => (changes rs (listings rs lister g) g).mapFault .graph
  violations := danglingTargets rs g ++ realModulePatches rs g
  notices := listingNotices (listings rs lister g)

end Reconcile.Synthesis
