import Reconcile.Attempt
import Reconcile.Graph.Edit
import Reconcile.Rule.RuleSet

/-!
# Completion of requirements

The third stage turns the edges that are left into requirements, for the artifacts whose rules
ask for it: one for each module that an edge leads to, but not for the module itself and not
where the module is required already.
-/

namespace Reconcile.Completion

/-- The module that an edge leads to, with the qualifier for the edge's scope. -/
def requirement (g : Graph) (e : Edge) : Except GraphFault Requirement :=
  (g.moduleName e.target).map fun name => ⟨name, e.scope.qualifier⟩

/-- A descriptor with requirements added, except of the module itself and of modules that are
required already. -/
def require (own : Str) (required : List Requirement) (d : Descriptor) : Descriptor :=
  required.foldl
    (fun d r => if r.name = own then d else d.addRequires r.name r.qualifier false) d

/-- Whether the requirements of an artifact follow from its edges. -/
def applies (rs : RuleSet) (g : Graph) (c : Coordinate) : Bool :=
  (g.synthesized.get? c).isSome && !g.isMerged c
    && (rs.directivesFor c).contains .requireAllDefinedDependencies

/-- Complete the requirements of one artifact. -/
def complete (rs : RuleSet) (c : Coordinate) (g : Graph) : Attempt GraphFault Graph :=
  if applies rs g c then
    match g.moduleName c with
    | .error fault => .stopped g fault
    | .ok own =>
      let (required, fault) := untilFault ((g.edgesOf c).map (requirement g))
      ⟨g.amend c (require own required), fault⟩
  else .done g

/-- Complete the requirements of every artifact. -/
def run (rs : RuleSet) (g : Graph) : Attempt GraphFault Graph :=
  Attempt.each (complete rs) g.coordinates g

end Reconcile.Completion
