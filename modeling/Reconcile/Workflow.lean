import Reconcile.ModuleGraph
import Reconcile.Stage.Completion
import Reconcile.Stage.Patch
import Reconcile.Stage.Synthesis
import Reconcile.Stage.Validation

/-!
# The reconciliation of a catalog

The stages in a row on a fresh graph: synthesis, patch, completion, freezing, validation and, if
the validation passes, emission. Nothing is kept between runs.
-/

namespace Reconcile.Workflow

/-! ## §1 Outcomes -/

/-- What a reconciliation that succeeds gives. -/
structure Result where
  moduleGraph : ModuleGraph
  graph : Graph
  report : Report
  stats : Patch.Stats

/-- Why a reconciliation fails. -/
inductive Failure where
  /-- The validation found errors. -/
  | rejected (report : Report)
  /-- A graph that passed the validation cannot be emitted. -/
  | emission (fault : EmissionFault)
  /-- The synthesis was stopped. -/
  | synthesis (fault : Synthesis.Fault)
  /-- A later stage was stopped. -/
  | stage (fault : GraphFault)

/-- What to tell about a graph that is rejected: one line for each error. -/
def rejectionMessage (report : Report) : Str :=
  Str.intercalate "\n" <|
    ("Module graph reconciliation failed with " ++ toString report.errors.length ++ " error(s):")
      :: report.errors.map fun v => "  - [" ++ v.kind.word ++ "] " ++ v.message

/-- What to tell about a reconciliation that fails. -/
def Failure.message : Failure → Str
  | .rejected report => rejectionMessage report
  | .emission fault => fault.message
  | .synthesis fault => fault.message
  | .stage fault => fault.message

/-- A reconciliation with the notices of its stages. -/
structure Outcome where
  result : Except Failure Result
  notices : List Notice

/-! ## §2 The stages in a row -/

/-- Emit the graph of a report that passed. -/
def emit (g : Graph) (report : Report) (stats : Patch.Stats) : Except Failure Result :=
  match ModuleGraph.ofGraph g with
  | .ok mg => .ok ⟨mg, g, report, stats⟩
  | .error fault => .error (.emission fault)

/-- Freeze and validate a completed graph, and emit it if it passes. -/
def finish (rs : RuleSet) (earlier : List Violation) (stats : Patch.Stats) (g : Graph) :
    Outcome :=
  match Validation.run rs rs.policy earlier g.freeze with
  | .error fault => ⟨.error (.stage fault), []⟩
  | .ok (report, notices) =>
    if report.passed then ⟨emit g.freeze report stats, notices⟩
    else ⟨.error (.rejected report), notices ++ [.rejected report.errors.length]⟩

/-- Reconcile a catalog by a rule set. -/
def run (rs : RuleSet) (lister : Lister) (k : Catalog) : Outcome :=
  let synthesis := Synthesis.run rs lister (Graph.ofCatalog k)
  match synthesis.attempt.fault with
  | some fault => ⟨.error (.synthesis fault), synthesis.notices⟩
  | none =>
    let patch := Patch.run rs synthesis.attempt.state
    let notices := synthesis.notices ++ patch.state.notices
    match patch.fault with
    | some fault => ⟨.error (.stage fault), notices⟩
    | none =>
      let completion := Completion.run rs patch.state.graph
      match completion.fault with
      | some fault => ⟨.error (.stage fault), notices⟩
      | none =>
        let outcome := finish rs synthesis.violations patch.state.stats completion.state
        ⟨outcome.result, notices ++ outcome.notices⟩

end Reconcile.Workflow
