import Reconcile.Attempt
import Reconcile.Graph.Edit
import Reconcile.Notice
import Reconcile.Rule.RuleSet

/-!
# Patching the graph

The second stage applies the directives about edges and about structure. A phase goes over the
whole graph before the next one starts: removals of edges, additions of edges, structure. In a
phase, the artifacts come in the order of their texts and the directives of each in the order in
which they apply; an artifact that is merged by then is passed over.

Layers:
1. Patterns resolved to one artifact
2. The patch in progress
3. One directive
4. The phases
-/

namespace Reconcile.Patch

/-! ## §1 Resolving patterns -/

/-- The last of the artifacts that a pattern selects, with a notice if there are several. -/
def resolve (g : Graph) (p : Pattern) : Option Coordinate × List Notice :=
  match (g.find p).getLast? with
  | none => (none, [])
  | some chosen =>
    (some chosen,
      if 1 < (g.find p).length then [.ambiguous p (g.find p).length chosen] else [])

/-! ## §2 Progress -/

/-- How many changes a patch made. -/
structure Stats where
  edgesRemoved : Nat := 0
  edgesAdded : Nat := 0
  structural : Nat := 0
  merged : Nat := 0
  deriving DecidableEq

/-- A patch in progress: the graph, the changes counted and the notices given so far. -/
structure Progress where
  graph : Graph
  stats : Stats := {}
  notices : List Notice := []

namespace Progress

/-- The progress with further notices. -/
def notify (p : Progress) (notices : List Notice) : Progress :=
  { p with notices := p.notices ++ notices }

/-- The progress with a changed graph and counts. -/
def record (p : Progress) (g : Graph) (count : Stats → Stats) : Progress :=
  { p with graph := g, stats := count p.stats }

end Progress

/-! ## §3 Directives -/

/-- Drop the edges of an artifact that a pattern selects. -/
def removeEdges (c : Coordinate) (pattern : Pattern) (p : Progress) :
    Attempt GraphFault Progress :=
  match p.graph.removeEdges c pattern with
  | .error fault => .stopped p fault
  | .ok (g, n) => .done (p.record g fun s => { s with edgesRemoved := s.edgesRemoved + n })

/-- Lead an edge of an artifact to a target. -/
def addEdge (c target : Coordinate) (scope : Scope) (replace : Bool) (p : Progress) :
    Attempt GraphFault Progress :=
  match p.graph.addEdge c target scope replace with
  | .error fault => .stopped p fault
  | .ok (g, new) =>
    .done (p.record g fun s => if new then { s with edgesAdded := s.edgesAdded + 1 } else s)

/-- Add the dependency that a directive asks for, unless it is on the artifact itself. -/
def addDependency (c : Coordinate) (written : WrittenPattern) (scope : Scope) (p : Progress) :
    Attempt GraphFault Progress :=
  let (found, notices) := resolve p.graph written.pattern
  let p := p.notify notices
  match found with
  | none => .done p
  | some target =>
    if target = c then .done (p.notify [.selfDependency (.addDependency written scope) c])
    else addEdge c target scope true p

/-- Amend the descriptor of an artifact, if one was built for it. -/
def amend (c : Coordinate) (change : Descriptor → Descriptor) (p : Progress) : Progress :=
  if (p.graph.synthesized.get? c).isSome then
    p.record (p.graph.amend c change) fun s => { s with structural := s.structural + 1 }
  else p

/-- The patterns of the edges that the rules about an artifact drop. -/
def removals (rs : RuleSet) (c : Coordinate) : List Pattern :=
  (rs.directivesFor c).filterMap Directive.removal?

/-- The edges of a merged artifact that its host takes over: not those inside the merged module,
and not those that the host's rules drop. -/
def foldedEdges (g : Graph) (removals : List Pattern) (source host : Coordinate) : List Edge :=
  (g.edgesOf source).filter fun e =>
    e.target ≠ host && e.target ≠ source && g.host? e.target ≠ some host
      && !removals.any fun p => p.selects e.target

/-- Merge an artifact into a host that has a descriptor: its packages and edges go over to the
host, and edges of the host to it vanish. -/
def fold (rs : RuleSet) (host source : Coordinate) (p : Progress) : Attempt GraphFault Progress :=
  let packages := p.graph.exportsOf source
  let g := p.graph.amend host fun d => (d.addExports packages).addMergedJar source
  let edges := foldedEdges g (removals rs host) source host
  let moved := Attempt.each (fun (e : Edge) => addEdge host e.target e.scope false) edges
    { p with graph := g }
  let cut := moved.andThen (removeEdges host (Pattern.exact source))
  cut.andThen fun p =>
    match p.graph.merge source host with
    | .error fault => .stopped p fault
    | .ok g => .done (p.record g fun s => { s with merged := s.merged + 1 })

/-- Merge the artifact that a pattern resolves to, unless it is merged already or the host has no
descriptor. -/
def mergeJar (rs : RuleSet) (host : Coordinate) (pattern : Pattern) (p : Progress) :
    Attempt GraphFault Progress :=
  let (found, notices) := resolve p.graph pattern
  let p := p.notify notices
  match found with
  | none => .done p
  | some source =>
    match p.graph.host? source with
    | some other => .done (p.notify [.alreadyMerged source other])
    | none => if (p.graph.synthesized.get? host).isSome then fold rs host source p else .done p

/-- Apply one directive to an artifact. -/
def apply (rs : RuleSet) (c : Coordinate) (d : Directive) (p : Progress) :
    Attempt GraphFault Progress :=
  match d with
  | .removeDependency target => removeEdges c target.pattern p
  | .addDependency target scope => addDependency c target scope p
  | .requires name qualifier => .done (amend c (fun d => d.addRequires name qualifier true) p)
  | .uses service => .done (amend c (fun d => d.addUses service) p)
  | .opensPackage package => .done (amend c (fun d => d.addOpens [package]) p)
  | .mergeJar source => mergeJar rs c source.pattern p
  | _ => .done p

/-! ## §4 Phases -/

/-- The phases of a patch, in order. -/
def phases : List Phase := [.edgeRemoval, .edgeAddition, .structural]

/-- Apply the directives of a phase to one artifact. -/
def visit (rs : RuleSet) (phase : Phase) (c : Coordinate) (p : Progress) :
    Attempt GraphFault Progress :=
  if p.graph.isMerged c then .done p
  else Attempt.each (apply rs c) (rs.directivesIn phase c) p

/-- Pass one phase over a list of artifacts. -/
def pass (rs : RuleSet) (coordinates : List Coordinate) (phase : Phase) (p : Progress) :
    Attempt GraphFault Progress :=
  Attempt.each (visit rs phase) coordinates p

/-- Patch a graph. -/
def run (rs : RuleSet) (g : Graph) : Attempt GraphFault Progress :=
  Attempt.each (pass rs g.coordinates) phases { graph := g }

end Reconcile.Patch
