import Reconcile.Graph.Basic

/-!
# Changes of the graph

Every change is refused once the graph is frozen, and a change of edges also where there is no
such artifact. A descriptor that was built can be amended in place.
-/

namespace Reconcile

/-! ## §1 Edges of one artifact -/

namespace Edge

/-- The edges whose targets a pattern does not select. -/
def without (p : Pattern) (edges : List Edge) : List Edge :=
  edges.filter fun e => !p.selects e.target

/-- Whether there is an edge to a target. -/
def leadsTo (target : Coordinate) (edges : List Edge) : Bool :=
  edges.any fun e => e.target = target

/-- The edges with one to a target: the first that is there, its scope changed if `replace` says
so, else a new one at the end. -/
def upsert (target : Coordinate) (scope : Scope) (replace : Bool) : List Edge → List Edge
  | [] => [⟨target, scope⟩]
  | e :: es =>
    if e.target = target then (if replace then { e with scope := scope } else e) :: es
    else e :: upsert target scope replace es

end Edge

namespace Graph

/-! ## §2 Edges -/

/-- The graph with the edges of one artifact exchanged. -/
def withEdges (g : Graph) (c : Coordinate) (edges : List Edge) : Graph :=
  { g with nodes := g.nodes.map fun a => if a.coordinate = c then { a with edges := edges } else a }

/-- Drop the edges of an artifact to the targets that a pattern selects, and count them. -/
def removeEdges (g : Graph) (c : Coordinate) (p : Pattern) : Except GraphFault (Graph × Nat) :=
  if g.frozen then .error .frozen
  else
    match g.artifact c with
    | .error fault => .error fault
    | .ok a =>
      let kept := Edge.without p a.edges
      .ok (g.withEdges c kept, a.edges.length - kept.length)

/-- Lead an edge of an artifact to a target, and tell whether it is a new one. -/
def addEdge (g : Graph) (c target : Coordinate) (scope : Scope) (replace : Bool) :
    Except GraphFault (Graph × Bool) :=
  if g.frozen then .error .frozen
  else
    match g.artifact c with
    | .error fault => .error fault
    | .ok a =>
      .ok (g.withEdges c (Edge.upsert target scope replace a.edges), !Edge.leadsTo target a.edges)

/-! ## §3 Descriptors, packages, merges, exemptions -/

/-- A change that only a graph that is not frozen admits. -/
def unlessFrozen (g : Graph) (next : Graph) : Except GraphFault Graph :=
  if g.frozen then .error .frozen else .ok next

/-- Put a descriptor in force. -/
def setSynthesized (g : Graph) (c : Coordinate) (d : Descriptor) : Except GraphFault Graph :=
  g.unlessFrozen { g with synthesized := g.synthesized.insert c d }

/-- Record the packages that were found for an artifact. -/
def recordPackages (g : Graph) (c : Coordinate) (packages : List Str) :
    Except GraphFault Graph :=
  g.unlessFrozen { g with scanned := g.scanned.insert c (Ordered.ofList packages) }

/-- Merge an artifact into a host. -/
def merge (g : Graph) (source host : Coordinate) : Except GraphFault Graph :=
  g.unlessFrozen { g with hosts := g.hosts.insert source host }

/-- Let an artifact stay automatic. -/
def exemptArtifact (g : Graph) (c : Coordinate) : Except GraphFault Graph :=
  g.unlessFrozen { g with exempt := if c ∈ g.exempt then g.exempt else g.exempt ++ [c] }

/-- Admit no further change. -/
def freeze (g : Graph) : Graph := { g with frozen := true }

/-- Amend the descriptor that was built for an artifact, if there is one. It stays the same
descriptor, so a frozen graph does not object. -/
def amend (g : Graph) (c : Coordinate) (change : Descriptor → Descriptor) : Graph :=
  match g.synthesized.get? c with
  | some d => { g with synthesized := g.synthesized.insert c (change d) }
  | none => g

end Graph
end Reconcile
