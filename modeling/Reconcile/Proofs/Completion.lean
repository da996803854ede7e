import Reconcile.Proofs.Merging
import Reconcile.Stage.Completion

/-!
# The completion after a patch

The completion adds requirements to descriptors and changes nothing else. The merges of a patched
graph are flat, so every edge leads to a module that has a name, and nothing stops the completion.
-/

namespace Reconcile

/-- Where there is no fault, all values stand in front of it. -/
theorem untilFault_map_ok {φ α β : Type} (f : α → β) (xs : List α) :
    untilFault (xs.map fun x => (.ok (f x) : Except φ β)) = (xs.map f, none) := by
  induction xs with
  | nil => rfl
  | cons x xs ih => simp only [List.map_cons, untilFault, ih]

namespace Completion

variable {rs : RuleSet} {c : Coordinate} {g₀ g : Graph}

/-! ## §1 One artifact -/

theorem require_frame (own : Str) (required : List Requirement) (d : Descriptor) :
    (require own required d).exports = d.exports ∧
      (require own required d).mergedJars = d.mergedJars := by
  unfold require
  induction required generalizing d with
  | nil => exact ⟨rfl, rfl⟩
  | cons r rest ih =>
    rw [List.foldl_cons]
    split
    · exact ih d
    · obtain ⟨hexports, hjars⟩ := ih (d.addRequires r.name r.qualifier false)
      exact ⟨hexports.trans (Patch.exports_addRequires d r.name r.qualifier false),
        hjars.trans (Patch.mergedJars_addRequires d r.name r.qualifier false)⟩

/-- The requirements that the edges of an artifact stand for, over flat merges. -/
def required (g : Graph) (c : Coordinate) : List Requirement :=
  (g.edgesOf c).map fun e => ⟨g.ownName (g.home e.target), e.scope.qualifier⟩

/-- Over flat merges the requirements of an artifact are completed from all of its edges. -/
theorem complete_eq (hflat : g.FlatMerges) (c : Coordinate) :
    complete rs c g = .done (if applies rs g c then
      g.amend c (require (g.ownName (g.home c)) (required g c)) else g) := by
  -- Over flat merges every target belongs to a module with a name.
  have hrequirement : requirement g =
      fun e => .ok ⟨g.ownName (g.home e.target), e.scope.qualifier⟩ := by
    funext e
    unfold requirement
    rw [hflat.moduleName_eq]
    rfl
  unfold complete
  split
  · rw [hflat.moduleName_eq, hrequirement]
    simp only [untilFault_map_ok]
    rfl
  · rfl

/-! ## §2 The stage -/

open Patch in
/-- Nothing stops the completion of a patched graph, and it keeps the merges, what the graph says of
them and whether it is frozen. -/
theorem run_spec (h : Merging rs g₀ g) (hapart : Apart rs g₀)
    (hdescribed : ∀ c, (g₀.synthesized.get? c).isSome → c ∈ g₀.coordinates) :
    (run rs g).fault = none ∧ Merging rs g₀ (run rs g).state ∧ (run rs g).state.hosts = g.hosts := by
  refine Attempt.each_goesThrough
    (P := fun g' => Merging rs g₀ g' ∧ g'.hosts = g.hosts) (fun c _ g' hg' => ?_) ⟨h, rfl⟩
  -- The graph so far still has flat merges, so the next artifact is completed as well.
  rw [complete_eq (hg'.1.linked.flat hapart hdescribed)]
  refine ⟨rfl, ?_⟩
  show Merging rs g₀ (ite _ _ _) ∧ Graph.hosts (ite _ _ _) = _
  split
  · exact ⟨hg'.1.amend (fun d => (require_frame _ _ d).1) (fun d => (require_frame _ _ d).2) c,
      (Graph.hosts_amend g' c _).trans hg'.2⟩
  · exact hg'

end Completion
end Reconcile
