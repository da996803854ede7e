import Reconcile.Proofs.Descriptors

/-!
# The states of a reconciliation

The graphs that the stages pass through one after the other: each change of the synthesis leaves one
behind, then come those of the patch and of the completion. All of them have the artifacts of the
catalog and flat merges.

Layers:
1. The states of the synthesis
2. The states of the completion
3. All states
-/

namespace Reconcile

variable {rs : RuleSet} {lister : Lister} {k : Catalog} {g₀ g : Graph}

/-! ## §1 The synthesis -/

namespace Synthesis

/-- The changes of the synthesis one by one. -/
def steps (rs : RuleSet) (ls : List (Coordinate × Listing)) (g : Graph) :
    List (Graph → Attempt GraphFault Graph) :=
  ls.map (fun (c, listing) g => .ofExcept g (g.recordPackages c listing.packages))
    ++ (targets rs g).map (describe rs)
    ++ (exempted rs g).map fun c g => .ofExcept g (g.exemptArtifact c)

theorem changes_eq_each (rs : RuleSet) (ls : List (Coordinate × Listing)) (g : Graph) :
    changes rs ls g = Attempt.each (fun step => step) (steps rs ls g) g := by
  have hrow : ∀ {α : Type} (f : α → Graph → Attempt GraphFault Graph) (xs : List α),
      Attempt.each (fun step => step) (xs.map f) = Attempt.each f xs := fun f xs =>
    funext fun g => Attempt.each_map f xs g
  unfold steps changes
  rw [Attempt.each_append, Attempt.each_append, hrow, hrow, hrow]

/-- The graphs that a synthesis passes through. Listings come first, so one that is stopped leaves the
graph as it is. -/
def course (rs : RuleSet) (lister : Lister) (g : Graph) : List Graph :=
  match listingFault? (listings rs lister g) with
  | some _ => [g]
  | none =>
    g :: Attempt.trail (fun _ _ => []) (fun step => step) (steps rs (listings rs lister g) g) g

theorem getLast?_course (rs : RuleSet) (lister : Lister) (g : Graph) :
    (course rs lister g).getLast? = some (run rs lister g).attempt.state := by
  unfold course run
  cases listingFault? (listings rs lister g) with
  | some fault => rfl
  | none =>
    simp only [changes_eq_each]
    exact Attempt.getLast?_trail _ _ _

/-- A change of packages, descriptors or exemptions keeps the artifacts and the merges. -/
theorem step_keeps {ls : List (Coordinate × Listing)} {step : Graph → Attempt GraphFault Graph}
    (h : step ∈ steps rs ls g₀) (g : Graph) :
    (step g).state.nodes = g.nodes ∧ (step g).state.hosts = g.hosts := by
  have hguarded : ∀ next : Graph, next.nodes = g.nodes → next.hosts = g.hosts →
      (Attempt.ofExcept g (g.unlessFrozen next)).state.nodes = g.nodes ∧
        (Attempt.ofExcept g (g.unlessFrozen next)).state.hosts = g.hosts := by
    intro next hnodes hhosts
    unfold Graph.unlessFrozen
    split
    · exact ⟨rfl, rfl⟩
    · exact ⟨hnodes, hhosts⟩
  simp only [steps, List.mem_append, List.mem_map] at h
  rcases h with (⟨⟨c, listing⟩, -, rfl⟩ | ⟨c, -, rfl⟩) | ⟨c, -, rfl⟩
  · exact hguarded _ rfl rfl
  · unfold describe
    cases build rs g c with
    | error fault => exact ⟨rfl, rfl⟩
    | ok d => exact hguarded _ rfl rfl
  · exact hguarded _ rfl rfl

/-- In whatever state a synthesis is looked at, the graph has the artifacts of the catalog and no
merge. -/
theorem of_mem_course (h : g ∈ course rs lister (.ofCatalog k)) :
    g.nodes = k.list ∧ g.hosts = .empty := by
  unfold course at h
  split at h
  · rw [List.mem_singleton.mp h]
    exact ⟨rfl, rfl⟩
  · rcases List.mem_cons.mp h with rfl | h
    · exact ⟨rfl, rfl⟩
    · refine Attempt.forall_mem_trail (P := fun g : Graph => g.nodes = k.list ∧ g.hosts = .empty)
        (fun step hstep g hg => ⟨fun g' hg' => absurd hg' List.not_mem_nil, ?_⟩) ⟨rfl, rfl⟩ g h
      obtain ⟨hnodes, hhosts⟩ := step_keeps hstep g
      exact ⟨hnodes.trans hg.1, hhosts.trans hg.2⟩

end Synthesis

/-! ## §2 The completion -/

namespace Completion

/-- The graphs that a completion passes through. -/
def course (rs : RuleSet) (g : Graph) : List Graph :=
  g :: Attempt.trail (fun _ _ => []) (complete rs) g.coordinates g

theorem getLast?_course (rs : RuleSet) (g : Graph) :
    (course rs g).getLast? = some (run rs g).state :=
  Attempt.getLast?_trail _ _ _

/-- In whatever state a completion is looked at, merges are linked as they were. -/
theorem linked_of_mem_course {g₁ : Graph} (hlinked : Patch.Linked rs g₀ g₁) (h : g ∈ course rs g₁) :
    Patch.Linked rs g₀ g := by
  rcases List.mem_cons.mp h with rfl | h
  · exact hlinked
  · refine Attempt.forall_mem_trail
      (fun c _ g hg => ⟨fun g' hg' => absurd hg' List.not_mem_nil, ?_⟩) hlinked g h
    rcases complete_state rs c g with hsame | ⟨own, required, hamended⟩
    · rw [hsame]
      exact hg
    · rw [hamended]
      exact hg.amend c _

end Completion

/-! ## §3 All states -/

namespace Workflow

/-- The graphs that the stages of a reconciliation pass through. -/
def states (rs : RuleSet) (lister : Lister) (k : Catalog) : List Graph :=
  Synthesis.course rs lister (.ofCatalog k)
    ++ (Patch.course rs (drafted rs lister k)).map Patch.Progress.graph
    ++ Completion.course rs (Patch.run rs (drafted rs lister k)).state.graph

/-- In every state the merges are flat, and the graph has the artifacts of the catalog. -/
theorem flat_of_mem_states (h : g ∈ states rs lister k) :
    g.FlatMerges ∧ g.coordinates = k.coordinates := by
  have hlinkable : Patch.Linkable rs k (drafted rs lister k) := Synthesis.run_linkable rs lister k
  have hlinked : ∀ {g'}, Patch.Linked rs (drafted rs lister k) g' →
      g'.FlatMerges ∧ g'.coordinates = k.coordinates := fun h =>
    ⟨h.flat hlinkable.apart hlinkable.described, h.evolves.coordinates.trans hlinkable.coordinates⟩
  simp only [states, List.mem_append, List.mem_map] at h
  rcases h with (h | ⟨p, hp, rfl⟩) | h
  · obtain ⟨hnodes, hhosts⟩ := Synthesis.of_mem_course h
    refine ⟨.of_hosts_empty hhosts, ?_⟩
    rw [← Graph.coordinates_ofCatalog]
    exact Graph.coordinates_congr hnodes
  · exact hlinked (hlinkable.linked_of_mem_course hp)
  · -- The completion starts where the patch has ended.
    have hlast : (Patch.run rs (drafted rs lister k)).state ∈ Patch.course rs (drafted rs lister k) :=
      List.mem_of_getLast? (Patch.getLast?_course rs (drafted rs lister k))
    exact hlinked (Completion.linked_of_mem_course (hlinkable.linked_of_mem_course hlast) h)

end Workflow
end Reconcile
