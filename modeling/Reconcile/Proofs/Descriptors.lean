import Reconcile.Proofs.MergeLinks

/-!
# Descriptors after a patch

A descriptor that was built is changed on behalf of its own artifact only: the directives about
requirements, services and opened packages revise it in their order, and merges only add packages and
merged artifacts. The completion then adds requirements of modules that are not required yet. So what
the last directive about a module says stands to the end.

Layers:
1. Requirements by name
2. Descriptors under a row of directives
3. The structural phase
4. The completion
-/

namespace Reconcile

/-! ## §1 Requirements by name -/

namespace Descriptor

variable {d : Descriptor} {n m : Str} {q : Qualifier}

theorem findRequirement?_eq (d : Descriptor) (n : Str) :
    d.findRequirement? n = d.requires.find? fun r => r.name = n := by
  unfold findRequirement?
  simp only [Bool.beq_eq_decide_eq]

theorem isSome_findRequirement? : (d.findRequirement? n).isSome = true ↔ n ∈ d.requiredNames := by
  rw [findRequirement?_eq, List.find?_isSome]
  simp only [decide_eq_true_eq, requiredNames, List.mem_map]

theorem find?_requalify (rs : List Requirement) (hrequired : (rs.find? fun r => r.name = n).isSome) :
    (requalify n q rs).find? (fun r => r.name = m) =
      if n = m then some ⟨n, q⟩ else rs.find? fun r => r.name = m := by
  induction rs with
  | nil => cases hrequired
  | cons r rs ih =>
    unfold requalify
    by_cases hr : r.name = n
    · -- The requirement is at the head, and it is the only one that is exchanged.
      subst hr
      by_cases hm : r.name = m
      · simp only [if_true, hm, List.find?_cons, decide_true]
      · simp only [if_true, hm, List.find?_cons, decide_false, if_false]
    · simp only [List.find?_cons, hr, decide_false] at hrequired
      simp only [hr, if_false, List.find?_cons]
      by_cases hm : r.name = m
      · have hne : n ≠ m := fun heq => hr (hm.trans heq.symm)
        simp only [hm, decide_true, if_neg hne]
      · simp only [hm, decide_false]
        exact ih hrequired

/-- A requirement that is added is the first one of its module; one that is there gives way only where
it is to be replaced. -/
theorem findRequirement?_addRequires (d : Descriptor) (n : Str) (q : Qualifier) (replace : Bool)
    (m : Str) :
    (d.addRequires n q replace).findRequirement? m =
      if n = m then some (if replace then ⟨n, q⟩ else (d.findRequirement? n).getD ⟨n, q⟩)
      else d.findRequirement? m := by
  unfold addRequires
  cases hfound : d.findRequirement? n with
  | some r =>
    have hrequired := hfound
    rw [findRequirement?_eq] at hrequired
    cases replace with
    | true =>
      -- It takes the place of the one that is there.
      simp only [Option.isSome_some, if_true, findRequirement?_eq]
      exact find?_requalify d.requires (by rw [hrequired]; rfl)
    | false =>
      simp only [Option.isSome_some, if_true, Bool.false_eq_true, if_false, Option.getD_some]
      split
      · next heq => rw [← heq, hfound]
      · rfl
  | none =>
    -- It is put at the end and sorted in, which brings no later one of a name before an earlier one.
    rw [findRequirement?_eq] at hfound
    simp only [Option.isSome_none, Bool.false_eq_true, if_false, findRequirement?_eq,
      Ordered.find?_sortBy, List.find?_append, Option.getD_none, ite_self]
    split
    · next heq =>
      subst heq
      simp only [hfound, List.find?_cons, decide_true, Option.none_or]
    · next hne =>
      simp only [List.find?_cons, hne, decide_false, List.find?_nil, Option.or_none]

end Descriptor

/-! ## §2 Rows of directives -/

/-- What is read of a state after a row of changes is what the last change that tells something says. -/
theorem read_foldl_last {σ α β γ : Type} (read : σ → Option γ) {change : σ → α → σ}
    {told : α → Option β} {mk : β → γ} {xs : List α}
    (hstep : ∀ x ∈ xs, ∀ s, read (change s x) = ((told x).map mk).or (read s)) (s : σ) :
    read (xs.foldl change s) = ((xs.filterMap told).getLast?.map mk).or (read s) := by
  induction xs generalizing s with
  | nil => rfl
  | cons x xs ih =>
    have hrest := ih (fun y hy => hstep y (List.mem_cons_of_mem x hy)) (change s x)
    rw [List.foldl_cons, hrest, hstep x List.mem_cons_self, List.filterMap_cons, ← Option.or_assoc]
    -- If a later change tells something too, it has the last word.
    cases hx : told x with
    | none => simp only [Option.map_none, Option.or_none]
    | some y =>
      rw [List.getLast?_cons]
      cases (xs.filterMap told).getLast? <;> rfl

/-- What no change undoes holds after a row of changes exactly if it did before or one of them brings it
about. -/
theorem holds_foldl_iff {σ α : Type} {P : σ → Prop} {Q : α → Prop} {change : σ → α → σ}
    (hstep : ∀ s x, P (change s x) ↔ P s ∨ Q x) (s : σ) (xs : List α) :
    P (xs.foldl change s) ↔ P s ∨ ∃ x ∈ xs, Q x := by
  induction xs generalizing s with
  | nil => simp
  | cons x xs ih => rw [List.foldl_cons, ih, hstep, List.exists_mem_cons_iff, or_assoc]

/-- A row in which some directive tells something has a last one that does. -/
theorem exists_getLast?_filterMap {α : Type} {ds : List Directive} {f : Directive → Option α}
    {d : Directive} {x : α} (hd : d ∈ ds) (hx : f d = some x) :
    ∃ last, (ds.filterMap f).getLast? = some last :=
  Option.isSome_iff_exists.mp
    (List.getLast?_isSome.mpr (List.ne_nil_of_mem (List.mem_filterMap.mpr ⟨d, hd, hx⟩)))

/-- The qualifier that a directive asks for where it requires a module. -/
def Directive.qualifierFor? (n : Str) : Directive → Option Qualifier
  | .requires name qualifier => if name = n then some qualifier else none
  | _ => none

namespace Descriptor

/-- What a directive makes of its artifact's descriptor, merges apart. -/
def revised (d : Descriptor) : Directive → Descriptor
  | .requires name qualifier => d.addRequires name qualifier true
  | .uses service => d.addUses service
  | .opensPackage package => d.addOpens [package]
  | _ => d

variable {d : Descriptor} {ds : List Directive}

theorem addRequires_frame (d : Descriptor) (n : Str) (q : Qualifier) (replace : Bool) :
    (d.addRequires n q replace).name = d.name ∧ (d.addRequires n q replace).opens = d.opens ∧
      (d.addRequires n q replace).uses = d.uses := by
  rw [addRequires_eq]
  exact ⟨rfl, rfl, rfl⟩

theorem name_revised (d : Descriptor) (dir : Directive) : (d.revised dir).name = d.name := by
  cases dir with
  | requires n q => exact (addRequires_frame d n q true).1
  | _ => rfl

theorem mem_uses_revised {dir : Directive} {service : Str} :
    service ∈ (d.revised dir).uses ↔ service ∈ d.uses ∨ dir = .uses service := by
  cases dir with
  | requires n q => simp [revised, (addRequires_frame d n q true).2.2]
  | uses s => simp [revised, addUses, eq_comm]
  | _ => simp [revised, addOpens]

theorem mem_opens_revised {dir : Directive} {package : Str} :
    package ∈ (d.revised dir).opens ↔ package ∈ d.opens ∨ dir = .opensPackage package := by
  cases dir with
  | requires n q => simp [revised, (addRequires_frame d n q true).2.1]
  | opensPackage p => simp [revised, addOpens, eq_comm]
  | _ => simp [revised, addUses]

theorem findRequirement?_revised (d : Descriptor) (dir : Directive) (n : Str) :
    (d.revised dir).findRequirement? n =
      ((dir.qualifierFor? n).map fun q => ⟨n, q⟩).or (d.findRequirement? n) := by
  cases dir with
  | requires name q =>
    simp only [revised, findRequirement?_addRequires, Directive.qualifierFor?, if_true]
    split
    · next heq =>
      subst heq
      rfl
    · rfl
  | _ => rfl

/-- The services that a row of directives leaves are those that were there and those that it uses. -/
theorem mem_uses_foldl {service : Str} :
    service ∈ (ds.foldl revised d).uses ↔ service ∈ d.uses ∨ .uses service ∈ ds := by
  have hstep := fun d dir => @mem_uses_revised d dir service
  simpa only [exists_eq_right] using holds_foldl_iff (P := fun d => service ∈ d.uses) hstep d ds

theorem mem_opens_foldl {package : Str} :
    package ∈ (ds.foldl revised d).opens ↔ package ∈ d.opens ∨ .opensPackage package ∈ ds := by
  have hstep := fun d dir => @mem_opens_revised d dir package
  simpa only [exists_eq_right] using holds_foldl_iff (P := fun d => package ∈ d.opens) hstep d ds

theorem name_foldl (d : Descriptor) (ds : List Directive) : (ds.foldl revised d).name = d.name := by
  induction ds generalizing d with
  | nil => rfl
  | cons dir ds ih => rw [List.foldl_cons, ih, name_revised]

/-- After a row of directives the first requirement of a module is what the last directive about it
says. -/
theorem findRequirement?_foldl (d : Descriptor) (ds : List Directive) (n : Str) :
    (ds.foldl revised d).findRequirement? n =
      ((ds.filterMap (Directive.qualifierFor? n)).getLast?.map fun q => ⟨n, q⟩).or
        (d.findRequirement? n) :=
  read_foldl_last (findRequirement? · n) (fun dir _ d => findRequirement?_revised d dir n) d

/-! ## §3 The structural phase -/

/-- A descriptor without what merges add to it. -/
def declared (d : Descriptor) : Descriptor := { d with exports := [], mergedJars := [] }

theorem declared_addMergedJar (d : Descriptor) (packages : List Str) (s : Coordinate) :
    ((d.addExports packages).addMergedJar s).declared = d.declared := by
  rw [addMergedJar_eq]
  rfl

theorem declared_addRequires (d : Descriptor) (n : Str) (q : Qualifier) (replace : Bool) :
    (d.addRequires n q replace).declared = d.declared.addRequires n q replace := by
  have hfound : d.declared.findRequirement? n = d.findRequirement? n := rfl
  unfold addRequires
  rw [hfound]
  split
  · split <;> rfl
  · rfl

end Descriptor

namespace Patch

variable {rs : RuleSet} {k : Catalog} {c c' : Coordinate} {cs : List Coordinate} {g₀ g : Graph}
  {d : Descriptor}

/-- A directive changes no descriptor but its artifact's. -/
theorem synthesized_effect_of_ne (h : c' ≠ c) (dir : Directive) :
    (effect rs c g dir).synthesized.get? c' = g.synthesized.get? c' := by
  have hspec := effect_spec rs c g dir
  generalize effect rs c g dir = g' at hspec ⊢
  cases hspec with
  | idle | removal | addition => rfl
  | amendment dir change => rw [Graph.get?_amend, if_neg (Ne.symm h)]
  | merge w s => rw [synthesized_merged, if_neg (Ne.symm h)]

/-- A directive revises its artifact's descriptor, and a merge adds to it only what is not declared. -/
theorem synthesized_effect (rs : RuleSet) (hd : g.synthesized.get? c = some d) (dir : Directive) :
    ∃ d', (effect rs c g dir).synthesized.get? c = some d' ∧
      d'.declared = d.declared.revised dir := by
  have hamended : ∀ change, (g.amend c change).synthesized.get? c = some (change d) := by
    intro change
    rw [Graph.get?_amend, if_pos rfl, hd]
    rfl
  cases dir with
  | requires n q => exact ⟨_, hamended _, Descriptor.declared_addRequires d n q true⟩
  | uses service => exact ⟨_, hamended _, rfl⟩
  | opensPackage package => exact ⟨_, hamended _, rfl⟩
  | addDependency w scope =>
    -- Edges change, descriptors do not.
    have hframe : (effect rs c g (.addDependency w scope)).synthesized = g.synthesized :=
      (effect_frame Phase.noConfusion).2
    exact ⟨d, by rw [hframe, hd], rfl⟩
  | mergeJar w =>
    simp only [effect]
    split
    · exact ⟨d, hd, rfl⟩
    · next s hs =>
      split
      · -- Only packages and the name of the source are added, which `declared` leaves out.
        refine ⟨(d.addExports (g.exportsOf s)).addMergedJar s, ?_, ?_⟩
        · rw [synthesized_merged, if_pos rfl, hd]
          rfl
        · exact d.declared_addMergedJar (g.exportsOf s) s
      · exact ⟨d, hd, rfl⟩
  | _ => exact ⟨d, hd, rfl⟩

/-- The directives for an artifact one after the other revise its descriptor in their order. -/
theorem synthesized_effects (rs : RuleSet) (hd : g.synthesized.get? c = some d) (ds : List Directive) :
    ∃ d', (ds.foldl (effect rs c) g).synthesized.get? c = some d' ∧
      d'.declared = ds.foldl Descriptor.revised d.declared := by
  induction ds generalizing g d with
  | nil => exact ⟨d, hd, rfl⟩
  | cons dir ds ih =>
    obtain ⟨d₁, hd₁, hdeclared⟩ := synthesized_effect rs hd dir
    rw [List.foldl_cons, List.foldl_cons, ← hdeclared]
    exact ih hd₁

theorem synthesized_visited_of_ne (h : c' ≠ c) (phase : Phase) :
    (visited rs phase g c).synthesized.get? c' = g.synthesized.get? c' :=
  visited_keeps (P := fun g' => g'.synthesized.get? c' = g.synthesized.get? c')
    (fun dir _ _ hg' => (synthesized_effect_of_ne h dir).trans hg') rfl

theorem synthesized_passed_of_not_mem (h : c ∉ cs) (phase : Phase) :
    (passed rs cs g phase).synthesized.get? c = g.synthesized.get? c :=
  List.foldlRecOn (motive := fun g' : Graph => g'.synthesized.get? c = g.synthesized.get? c) _ _ rfl
    fun _ hg' _ hx => (synthesized_visited_of_ne (ne_of_mem_of_not_mem hx h).symm phase).trans hg'

/-- In the structural phase the descriptor of an artifact is revised by its own directives. -/
theorem synthesized_passed (h : Merging rs g₀ g) (hapart : Apart rs g₀) (hnodup : cs.Nodup)
    (hc : c ∈ cs) (hd : g.synthesized.get? c = some d) :
    ∃ d', (passed rs cs g .structural).synthesized.get? c = some d' ∧
      d'.declared = (rs.directivesIn .structural c).foldl Descriptor.revised d.declared := by
  induction cs generalizing g with
  | nil => cases hc
  | cons x cs ih =>
    obtain ⟨hnew, hnodup⟩ := List.nodup_cons.mp hnodup
    have hcons : passed rs (x :: cs) g .structural =
        passed rs cs (visited rs .structural g x) .structural := rfl
    rw [hcons]
    rcases List.mem_cons.mp hc with rfl | hc
    · -- What is described is never merged, so it is not passed over, and none comes to it again.
      have hfree : g.host? c = none := h.linked.host?_of_isSome hapart (by rw [hd]; rfl)
      rw [synthesized_passed_of_not_mem hnew, visited_of_host?_eq_none hfree]
      exact synthesized_effects rs hd _
    · -- Another artifact's turn leaves this one's descriptor alone.
      have hne : c ≠ x := fun heq => hnew (heq ▸ hc)
      exact ih (h.visited hapart .structural x) hnodup hc
        ((synthesized_visited_of_ne hne .structural).trans hd)

/-- After a patch the descriptor of an artifact declares what its structural directives make of what it
declared before. -/
theorem Linkable.declared_patched (h : Linkable rs k g₀) (hd : g₀.synthesized.get? c = some d) :
    ∃ d', (patched rs g₀).synthesized.get? c = some d' ∧
      d'.declared = (rs.directivesIn .structural c).foldl Descriptor.revised d.declared := by
  -- The phases of the edges come first and leave the descriptors as they are.
  obtain ⟨hmerging, -, hsynthesized⟩ := rewired_merging rs h.nodup h.hosts
  have hc : c ∈ g₀.coordinates := h.described c (by rw [hd]; rfl)
  rw [patched_eq]
  exact synthesized_passed hmerging h.apart h.nodup hc (by rw [hsynthesized, hd])

end Patch

/-! ## §4 The completion -/

/-- A descriptor with requirements added of modules that it did not require. -/
structure Descriptor.Completes (d d' : Descriptor) : Prop where
  name : d'.name = d.name
  opens : d'.opens = d.opens
  uses : d'.uses = d.uses
  required : ∀ n r, d.findRequirement? n = some r → d'.findRequirement? n = some r

namespace Descriptor.Completes

variable {d d' d'' : Descriptor}

theorem refl (d : Descriptor) : d.Completes d := ⟨rfl, rfl, rfl, fun _ _ => id⟩

theorem trans (h : d.Completes d') (h' : d'.Completes d'') : d.Completes d'' where
  name := h'.name.trans h.name
  opens := h'.opens.trans h.opens
  uses := h'.uses.trans h.uses
  required n r hr := h'.required n r (h.required n r hr)

theorem addRequires (d : Descriptor) (n : Str) (q : Qualifier) :
    d.Completes (d.addRequires n q false) := by
  obtain ⟨hname, hopens, huses⟩ := addRequires_frame d n q false
  refine ⟨hname, hopens, huses, fun m r hr => ?_⟩
  rw [findRequirement?_addRequires]
  split
  · next heq =>
    subst heq
    rw [hr]
    rfl
  · exact hr

theorem require (own : Str) (required : List Requirement) (d : Descriptor) :
    d.Completes (Completion.require own required d) := by
  unfold Completion.require
  refine List.foldlRecOn (motive := d.Completes) _ _ (refl d) fun d' hd' r _ => ?_
  split
  · exact hd'
  · exact hd'.trans (addRequires d' r.name r.qualifier)

end Descriptor.Completes

namespace Completion

variable {rs : RuleSet} {g : Graph} {c : Coordinate}

/-- Completed or stopped half-way, an artifact's descriptor has gained requirements and nothing else
has changed. -/
theorem complete_state (rs : RuleSet) (c : Coordinate) (g : Graph) :
    (complete rs c g).state = g ∨
      ∃ own required, (complete rs c g).state = g.amend c (require own required) := by
  unfold complete
  split
  · split
    · exact .inl rfl
    · next own _ => exact .inr ⟨own, _, rfl⟩
  · exact .inl rfl

/-- The completion adds requirements to descriptors, and the artifacts and merges stay as they are. -/
theorem run_completes (rs : RuleSet) (g : Graph) :
    (run rs g).state.nodes = g.nodes ∧ (run rs g).state.hosts = g.hosts ∧
      ∀ c d, g.synthesized.get? c = some d →
        ∃ d', (run rs g).state.synthesized.get? c = some d' ∧ d.Completes d' := by
  refine Attempt.each_keeps (P := fun g' : Graph => g'.nodes = g.nodes ∧ g'.hosts = g.hosts ∧
    ∀ c d, g.synthesized.get? c = some d →
      ∃ d', g'.synthesized.get? c = some d' ∧ d.Completes d')
    (fun x _ g' hg' => ?_) ⟨rfl, rfl, fun c d hd => ⟨d, hd, .refl d⟩⟩
  obtain ⟨hnodes, hhosts, hcompletes⟩ := hg'
  rcases complete_state rs x g' with hsame | ⟨own, required, hamended⟩
  · rw [hsame]
    exact ⟨hnodes, hhosts, hcompletes⟩
  · rw [hamended, Graph.nodes_amend, Graph.hosts_amend]
    refine ⟨hnodes, hhosts, fun c d hd => ?_⟩
    obtain ⟨d', hd', hcompleted⟩ := hcompletes c d hd
    rw [Graph.get?_amend]
    -- One artifact is completed, the others keep what they have gained before.
    split
    · next heq =>
      subst heq
      rw [hd']
      exact ⟨_, rfl, hcompleted.trans (.require own required d')⟩
    · exact ⟨d', hd', hcompleted⟩

end Completion
end Reconcile
