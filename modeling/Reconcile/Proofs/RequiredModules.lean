import Reconcile.Proofs.MergeLinks
import Reconcile.Proofs.Requirements

/-!
# Required modules

The completion of a patched graph adds to a descriptor one requirement for each module that an edge of
its artifact leads to, but for the module itself and for those that are required. Names of modules depend
on no requirement, so it does not matter in which order the artifacts come, and what is complete stays as
it is.

Of several edges to one module the first counts, so the requirement is as strong as the edges ask for
exactly if no later one is stronger.

Layers:
1. The requirements that a descriptor lacks
2. Completions in any order, and repeated
3. Names over flat merges
4. Descriptors of a patched graph
5. Scopes and the requirements that serve them
-/

namespace Reconcile

namespace Completion

variable {own n : Str} {names : List Str} {required : List Requirement} {d : Descriptor}

/-! ## §1 Missing requirements -/

/-- Of each module the first requirement, but for the module itself and for some modules that are
required. -/
def missing (own : Str) (names : List Str) : List Requirement → List Requirement
  | [] => []
  | r :: rest =>
    if r.name = own ∨ r.name ∈ names then missing own names rest
    else r :: missing own (r.name :: names) rest

/-- Only which names there are matters, not their order. -/
theorem missing_congr {names' : List Str} (h : ∀ n, n ∈ names ↔ n ∈ names') :
    missing own names required = missing own names' required := by
  induction required generalizing names names' with
  | nil => rfl
  | cons r rest ih =>
    simp only [missing, h]
    split
    · exact ih h
    · refine congrArg (r :: ·) (ih fun n => ?_)
      rw [List.mem_cons, List.mem_cons, h]

/-- Completed, a descriptor has the requirements that it had, and those that it lacked. -/
theorem requires_require_perm (own : Str) (required : List Requirement) (d : Descriptor) :
    (require own required d).requires.Perm
      (d.requires ++ missing own d.requiredNames required) := by
  induction required generalizing d with
  | nil =>
    rw [missing, List.append_nil]
    rfl
  | cons r rest ih =>
    rw [require_cons, missing]
    by_cases hown : r.name = own
    · rw [if_pos hown, if_pos (.inl hown)]
      exact ih d
    by_cases hmem : r.name ∈ d.requiredNames
    · rw [if_neg hown, if_pos (.inr hmem), Descriptor.addRequires_of_mem hmem]
      exact ih d
    · rw [if_neg hown, if_neg (not_or.mpr ⟨hown, hmem⟩)]
      -- From here on the new requirement is one that the descriptor had.
      have hnames : missing own (d.addRequires r.name r.qualifier false).requiredNames rest =
          missing own (r.name :: d.requiredNames) rest :=
        missing_congr fun n => by rw [Descriptor.mem_requiredNames_addRequires, List.mem_cons]
      have hadded : (d.addRequires r.name r.qualifier false).requires.Perm (d.requires ++ [r]) := by
        rw [Descriptor.requires_addRequires_of_not_mem hmem]
        exact Ordered.sortBy_perm _
      refine (ih (d.addRequires r.name r.qualifier false)).trans ?_
      rw [hnames]
      refine (hadded.append_right _).trans ?_
      rw [List.append_assoc]
      rfl

/-- What is missing of one module is its first requirement. -/
theorem filter_missing (n : Str) :
    (missing own names required).filter (fun r => r.name = n) =
      if n = own ∨ n ∈ names then [] else (required.find? fun r => r.name = n).toList := by
  induction required generalizing names with
  | nil => simp [missing]
  | cons r rest ih =>
    rw [missing, List.find?_cons]
    by_cases hskip : r.name = own ∨ r.name ∈ names
    · rw [if_pos hskip, ih]
      by_cases hn : r.name = n
      · rw [← hn, if_pos hskip, if_pos hskip]
      · simp only [hn, decide_false]
    · rw [if_neg hskip, List.filter_cons, ih]
      by_cases hn : r.name = n
      · -- Nothing of the module is missing any more.
        subst hn
        simp [hskip]
      · simp [hn, Ne.symm hn]

theorem mem_names_missing :
    n ∈ (missing own names required).map Requirement.name ↔
      n ∈ required.map Requirement.name ∧ n ≠ own ∧ n ∉ names := by
  have hmem : ∀ xs : List Requirement,
      n ∈ xs.map Requirement.name ↔ xs.filter (fun r => r.name = n) ≠ [] := by
    intro xs
    simp only [List.mem_map, ne_eq, List.filter_eq_nil_iff, decide_eq_true_eq, not_forall, not_not,
      exists_prop]
  rw [hmem, filter_missing]
  by_cases hskip : n = own ∨ n ∈ names
  · rw [if_pos hskip]
    tauto
  · rw [if_neg hskip]
    simp only [ne_eq, Option.toList_eq_nil_iff, List.find?_eq_none, decide_eq_true_eq, not_forall,
      not_not, exists_prop, List.mem_map]
    tauto

/-- Of each module one requirement is missing at most. -/
theorem nodup_names_missing (own : Str) (names : List Str) (required : List Requirement) :
    ((missing own names required).map Requirement.name).Nodup := by
  rw [List.nodup_iff_count_le_one]
  intro n
  rw [← Ordered.length_filter_eq_count, filter_missing]
  split
  · exact Nat.zero_le 1
  · -- A search has one result at most.
    cases required.find? fun r => r.name = n <;> simp

theorem mem_of_mem_missing {r : Requirement} (h : r ∈ missing own names required) : r ∈ required := by
  have hfilter : r ∈ (missing own names required).filter fun r' => r'.name = r.name :=
    List.mem_filter.mpr ⟨h, decide_eq_true rfl⟩
  rw [filter_missing] at hfilter
  split at hfilter
  · cases hfilter
  · exact List.mem_of_find?_eq_some (Option.mem_toList.mp hfilter)

/-- A module that was not required is required as the first edge to it asks. -/
theorem filter_requires_require (required : List Requirement) (hown : n ≠ own)
    (hnew : n ∉ d.requiredNames) :
    (require own required d).requires.filter (fun r => r.name = n) =
      (required.find? fun r => r.name = n).toList := by
  have hold : d.requires.filter (fun r => r.name = n) = [] := by
    rw [List.filter_eq_nil_iff]
    intro r hr
    rw [decide_eq_true_eq]
    exact fun hn => hnew (hn ▸ List.mem_map_of_mem hr)
  have hperm := (requires_require_perm own required d).filter fun r => r.name = n
  rw [List.filter_append, hold, List.nil_append, filter_missing,
    if_neg (not_or.mpr ⟨hown, hnew⟩)] at hperm
  cases hfind : required.find? fun r => r.name = n with
  | none =>
    rw [hfind] at hperm
    exact List.perm_nil.mp hperm
  | some r =>
    rw [hfind] at hperm
    exact List.perm_singleton.mp hperm

end Completion

/-- Where there is one requirement of a module, it is the one to ask. -/
theorem Descriptor.forall_requirement_iff {d : Descriptor} {n : Str} {q : Qualifier}
    (h : d.requires.filter (fun r => r.name = n) = [⟨n, q⟩]) {P : Requirement → Prop} :
    (∀ r ∈ d.requires, r.name = n → P r) ↔ P ⟨n, q⟩ := by
  have hforall : (∀ r ∈ d.requires.filter (fun r => r.name = n), P r) ↔ P ⟨n, q⟩ := by
    rw [h]
    exact List.forall_mem_singleton
  simpa only [List.mem_filter, decide_eq_true_eq, and_imp] using hforall

namespace Completion

/-! ## §2 Order and repetition -/

variable {rs : RuleSet} {f g : Graph} {c : Coordinate}

/-- The order in which the artifacts are completed does not matter. -/
theorem each_complete_perm (hflat : g.FlatMerges) (rs : RuleSet) {cs : List Coordinate}
    (h : cs.Perm g.coordinates) : Attempt.each (complete rs) cs g = run rs g := by
  unfold run
  rw [each_complete_eq hflat, each_complete_eq hflat, Graph.foldl_amend_perm _ h]

/-- A descriptor that was completed lacks nothing. -/
theorem completed_completed (rs : RuleSet) (g : Graph) (c : Coordinate) (d : Descriptor) :
    completed rs g c (completed rs g c d) = completed rs g c d := by
  unfold completed
  split
  · refine require_eq_self_iff.mpr fun r hr => ?_
    rw [mem_requiredNames_require]
    by_cases hown : r.name = g.ownName (g.home c)
    · exact .inl hown
    · exact .inr (.inr ⟨hown, List.mem_map_of_mem hr⟩)
  · rfl

/-- A second completion changes nothing. -/
theorem run_run (hflat : g.FlatMerges) (hnodup : g.coordinates.Nodup) (rs : RuleSet) :
    run rs (run rs g).state = .done (run rs g).state := by
  -- The names are still what they were, so the second completion asks for the same requirements.
  obtain ⟨halike, hnames⟩ := named_run hflat rs
  refine (each_complete_eq (halike.flat hflat) rs _).trans (congrArg Attempt.done ?_)
  rw [halike.coordinates, Graph.foldl_amend_eq_self_iff _ hnodup]
  intro c hc d hd
  rw [get?_run hflat hnodup rs hc] at hd
  obtain ⟨d₀, -, rfl⟩ := Option.map_eq_some_iff.mp hd
  rw [completed_named ⟨halike, hnames⟩]
  exact completed_completed rs g c d₀

end Completion

/-! ## §3 Names -/

namespace Graph

variable {g : Graph} {t host : Coordinate}

/-- A merged artifact belongs to the module of its host. -/
theorem FlatMerges.moduleName_of_host (h : g.FlatMerges) (ht : t ∈ g.coordinates)
    (hhost : g.host? t = some host) : g.moduleName t = g.moduleName host := by
  have hhome : g.home t = host := by
    unfold home
    rw [if_pos (contains_iff.mpr ht), hhost, Option.getD_some]
  rw [h.moduleName_eq, h.moduleName_eq, hhome, home_of_host? (h t host hhost).2]

/-- What the graph has no artifact of has the name that its coordinate gives. -/
theorem FlatMerges.moduleName_of_not_mem (h : g.FlatMerges) (ht : t ∉ g.coordinates) :
    g.moduleName t = .ok (Naming.moduleName t.group t.name none) := by
  have habsent : g.contains t = false := Bool.eq_false_iff.mpr (mt contains_iff.mp ht)
  have hhome : g.home t = t := by
    unfold home
    rw [habsent]
    rfl
  have hnone : g.artifact? t = none := by simpa [contains] using habsent
  have hname : g.ownName t = Naming.moduleName t.group t.name none := by
    unfold ownName
    rw [hnone]
  rw [h.moduleName_eq, hhome, hname]

/-- The edges of an artifact to a module. -/
def edgesTo (g : Graph) (c : Coordinate) (n : Str) : List Edge :=
  (g.edgesOf c).filter fun e => g.moduleName e.target = .ok n

theorem mem_edgesTo {c : Coordinate} {n : Str} {e : Edge} :
    e ∈ g.edgesTo c n ↔ e ∈ g.edgesOf c ∧ g.moduleName e.target = .ok n := by
  unfold edgesTo
  rw [List.mem_filter, decide_eq_true_eq]

end Graph

namespace Completion

variable {rs : RuleSet} {f g : Graph} {c : Coordinate} {n : Str} {d : Descriptor}

theorem Named.moduleName (h : Named f g) (hflat : f.FlatMerges) (t : Coordinate) :
    g.moduleName t = f.moduleName t := by
  rw [(h.1.flat hflat).moduleName_eq, hflat.moduleName_eq, h.2, h.1.home]

/-- A completion goes by the first edge to a module. -/
theorem find?_required (hflat : g.FlatMerges) (c : Coordinate) (n : Str) :
    (required g c).find? (fun r => r.name = n) =
      (g.edgesTo c n).head?.map fun e => ⟨n, e.scope.qualifier⟩ := by
  -- Behind flat merges stands a name, so no question for one fails.
  have hleads : ∀ e : Edge, (g.moduleName e.target = .ok n) = (g.ownName (g.home e.target) = n) := by
    intro e
    rw [hflat.moduleName_eq, Except.ok.injEq]
  unfold required Graph.edgesTo
  rw [List.find?_map, List.head?_filter]
  simp only [hleads, Function.comp_def]
  cases hfind : (g.edgesOf c).find? fun e => decide (g.ownName (g.home e.target) = n) with
  | none => rfl
  | some e =>
    have hname : g.ownName (g.home e.target) = n := by simpa using List.find?_some hfind
    rw [Option.map_some, Option.map_some, hname]

/-! ## §4 Descriptors -/

/-- Requirements are completed where a descriptor was built, for an artifact that is not merged and whose
rules ask for all dependencies. -/
theorem applies_iff (hd : g.synthesized.get? c = some d) : applies rs g c = true ↔
    g.host? c = none ∧ .requireAllDefinedDependencies ∈ rs.directivesFor c := by
  unfold applies Graph.isMerged
  rw [hd]
  simp

/-- What a completion may make of a descriptor: it keeps all that it has and gains a requirement for each
module that an edge leads to, but for its own and those that it requires; and what it gains has the
qualifier of one of the edges to the module. -/
structure Gains (g : Graph) (c : Coordinate) (d d' : Descriptor) : Prop where
  rest : d' = { d with requires := d'.requires }
  gained : ∃ added : List Requirement, d'.requires.Perm (d.requires ++ added) ∧
    (added.map Requirement.name).Nodup ∧
    (∀ n, n ∈ added.map Requirement.name ↔
      (∃ e, e ∈ g.edgesTo c n) ∧ g.moduleName c ≠ .ok n ∧ n ∉ d.requiredNames) ∧
    ∀ r ∈ added, ∃ e ∈ g.edgesTo c r.name, r.qualifier = e.scope.qualifier

theorem gains_require (hflat : g.FlatMerges) (c : Coordinate) (d : Descriptor) :
    Gains g c d (require (g.ownName (g.home c)) (required g c) d) := by
  refine ⟨require_eq _ _ d, missing (g.ownName (g.home c)) d.requiredNames (required g c),
    requires_require_perm _ _ d, nodup_names_missing _ _ _, fun n => ?_, fun r hr => ?_⟩
  · -- The targets of the edges have the names of the requirements that stand for them.
    rw [mem_names_missing, hflat.moduleName_eq, ne_eq (Except.ok _), Except.ok.injEq]
    refine and_congr ?_ (and_congr_left' (not_congr eq_comm))
    simp only [Graph.mem_edgesTo, hflat.moduleName_eq, Except.ok.injEq, required, List.map_map,
      List.mem_map, Function.comp_apply]
  · obtain ⟨e, he, rfl⟩ := List.mem_map.mp (mem_of_mem_missing hr)
    exact ⟨e, Graph.mem_edgesTo.mpr ⟨he, hflat.moduleName_eq e.target⟩, rfl⟩

end Completion

namespace Workflow

open Completion (Gains)

variable {rs : RuleSet} {lister : Lister} {k : Catalog} {c : Coordinate} {d : Descriptor} {n : Str}

/-- The graph of a catalog after synthesis, patch and completion. -/
def completedGraph (rs : RuleSet) (lister : Lister) (k : Catalog) : Graph :=
  (Completion.run rs (patchedGraph rs lister k)).state

/-- Each descriptor of the patched graph is completed by what its own artifact's edges ask for. -/
theorem synthesized_completedGraph (hd : (patchedGraph rs lister k).synthesized.get? c = some d) :
    (completedGraph rs lister k).synthesized.get? c =
      some (Completion.completed rs (patchedGraph rs lister k) c d) := by
  -- Descriptors are built for artifacts of the catalog only.
  have hmem : c ∈ (patchedGraph rs lister k).coordinates := by
    have hevolves := patchedGraph_evolves rs lister k
    rw [hevolves.coordinates]
    exact (Synthesis.run_linkable rs lister k).described c (hevolves.described c ▸ hd ▸ rfl)
  have hget := Completion.get?_run (patchedGraph_settled rs lister k).flat
    (nodup_patchedGraph rs lister k) rs hmem
  rwa [hd] at hget

/-- What the completion of a patched graph does. Neither the patch nor the completion is stopped. Only
descriptors change, and of these only those that were built for artifacts that are not merged and whose
rules ask for all dependencies: each of them gains the requirements that the edges of its artifact stand
for. The names of modules, of hosts for what is merged and derived ones for what is not in the catalog,
are the same before and after. The artifacts may come in any order, and a second completion changes
nothing. -/
theorem required_modules_exact (rs : RuleSet) (lister : Lister) (k : Catalog) :
    (Patch.run rs (drafted rs lister k)).fault = none ∧
    (Completion.run rs (patchedGraph rs lister k)).fault = none ∧
    Graph.Alike (patchedGraph rs lister k) (completedGraph rs lister k) ∧
    (∀ t, (∃ name, (patchedGraph rs lister k).moduleName t = .ok name) ∧
      (completedGraph rs lister k).moduleName t = (patchedGraph rs lister k).moduleName t ∧
      (∀ host, (patchedGraph rs lister k).host? t = some host →
        (patchedGraph rs lister k).moduleName t = (patchedGraph rs lister k).moduleName host) ∧
      (t ∉ k.coordinates → (patchedGraph rs lister k).moduleName t =
        .ok (Naming.moduleName t.group t.name none))) ∧
    (∀ c d, (patchedGraph rs lister k).synthesized.get? c = some d →
      ∃ d', (completedGraph rs lister k).synthesized.get? c = some d' ∧
        if (patchedGraph rs lister k).host? c = none ∧
            .requireAllDefinedDependencies ∈ rs.directivesFor c
        then Gains (patchedGraph rs lister k) c d d' else d' = d) ∧
    (∀ cs, cs.Perm (patchedGraph rs lister k).coordinates →
      Attempt.each (Completion.complete rs) cs (patchedGraph rs lister k) =
        Completion.run rs (patchedGraph rs lister k)) ∧
    Completion.run rs (completedGraph rs lister k) = .done (completedGraph rs lister k) := by
  have hsettled := patchedGraph_settled rs lister k
  have hflat := hsettled.flat
  have hcoordinates := coordinates_patchedGraph rs lister k
  have hnamed : Completion.Named (patchedGraph rs lister k) (completedGraph rs lister k) :=
    Completion.named_run hflat rs
  have hfault : (Completion.run rs (patchedGraph rs lister k)).fault = none :=
    congrArg Attempt.fault (Completion.each_complete_eq hflat rs _)
  refine ⟨(patchedGraph_eq rs lister k).1, hfault, hnamed.1, fun t => ⟨?_, ?_, ?_, ?_⟩, ?_, ?_, ?_⟩
  · exact ⟨_, hflat.moduleName_eq t⟩
  · exact hnamed.moduleName hflat t
  · exact fun host hhost => hflat.moduleName_of_host (hsettled.sources t host hhost) hhost
  · exact fun ht => hflat.moduleName_of_not_mem (hcoordinates ▸ ht)
  · intro c d hd
    refine ⟨_, synthesized_completedGraph hd, ?_⟩
    unfold Completion.completed
    simp only [Completion.applies_iff hd]
    split
    · exact Completion.gains_require hflat c d
    · rfl
  -- Each artifact's change is to its own descriptor and by names that stay.
  · exact fun cs hcs => Completion.each_complete_perm hflat rs hcs
  · exact Completion.run_run hflat (nodup_patchedGraph rs lister k) rs

/-- A module with parts, an artifact that depends on two of the parts, each in its own scope, and a
library that it requires by name. -/
def suiteRules : RuleSet where
  rules :=
    [{ target := ⟨"q:app", ⟨"q", "app", none⟩, rfl⟩
       directives := [.requireAllDefinedDependencies, .requires "q.lib" .transitive] },
     { target := ⟨"q:suite", ⟨"q", "suite", none⟩, rfl⟩
       directives :=
         [.mergeJar ⟨"q:core", ⟨"q", "core", none⟩, rfl⟩,
          .mergeJar ⟨"q:tool", ⟨"q", "tool", none⟩, rfl⟩] }]

/-- The artifacts that `suiteRules` are about, with the scopes of the dependencies on the parts. -/
def suiteCatalog (core tool : Scope) : Catalog where
  artifacts :=
    [{ coordinate := ⟨"q", "app", "1"⟩
       edges := [⟨⟨"q", "core", "1"⟩, core⟩, ⟨⟨"q", "tool", "1"⟩, tool⟩, ⟨⟨"q", "lib", "1"⟩, .runtime⟩] },
     { coordinate := ⟨"q", "core", "1"⟩ },
     { coordinate := ⟨"q", "lib", "1"⟩ },
     { coordinate := ⟨"q", "suite", "1"⟩ },
     { coordinate := ⟨"q", "tool", "1"⟩ }]
  unique := by
    show [(⟨"q", "app", "1"⟩ : Coordinate), ⟨"q", "core", "1"⟩, ⟨"q", "lib", "1"⟩, ⟨"q", "suite", "1"⟩,
      ⟨"q", "tool", "1"⟩].Nodup
    decide

/-- The module with the parts is required once, and the library as the rules say. -/
theorem suite_required_once :
    ∃ d', (completedGraph suiteRules nameLister (suiteCatalog .api .compileOnly)).synthesized.get?
        ⟨"q", "app", "1"⟩ = some d' ∧
      Gains (patchedGraph suiteRules nameLister (suiteCatalog .api .compileOnly)) ⟨"q", "app", "1"⟩
        { name := "q.app", requires := [⟨"q.lib", .transitive⟩] } d' ∧
      d'.requires = [⟨"q.lib", .transitive⟩, ⟨"q.suite", .transitive⟩] := by
  obtain ⟨-, -, -, -, hcompleted, -⟩ :=
    required_modules_exact suiteRules nameLister (suiteCatalog .api .compileOnly)
  obtain ⟨d', hd', hgains⟩ := hcompleted ⟨"q", "app", "1"⟩
    { name := "q.app", requires := [⟨"q.lib", .transitive⟩] } (by decide +kernel)
  rw [if_pos (by decide +kernel)] at hgains
  refine ⟨d', hd', hgains, ?_⟩
  have hrequires : ((completedGraph suiteRules nameLister
      (suiteCatalog .api .compileOnly)).synthesized.get? ⟨"q", "app", "1"⟩).map Descriptor.requires =
        some [⟨"q.lib", .transitive⟩, ⟨"q.suite", .transitive⟩] := by decide +kernel
  rw [hd'] at hrequires
  exact Option.some.inj hrequires

end Workflow

/-! ## §5 Scopes -/

/-- How much is asked of a dependency: to be there for compilation, at run time as well, or for the users
of the module too. -/
def Scope.strength : Scope → Nat
  | .compileOnly => 0
  | .implementation => 1
  | .runtime => 1
  | .api => 2

/-- A requirement with a qualifier is enough for a dependency of a scope: one that the users of the module
need is passed on, and one that is needed at run time is there at run time. -/
def Qualifier.Serves (q : Qualifier) (s : Scope) : Prop :=
  (s = .api → q = .transitive) ∧ (s ≠ .compileOnly → q ≠ .static)

instance (q : Qualifier) (s : Scope) : Decidable (q.Serves s) :=
  inferInstanceAs (Decidable ((s = .api → q = .transitive) ∧ (s ≠ .compileOnly → q ≠ .static)))

/-- The requirement for a dependency is enough for those that are not stronger. -/
theorem Scope.serves_iff (s s' : Scope) : s.qualifier.Serves s' ↔ s'.strength ≤ s.strength := by
  cases s <;> cases s' <;> decide

namespace Workflow

variable {rs : RuleSet} {lister : Lister} {k : Catalog} {c : Coordinate} {d : Descriptor} {n : Str}

/-- A module that the edges of an artifact lead to, and that was not required before, is required as the
first of these edges asks. That is enough for all of them exactly if none further on is stronger. -/
theorem scopes_served_iff {first : Edge} {rest : List Edge}
    (hd : (patchedGraph rs lister k).synthesized.get? c = some d)
    (hhost : (patchedGraph rs lister k).host? c = none)
    (hall : .requireAllDefinedDependencies ∈ rs.directivesFor c)
    (hown : (patchedGraph rs lister k).moduleName c ≠ .ok n) (hnew : n ∉ d.requiredNames)
    (hedges : (patchedGraph rs lister k).edgesTo c n = first :: rest) :
    ∃ d', (completedGraph rs lister k).synthesized.get? c = some d' ∧
      d'.requires.filter (fun r => r.name = n) = [⟨n, first.scope.qualifier⟩] ∧
      ((∀ r ∈ d'.requires, r.name = n →
          ∀ e ∈ (patchedGraph rs lister k).edgesTo c n, r.qualifier.Serves e.scope) ↔
        ∀ e ∈ rest, e.scope.strength ≤ first.scope.strength) := by
  have hflat := (patchedGraph_settled rs lister k).flat
  have hcompleted := synthesized_completedGraph hd
  unfold Completion.completed at hcompleted
  rw [if_pos ((Completion.applies_iff hd).mpr ⟨hhost, hall⟩)] at hcompleted
  refine ⟨_, hcompleted, ?_⟩
  rw [hflat.moduleName_eq, ne_eq, Except.ok.injEq] at hown
  -- What the first edge asks for is added, and the later ones find it there.
  have hfilter := Completion.filter_requires_require
    (Completion.required (patchedGraph rs lister k) c) (Ne.symm hown) hnew
  rw [Completion.find?_required hflat, hedges] at hfilter
  refine ⟨hfilter, ?_⟩
  -- There is one requirement of the module, so its qualifier is the one to look at.
  rw [Descriptor.forall_requirement_iff hfilter, hedges, List.forall_mem_cons]
  simp only [Scope.serves_iff, le_refl, true_and]

/-- The first of two edges is the stronger one, so the requirement is enough for both. -/
theorem strong_edge_first :
    ∃ d', (completedGraph suiteRules nameLister (suiteCatalog .api .compileOnly)).synthesized.get?
        ⟨"q", "app", "1"⟩ = some d' ∧
      d'.requires.filter (fun r => r.name = ("q.suite" : Str)) = [⟨"q.suite", .transitive⟩] ∧
      ∀ r ∈ d'.requires, r.name = "q.suite" →
        ∀ e ∈ (patchedGraph suiteRules nameLister (suiteCatalog .api .compileOnly)).edgesTo
          ⟨"q", "app", "1"⟩ "q.suite", r.qualifier.Serves e.scope := by
  have hd : (patchedGraph suiteRules nameLister (suiteCatalog .api .compileOnly)).synthesized.get?
      ⟨"q", "app", "1"⟩ = some { name := "q.app", requires := [⟨"q.lib", .transitive⟩] } := by
    decide +kernel
  have hedges : (patchedGraph suiteRules nameLister (suiteCatalog .api .compileOnly)).edgesTo
      ⟨"q", "app", "1"⟩ "q.suite" =
        [⟨⟨"q", "core", "1"⟩, .api⟩, ⟨⟨"q", "tool", "1"⟩, .compileOnly⟩] := by
    decide +kernel
  obtain ⟨d', hd', hfilter, hserves⟩ := scopes_served_iff hd (by decide +kernel) (by decide +kernel)
    (by decide +kernel) (by decide) hedges
  exact ⟨d', hd', hfilter, hserves.mpr (by decide)⟩

/-- The first of two edges asks for compilation only, so a module is required for that alone which the
users of the artifact need as well. -/
theorem weak_edge_first :
    ∃ d d', (patchedGraph suiteRules nameLister (suiteCatalog .compileOnly .api)).synthesized.get?
        ⟨"q", "app", "1"⟩ = some d ∧
      (patchedGraph suiteRules nameLister (suiteCatalog .compileOnly .api)).host?
        ⟨"q", "app", "1"⟩ = none ∧
      .requireAllDefinedDependencies ∈ suiteRules.directivesFor ⟨"q", "app", "1"⟩ ∧
      (patchedGraph suiteRules nameLister (suiteCatalog .compileOnly .api)).moduleName
        ⟨"q", "app", "1"⟩ ≠ .ok "q.suite" ∧
      ("q.suite" : Str) ∉ d.requiredNames ∧
      ⟨⟨"q", "tool", "1"⟩, .api⟩ ∈ (patchedGraph suiteRules nameLister
        (suiteCatalog .compileOnly .api)).edgesTo ⟨"q", "app", "1"⟩ "q.suite" ∧
      (completedGraph suiteRules nameLister (suiteCatalog .compileOnly .api)).synthesized.get?
        ⟨"q", "app", "1"⟩ = some d' ∧
      d'.findRequirement? "q.suite" = some ⟨"q.suite", .static⟩ ∧
      ¬ Qualifier.static.Serves .api := by
  -- The edge to the core part comes first and is for compilation only.
  have hcompleted : ((completedGraph suiteRules nameLister
      (suiteCatalog .compileOnly .api)).synthesized.get? ⟨"q", "app", "1"⟩).bind
        (fun d => d.findRequirement? "q.suite") = some ⟨"q.suite", .static⟩ := by decide +kernel
  obtain ⟨d', hd', hrequirement⟩ := Option.bind_eq_some_iff.mp hcompleted
  exact ⟨{ name := "q.app", requires := [⟨"q.lib", .transitive⟩] }, d', by decide +kernel,
    by decide +kernel, by decide +kernel, by decide +kernel, by decide, by decide +kernel, hd',
    hrequirement, by decide⟩

end Workflow
end Reconcile
