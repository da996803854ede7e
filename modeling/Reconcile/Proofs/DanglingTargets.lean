import Reconcile.Proofs.Directives
import Reconcile.Proofs.ExactReport

/-!
# Dangling rule targets

A directive that refers to nothing in the catalog is told once for its rule, however many artifacts the
rule is about and however often it says so. No such directive goes untold, so where the patch passes over
one for want of its artifact, the reconciliation fails and the report names it.

Layers:
1. Directives that dangle
2. What the synthesis tells of them
3. What the patch leaves out
-/

namespace Reconcile

variable {rs : RuleSet} {lister : Lister} {k : Catalog} {c : Coordinate} {d : Directive}

/-! ## §1 Dangling directives -/

/-- A rule with a target is about an artifact of the catalog and has a directive that refers to none. -/
structure Synthesis.Dangles (rs : RuleSet) (k : Catalog) (target : Str) (d : Directive) : Prop where
  reference : ∃ p, d.reference? = some p ∧ ∀ c ∈ k.coordinates, p.selects c = false
  rule : ∃ r ∈ rs.rules, r.target.text = target ∧ d ∈ r.directives ∧
    ∃ c ∈ k.coordinates, r.selects c = true

namespace Synthesis

theorem find_ofCatalog_eq_nil_iff {p : Pattern} :
    (Graph.ofCatalog k).find p = [] ↔ ∀ c ∈ k.coordinates, p.selects c = false := by
  unfold Graph.find
  rw [List.filter_eq_nil_iff, Graph.coordinates_ofCatalog]
  exact forall₂_congr fun c _ => by rw [Bool.not_eq_true]

/-- The directives that the synthesis finds are those that dangle. -/
theorem mem_dangling_iff {target : Str} :
    (target, d) ∈ dangling rs (.ofCatalog k) ↔ Dangles rs k target d := by
  rw [mem_dangling]
  constructor
  · rintro ⟨p, hp, hnone, c, hc, r, hr, htarget, hd⟩
    obtain ⟨hr, hselects⟩ := RuleSet.mem_lookup.mp hr
    exact ⟨⟨p, hp, find_ofCatalog_eq_nil_iff.mp hnone⟩, r, hr, htarget, hd, c, hc, hselects⟩
  · rintro ⟨⟨p, hp, hnone⟩, r, hr, htarget, hd, c, hc, hselects⟩
    exact ⟨p, hp, find_ofCatalog_eq_nil_iff.mpr hnone, c, hc, r,
      RuleSet.mem_lookup.mpr ⟨hr, hselects⟩, htarget, hd⟩

/-! ## §2 Violations -/

/-- Of what the synthesis tells, nothing else is of this kind. -/
theorem filter_violations (rs : RuleSet) (lister : Lister) (g : Graph) :
    ((run rs lister g).violations.filter fun v => v.kind = .danglingRuleTarget) =
      danglingTargets rs g := by
  show (danglingTargets rs g ++ realModulePatches rs g).filter _ = _
  rw [List.filter_append, uniform_danglingTargets.filter_kind, uniform_realModulePatches.filter_kind,
    if_pos rfl, if_neg (by decide), List.append_nil]

end Synthesis

/-! ## §3 Unapplied directives -/

namespace Workflow

open Synthesis (Dangles danglingTarget)

/-- The dangling rule targets that the synthesis of a catalog tells are those of the directives that
dangle, one for each rule target and directive and none twice. Where the patch, in whatever state, leaves
out a directive because nothing is what it refers to, the reconciliation does not succeed, and unless a
listing has stopped it the report has the violation for this directive among its errors. -/
theorem dangling_targets_exact (rs : RuleSet) (lister : Lister) (k : Catalog) :
    (∃ pairs : List (Str × Directive), pairs.Nodup ∧
      (∀ target d, (target, d) ∈ pairs ↔ Dangles rs k target d) ∧
      List.Forall₂ (fun pair v => ∃ p, pair.2.reference? = some p ∧
          v = danglingTarget pair.1 pair.2 p) pairs
        ((Synthesis.run rs lister (.ofCatalog k)).violations.filter fun v =>
          v.kind = .danglingRuleTarget) ∧
      ((Synthesis.run rs lister (.ofCatalog k)).violations.filter fun v =>
        v.kind = .danglingRuleTarget).Nodup) ∧
    ∀ p ∈ Patch.course rs (drafted rs lister k), ∀ c ∈ k.coordinates, ∀ r ∈ rs.lookup c,
      ∀ d ∈ r.directives, ∀ pattern, d.reference? = some pattern →
        (Patch.resolve p.graph pattern).1 = none →
          (Patch.apply rs c d p).state.graph = p.graph ∧
          (∀ result, (run rs lister k).result ≠ .ok result) ∧
          ((Synthesis.run rs lister (.ofCatalog k)).attempt.fault = none →
            ∃ report, (run rs lister k).result = .error (.rejected report) ∧
              danglingTarget r.target.text d pattern ∈ report.errors) := by
  refine ⟨⟨Synthesis.dangling rs (.ofCatalog k), Synthesis.nodup_dangling rs _,
    fun target d => Synthesis.mem_dangling_iff, ?_, ?_⟩, ?_⟩
  · rw [Synthesis.filter_violations]
    exact Synthesis.danglingTargets_forall₂ rs _
  · rw [Synthesis.filter_violations]
    exact Synthesis.nodup_danglingTargets rs _
  intro p hp c hc r hr d hd pattern hpattern hnone
  have hskips : Patch.Skips p.graph c d := .inl ⟨pattern, hpattern, hnone⟩
  have hlinkable : Patch.Linkable rs k (drafted rs lister k) := Synthesis.run_linkable rs lister k
  -- In every state of the patch the same artifacts are found as in the catalog.
  have hfind : (Graph.ofCatalog k).find pattern = [] := by
    rw [Patch.resolve_fst, Patch.resolved_congr (hlinkable.linked_of_mem_course hp).evolves,
      Patch.resolved_of_unpatched hlinkable.toUnpatched, List.getLast?_eq_none_iff] at hnone
    exact hnone
  have htold : danglingTarget r.target.text d pattern ∈
      (Synthesis.run rs lister (.ofCatalog k)).violations :=
    List.mem_append_left _ (Synthesis.danglingTarget_mem hc hr hd hpattern hfind)
  refine ⟨(hskips.apply rs).2, fun result hresult => ?_, fun hfault => rejected_of_error hfault htold rfl⟩
  cases hfault : (Synthesis.run rs lister (.ofCatalog k)).attempt.fault with
  | none =>
    obtain ⟨report, hrejected, -⟩ := rejected_of_error hfault htold rfl
    cases hresult.symm.trans hrejected
  | some fault => cases hresult.symm.trans (run_of_fault hfault)

/-- A rule about every version of an artifact that refers to an artifact in three ways, one of them
twice. -/
def absentRules : RuleSet where
  rules :=
    [{ target := ⟨"a:app", ⟨"a", "app", none⟩, rfl⟩
       directives :=
         [.addDependency ⟨"a:gone", ⟨"a", "gone", none⟩, rfl⟩ .api,
          .addDependency ⟨"a:gone", ⟨"a", "gone", none⟩, rfl⟩ .runtime,
          .addDependency ⟨"a:gone", ⟨"a", "gone", none⟩, rfl⟩ .api,
          .addDependency ⟨"a:gone:1", ⟨"a", "gone", some "1"⟩, rfl⟩ .api] }]

/-- Two versions of the artifact that `absentRules` are about, without the other one. -/
def absentCatalog : Catalog where
  artifacts := [{ coordinate := ⟨"a", "app", "1"⟩ }, { coordinate := ⟨"a", "app", "2"⟩ }]
  unique := by decide

/-- Four directives for two artifacts are told as three, and they are told apart. -/
theorem absent_told_once :
    ((Synthesis.run absentRules nameLister (.ofCatalog absentCatalog)).violations.map
        Violation.message) =
      ["Rule 'a:app' (addDependency(a:gone, api)) references 'a:gone' which is not in the artifact catalog",
       "Rule 'a:app' (addDependency(a:gone, runtime)) references 'a:gone' which is not in the artifact catalog",
       "Rule 'a:app' (addDependency(a:gone:1, api)) references 'a:gone:1' which is not in the artifact catalog"] ∧
      ∀ result, (run absentRules nameLister absentCatalog).result ≠ .ok result := by
  obtain ⟨-, hleft⟩ := dangling_targets_exact absentRules nameLister absentCatalog
  refine ⟨by decide +kernel, ?_⟩
  have happ : ∀ r ∈ absentRules.rules, r ∈ absentRules.lookup ⟨"a", "app", "1"⟩ := by
    intro r hr
    exact RuleSet.mem_lookup.mpr ⟨hr, by revert r; decide +kernel⟩
  exact (hleft _ List.mem_cons_self ⟨"a", "app", "1"⟩ (by decide +kernel) _
    (happ _ List.mem_cons_self) _ List.mem_cons_self _ rfl (by decide +kernel)).2.1

end Workflow
end Reconcile
