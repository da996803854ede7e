import Mathlib.Data.List.Basic
import Reconcile.Proofs.Catalog
import Reconcile.Proofs.Rules
import Reconcile.Stage.Synthesis

/-!
# References to artifacts

Directives that add a dependency or merge an artifact refer to an artifact of the catalog. In writing,
no two of them read the same, so a reference to nothing that is told once for its wording is told once
for itself, and none is lost behind another one.

Layers:
1. The wording of a reference
2. References to nothing
3. What is told of them
-/

namespace Reconcile

/-! ## §1 Wording -/

/-- The words for the scopes end in different characters. -/
theorem Scope.eq_of_word_suffix {s s' : Scope} {a b : Str} (h : a ++ s.word = b ++ s'.word) :
    s = s' := by
  have hword : ∀ s : Scope, (s.word : Str).pieces ≠ [] := by
    intro s
    cases s <;> decide
  have hlast : (s.word : Str).pieces.getLast? = (s'.word : Str).pieces.getLast? := by
    have hends := congrArg (fun text : Str => text.pieces.getLast?) h
    simp only [Str.pieces_append] at hends
    rwa [List.getLast?_append_of_ne_nil _ (hword s), List.getLast?_append_of_ne_nil _ (hword s')]
      at hends
  revert hlast
  cases s <;> cases s' <;> decide

namespace Directive

theorem head?_describe_addDependency (target : WrittenPattern) (scope : Scope) :
    (describe (.addDependency target scope)).pieces.head? = some (.char 'a') := by
  show ("addDependency(" ++ target.text ++ ", " ++ scope.word ++ ")" : Str).pieces.head? = _
  rw [Str.append_assoc, Str.append_assoc, Str.append_assoc, Str.pieces_append]
  rfl

theorem head?_describe_mergeJar (source : WrittenPattern) :
    (describe (.mergeJar source)).pieces.head? = some (.char 'm') := by
  show ("mergeJar(" ++ source.text ++ ")" : Str).pieces.head? = _
  rw [Str.append_assoc, Str.pieces_append]
  rfl

/-- Of the directives that refer to an artifact, no two read the same. -/
theorem eq_of_describe_eq {d d' : Directive} {p p' : Pattern} (hd : d.reference? = some p)
    (hd' : d'.reference? = some p') (h : d.describe = d'.describe) : d = d' := by
  have hfirst := congrArg (fun text : Str => text.pieces.head?) h
  cases d with
  | addDependency target scope =>
    cases d' with
    | addDependency target' scope' =>
      -- The scope is read from the right, and what is left in front of it is the target.
      have hopen := (Str.append_left_inj _).mp h
      obtain rfl := Scope.eq_of_word_suffix hopen
      have hfront := (Str.append_left_inj _).mp ((Str.append_left_inj _).mp hopen)
      rw [WrittenPattern.eq_of_text_eq ((Str.append_right_inj _).mp hfront)]
    | mergeJar source' =>
      rw [head?_describe_addDependency, head?_describe_mergeJar] at hfirst
      exact absurd hfirst (by decide)
    | _ => cases hd'
  | mergeJar source =>
    cases d' with
    | addDependency target' scope' =>
      rw [head?_describe_addDependency, head?_describe_mergeJar] at hfirst
      exact absurd hfirst (by decide)
    | mergeJar source' =>
      have hfront := (Str.append_left_inj _).mp h
      rw [WrittenPattern.eq_of_text_eq ((Str.append_right_inj _).mp hfront)]
    | _ => cases hd'
  | _ => cases hd

end Directive

namespace Synthesis

variable {rs : RuleSet} {g : Graph}

/-! ## §2 References to nothing -/

/-- The directives that refer to nothing, as they are met: with every artifact that a rule selects, each
of them comes again. -/
def unresolved (rs : RuleSet) (g : Graph) : List (Str × Directive) :=
  g.coordinates.flatMap fun c =>
    (rs.lookup c).flatMap fun r =>
      (r.directives.filter fun d => d.reference?.any fun p => (g.find p).isEmpty).map fun d =>
        (r.target.text, d)

theorem mem_unresolved {rule : Str} {d : Directive} :
    (rule, d) ∈ unresolved rs g ↔ ∃ p, d.reference? = some p ∧ g.find p = [] ∧
      ∃ c ∈ g.coordinates, ∃ r ∈ rs.lookup c, r.target.text = rule ∧ d ∈ r.directives := by
  simp only [unresolved, List.mem_flatMap, List.mem_map, List.mem_filter, Option.any_eq_true,
    List.isEmpty_iff, Prod.mk.injEq]
  constructor
  · rintro ⟨c, hc, r, hr, d', ⟨hd, p, hp, hfind⟩, rfl, rfl⟩
    exact ⟨p, hp, hfind, c, hc, r, hr, rfl, hd⟩
  · rintro ⟨p, hp, hfind, c, hc, r, hr, rfl, hd⟩
    exact ⟨c, hc, r, hr, d, ⟨hd, p, hp, hfind⟩, rfl, rfl⟩

/-- To go by the wording of the directives is to go by the directives. -/
theorem dangling_eq (rs : RuleSet) (g : Graph) :
    dangling rs g = Ordered.distinct (unresolved rs g) := by
  apply Ordered.distinctBy_eq_distinct
  rintro ⟨rule, d⟩ hx ⟨rule', d'⟩ hy hkey
  obtain ⟨p, hp, -⟩ := mem_unresolved.mp hx
  obtain ⟨p', hp', -⟩ := mem_unresolved.mp hy
  obtain ⟨hrule, hwording⟩ := Prod.mk.inj hkey
  exact Prod.ext hrule (Directive.eq_of_describe_eq hp hp' hwording)

theorem nodup_dangling (rs : RuleSet) (g : Graph) : (dangling rs g).Nodup := by
  rw [dangling_eq]
  exact Ordered.nodup_distinct _

/-- A directive dangles when a rule about some artifact has it and nothing is what it refers to. -/
theorem mem_dangling {rule : Str} {d : Directive} :
    (rule, d) ∈ dangling rs g ↔ ∃ p, d.reference? = some p ∧ g.find p = [] ∧
      ∃ c ∈ g.coordinates, ∃ r ∈ rs.lookup c, r.target.text = rule ∧ d ∈ r.directives := by
  rw [dangling_eq, Ordered.mem_distinct, mem_unresolved]

/-! ## §3 Violations -/

/-- What is told of a reference to nothing tells which directive of which rule it is. -/
theorem eq_of_danglingTarget_eq {rule rule' : Str} {d d' : Directive} {p p' : Pattern}
    (hd : d.reference? = some p) (hd' : d'.reference? = some p')
    (h : danglingTarget rule d p = danglingTarget rule' d' p') : (rule, d) = (rule', d') := by
  have hrule : rule = rule' := Option.some.inj (congrArg Violation.ruleTarget h)
  have hpattern : [p.text] = [p'.text] := congrArg Violation.coordinates h
  have hmessage : "Rule '" ++ rule ++ "' (" ++ d.describe ++ ") references '" ++ p.text
        ++ "' which is not in the artifact catalog" =
      "Rule '" ++ rule' ++ "' (" ++ d'.describe ++ ") references '" ++ p'.text
        ++ "' which is not in the artifact catalog" := congrArg Violation.message h
  -- What stands around the wording is the same in both messages.
  rw [hrule, (List.cons.inj hpattern).1] at hmessage
  simp only [Str.append_left_inj, Str.append_right_inj] at hmessage
  rw [hrule, Directive.eq_of_describe_eq hd hd' hmessage]

/-- A directive that finds nothing is told with the target of its rule. -/
theorem danglingTarget_mem {c : Coordinate} {r : Rule} {d : Directive} {p : Pattern}
    (hc : c ∈ g.coordinates) (hr : r ∈ rs.lookup c) (hd : d ∈ r.directives)
    (hp : d.reference? = some p) (hnone : g.find p = []) :
    danglingTarget r.target.text d p ∈ danglingTargets rs g := by
  have hdangling : (r.target.text, d) ∈ dangling rs g :=
    mem_dangling.mpr ⟨p, hp, hnone, c, hc, r, hr, rfl, hd⟩
  exact List.mem_filterMap.mpr ⟨_, hdangling, Option.map_eq_some_iff.mpr ⟨p, hp, rfl⟩⟩

/-- Each dangling directive is told, in the order in which they were met. -/
theorem danglingTargets_forall₂ (rs : RuleSet) (g : Graph) :
    List.Forall₂ (fun pair v => ∃ p, pair.2.reference? = some p ∧ v = danglingTarget pair.1 pair.2 p)
      (dangling rs g) (danglingTargets rs g) := by
  refine (Ordered.forall₂_filterMap ?_).imp ?_
  · rintro ⟨rule, d⟩ hpair
    obtain ⟨p, hp, -⟩ := mem_dangling.mp hpair
    exact ⟨danglingTarget rule d p, Option.map_eq_some_iff.mpr ⟨p, hp, rfl⟩⟩
  · rintro ⟨rule, d⟩ v hv
    obtain ⟨p, hp, rfl⟩ := Option.map_eq_some_iff.mp hv
    exact ⟨p, hp, rfl⟩

/-- Nothing is told twice of references to nothing. -/
theorem nodup_danglingTargets (rs : RuleSet) (g : Graph) : (danglingTargets rs g).Nodup := by
  refine (nodup_dangling rs g).filterMap ?_
  rintro ⟨rule, d⟩ ⟨rule', d'⟩ v hv hv'
  obtain ⟨p, hp, rfl⟩ := Option.map_eq_some_iff.mp hv
  obtain ⟨p', hp', heq⟩ := Option.map_eq_some_iff.mp hv'
  exact eq_of_danglingTarget_eq hp hp' heq.symm

end Synthesis
end Reconcile
