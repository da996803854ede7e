import Reconcile.Proofs.Requirements
import Reconcile.Proofs.RoundTrip

/-!
# Descriptors as sets and a map

A descriptor that starts with a name only and is added to stands for four sets and a map at every point.
The packages that it exports and opens, the services that it uses and the artifacts merged into it are
those that were added. It requires the modules that were added, with the qualifier of the last addition
that replaces, or else of the first one. All of this is listed in strictly increasing order.

Layers:
1. Additions
2. One addition
3. Rows of additions
-/

namespace Reconcile

/-! ## §1 Additions -/

/-- What can be added to a descriptor. -/
inductive Addition where
  | exports (packages : List Str)
  | opens (packages : List Str)
  | uses (service : Str)
  | requires (name : Str) (qualifier : Qualifier) (replace : Bool)
  | mergedJar (c : Coordinate)

/-- The qualifier that an addition gives to a module, and whether it replaces an earlier one. -/
def Addition.qualifierFor? (n : Str) : Addition → Option (Qualifier × Bool)
  | .requires name qualifier replace => if name = n then some (qualifier, replace) else none
  | _ => none

/-- Of qualifiers that are given one after the other, the one that stands: behind the first of them the
last that replaces, or else the first. -/
def Qualifier.standing? : List (Qualifier × Bool) → Option Qualifier
  | [] => none
  | (first, _) :: later => some (((later.filter Prod.snd).map Prod.fst).getLast?.getD first)

/-- A list holds the elements with a property, in strictly increasing order of their keys. -/
structure Lists {α : Type} (key : α → Str) (xs : List α) (P : α → Prop) : Prop where
  increasing : (xs.map key).Pairwise (· < ·)
  mem_iff : ∀ x, x ∈ xs ↔ P x

namespace Descriptor

/-- The descriptor with an addition. -/
def extend (d : Descriptor) : Addition → Descriptor
  | .exports packages => d.addExports packages
  | .opens packages => d.addOpens packages
  | .uses service => d.addUses service
  | .requires name qualifier replace => d.addRequires name qualifier replace
  | .mergedJar c => d.addMergedJar c

/-- What additions make of a descriptor that has a name only. -/
def extended (name : Str) (additions : List Addition) : Descriptor :=
  additions.foldl extend { name := name }

/-! ## §2 One addition -/

variable {d : Descriptor} {a : Addition}

/-- An addition of packages to export adds these to them, and no other one does. -/
theorem mem_exports_extend {package : Str} : package ∈ (d.extend a).exports ↔
    package ∈ d.exports ∨ ∃ packages, a = .exports packages ∧ package ∈ packages := by
  cases a with
  | exports packages => simp [extend, addExports]
  | requires n q replace =>
    rw [extend, addRequires_eq]
    simp
  | mergedJar c =>
    rw [extend, addMergedJar_eq]
    simp
  | _ => simp [extend, addOpens, addUses]

theorem mem_opens_extend {package : Str} : package ∈ (d.extend a).opens ↔
    package ∈ d.opens ∨ ∃ packages, a = .opens packages ∧ package ∈ packages := by
  cases a with
  | opens packages => simp [extend, addOpens]
  | requires n q replace =>
    rw [extend, addRequires_eq]
    simp
  | mergedJar c =>
    rw [extend, addMergedJar_eq]
    simp
  | _ => simp [extend, addExports, addUses]

theorem mem_uses_extend {service : Str} :
    service ∈ (d.extend a).uses ↔ service ∈ d.uses ∨ a = .uses service := by
  cases a with
  | uses s => simp [extend, addUses, eq_comm]
  | requires n q replace =>
    rw [extend, addRequires_eq]
    simp
  | mergedJar c =>
    rw [extend, addMergedJar_eq]
    simp
  | _ => simp [extend, addExports, addOpens]

theorem mem_mergedJars_extend {c : Coordinate} :
    c ∈ (d.extend a).mergedJars ↔ c ∈ d.mergedJars ∨ a = .mergedJar c := by
  cases a with
  | mergedJar j => simp [extend, Patch.mem_addMergedJar, eq_comm]
  | requires n q replace =>
    rw [extend, addRequires_eq]
    simp
  | _ => simp [extend, addExports, addOpens, addUses]

theorem mem_requiredNames_extend {n : Str} : n ∈ (d.extend a).requiredNames ↔
    n ∈ d.requiredNames ∨ ∃ qualifier replace, a = .requires n qualifier replace := by
  cases a with
  | requires m q replace => simp [extend, mem_requiredNames_addRequires, or_comm, eq_comm]
  | mergedJar c =>
    rw [extend, addMergedJar_eq]
    simp [requiredNames]
  | _ => simp [extend, addExports, addOpens, addUses, requiredNames]

/-- A requirement that is added replaces the one of its module, keeps it, or is the first. -/
theorem findRequirement?_extend (d : Descriptor) (a : Addition) (n : Str) :
    (d.extend a).findRequirement? n =
      match a.qualifierFor? n with
      | none => d.findRequirement? n
      | some (qualifier, replace) =>
        some (if replace then ⟨n, qualifier⟩ else (d.findRequirement? n).getD ⟨n, qualifier⟩) := by
  cases a with
  | requires m q replace =>
    rw [extend, findRequirement?_addRequires, Addition.qualifierFor?]
    by_cases hm : m = n
    · subst hm
      simp
    · simp [hm]
  | mergedJar c =>
    rw [extend, addMergedJar_eq]
    rfl
  | _ => rfl

/-- A descriptor whose collections are in order, each of them without repetition. -/
structure InOrder (d : Descriptor) : Prop where
  exports : d.exports.Pairwise (· < ·)
  opens : d.opens.Pairwise (· < ·)
  uses : d.uses.Pairwise (· < ·)
  requires : d.requiredNames.Pairwise (· < ·)
  mergedJars : (d.mergedJars.map Coordinate.text).Pairwise (· ≤ ·)
  mergedOnce : d.mergedJars.Nodup

theorem InOrder.addMergedJar (h : d.InOrder) (c : Coordinate) : (d.addMergedJar c).InOrder := by
  unfold Descriptor.addMergedJar
  split
  · exact h
  · next hnew =>
    have hperm : (Coordinate.inTextOrder (d.mergedJars ++ [c])).Perm (c :: d.mergedJars) :=
      (Ordered.sortBy_perm _).trans (List.perm_append_singleton c _)
    exact { h with
      mergedJars := List.pairwise_map.mpr (Ordered.pairwise_sortBy _)
      mergedOnce := hperm.nodup_iff.mpr (List.nodup_cons.mpr ⟨hnew, h.mergedOnce⟩) }

/-- Every addition keeps the order. -/
theorem InOrder.extend (h : d.InOrder) (a : Addition) : (d.extend a).InOrder := by
  cases a with
  | exports packages => exact { h with exports := Ordered.pairwise_ofList _ }
  | opens packages => exact { h with opens := Ordered.pairwise_ofList _ }
  | uses service => exact { h with uses := Ordered.pairwise_ofList _ }
  | requires n q replace =>
    have hrequires := @increasing_requiredNames_addRequires d n q replace h.requires
    rw [Descriptor.extend, addRequires_eq]
    exact { h with requires := hrequires }
  | mergedJar c => exact h.addMergedJar c

/-! ## §3 Rows of additions -/

variable {name n : Str} {additions : List Addition}

theorem extended_concat (name : Str) (additions : List Addition) (a : Addition) :
    extended name (additions ++ [a]) = (extended name additions).extend a := by
  rw [extended, List.foldl_concat]
  rfl

theorem inOrder_extended (name : Str) (additions : List Addition) :
    (extended name additions).InOrder := by
  refine List.foldlRecOn (motive := InOrder) _ _ ?_ fun d hd a _ => hd.extend a
  exact ⟨.nil, .nil, .nil, .nil, .nil, .nil⟩

/-- What additions bring about and none of them undoes is so of a descriptor that had a name only exactly if
one of them brings it about. -/
theorem holds_extended_iff {P : Descriptor → Prop} {Q : Addition → Prop} (hname : ¬ P { name := name })
    (hstep : ∀ d a, P (d.extend a) ↔ P d ∨ Q a) :
    P (extended name additions) ↔ ∃ a ∈ additions, Q a := by
  rw [extended, holds_foldl_iff hstep, or_iff_right hname]

theorem mem_exports_extended {package : Str} : package ∈ (extended name additions).exports ↔
    ∃ packages, .exports packages ∈ additions ∧ package ∈ packages := by
  rw [holds_extended_iff (P := fun d => package ∈ d.exports) List.not_mem_nil fun _ _ => mem_exports_extend]
  aesop

theorem mem_uses_extended {service : Str} :
    service ∈ (extended name additions).uses ↔ .uses service ∈ additions := by
  rw [holds_extended_iff (P := fun d => service ∈ d.uses) List.not_mem_nil fun _ _ => mem_uses_extend]
  simp

theorem mem_opens_extended {package : Str} : package ∈ (extended name additions).opens ↔
    ∃ packages, .opens packages ∈ additions ∧ package ∈ packages := by
  rw [holds_extended_iff (P := fun d => package ∈ d.opens) List.not_mem_nil fun _ _ => mem_opens_extend]
  aesop

theorem mem_mergedJars_extended {c : Coordinate} :
    c ∈ (extended name additions).mergedJars ↔ .mergedJar c ∈ additions := by
  rw [holds_extended_iff (P := fun d => c ∈ d.mergedJars) List.not_mem_nil fun _ _ =>
    mem_mergedJars_extend]
  simp

theorem mem_requiredNames_extended : n ∈ (extended name additions).requiredNames ↔
    ∃ qualifier replace, .requires n qualifier replace ∈ additions := by
  rw [holds_extended_iff (P := fun d => n ∈ d.requiredNames) List.not_mem_nil fun _ _ =>
    mem_requiredNames_extend]
  aesop

/-- Coordinates that were read from texts come in strictly increasing order, since different ones have
different texts. -/
theorem increasing_mergedJars_extended
    (hread : ∀ c, .mergedJar c ∈ additions → ∃ text, Coordinate.parse text = .ok c) :
    ((extended name additions).mergedJars.map Coordinate.text).Pairwise (· < ·) := by
  have horder := inOrder_extended name additions
  refine (Ordered.pairwise_lt_iff horder.mergedJars).mpr (horder.mergedOnce.map_on ?_)
  intro c hc c' hc' htext
  obtain ⟨t, ht⟩ := hread c (mem_mergedJars_extended.mp hc)
  obtain ⟨t', ht'⟩ := hread c' (mem_mergedJars_extended.mp hc')
  exact (Coordinate.roundTrips.apart t t' c c' ht ht').mpr htext

/-- A later qualifier stands if it replaces, or if there was none before. -/
theorem standing?_concat (given : List (Qualifier × Bool)) (q : Qualifier) (replace : Bool) :
    Qualifier.standing? (given ++ [(q, replace)]) =
      some (if replace then q else (Qualifier.standing? given).getD q) := by
  cases given with
  | nil => cases replace <;> rfl
  | cons first later => cases replace <;> simp [Qualifier.standing?, List.filter_append]

/-- The first requirement of a module has the qualifier that stands after all additions of it. -/
theorem findRequirement?_extended (name : Str) (additions : List Addition) (n : Str) :
    (extended name additions).findRequirement? n =
      (Qualifier.standing? (additions.filterMap (Addition.qualifierFor? n))).map fun q => ⟨n, q⟩ := by
  induction additions using List.reverseRecOn with
  | nil => rfl
  | append_singleton additions a ih =>
    rw [extended_concat, findRequirement?_extend, List.filterMap_append, ih]
    cases ha : a.qualifierFor? n with
    | none => simp [ha]
    | some given =>
      obtain ⟨q, replace⟩ := given
      simp only [List.filterMap_cons, ha, List.filterMap_nil, standing?_concat, Option.map_some]
      -- Where the addition does not replace, what stood before it still does.
      cases replace <;> cases Qualifier.standing? (additions.filterMap (Addition.qualifierFor? n)) <;> rfl

theorem mem_requires_extended {q : Qualifier} : ⟨n, q⟩ ∈ (extended name additions).requires ↔
    Qualifier.standing? (additions.filterMap (Addition.qualifierFor? n)) = some q := by
  -- No name is listed twice, so the first requirement of a module is all there is of it.
  have hnodup := (inOrder_extended name additions).requires.imp ne_of_lt
  have hfirst := Ordered.find?_eq_some_iff (x := ⟨n, q⟩) (y := n) hnodup
  rw [← findRequirement?_eq, findRequirement?_extended] at hfirst
  simpa using hfirst.symm

/-- After any additions to a descriptor that had a name only, its packages, services and merged artifacts
are those that were added, and it requires the modules that were added, each once with the qualifier that
stands for it. All of them are listed in strictly increasing order, artifacts by their texts. -/
theorem collections_exact (name : Str) (additions : List Addition)
    (hread : ∀ c, .mergedJar c ∈ additions → ∃ text, Coordinate.parse text = .ok c) :
    Lists id (extended name additions).exports
        (fun package => ∃ packages, .exports packages ∈ additions ∧ package ∈ packages) ∧
      Lists id (extended name additions).opens
        (fun package => ∃ packages, .opens packages ∈ additions ∧ package ∈ packages) ∧
      Lists id (extended name additions).uses (fun service => .uses service ∈ additions) ∧
      Lists Coordinate.text (extended name additions).mergedJars (fun c => .mergedJar c ∈ additions) ∧
      Lists Requirement.name (extended name additions).requires (fun r =>
        Qualifier.standing? (additions.filterMap (Addition.qualifierFor? r.name)) = some r.qualifier) ∧
      Lists id (extended name additions).requiredNames
        (fun n => ∃ qualifier replace, .requires n qualifier replace ∈ additions) := by
  have horder := inOrder_extended name additions
  refine ⟨⟨?_, fun _ => mem_exports_extended⟩, ⟨?_, fun _ => mem_opens_extended⟩,
    ⟨?_, fun _ => mem_uses_extended⟩,
    ⟨increasing_mergedJars_extended hread, fun _ => mem_mergedJars_extended⟩,
    ⟨horder.requires, fun _ => mem_requires_extended⟩, ⟨?_, fun _ => mem_requiredNames_extended⟩⟩
  · rw [List.map_id]
    exact horder.exports
  · rw [List.map_id]
    exact horder.opens
  · rw [List.map_id]
    exact horder.uses
  · rw [List.map_id]
    exact horder.requires

/-- Additions of which one replaces an earlier qualifier and the last one does not. -/
def repeatedAdditions : List Addition :=
  [.requires "b" .static false, .mergedJar ⟨"g", "b", "1"⟩, .exports ["q", "p", "q"],
    .requires "b" .transitive true, .mergedJar ⟨"g", "a", "1"⟩, .requires "a" .static false,
    .requires "b" .plain false]

/-- The replacing qualifier stands, and the artifact that was merged last comes first. -/
theorem repeated_additions_listed :
    (∀ c, .mergedJar c ∈ repeatedAdditions → ∃ text, Coordinate.parse text = .ok c) ∧
      ⟨"b", .transitive⟩ ∈ (extended "m" repeatedAdditions).requires ∧
      Lists Coordinate.text (extended "m" repeatedAdditions).mergedJars
        (fun c => .mergedJar c ∈ repeatedAdditions) := by
  have hread : ∀ c, .mergedJar c ∈ repeatedAdditions → ∃ text, Coordinate.parse text = .ok c := by
    intro c hc
    simp only [repeatedAdditions, List.mem_cons, Addition.mergedJar.injEq, List.not_mem_nil,
      reduceCtorEq, false_or, or_false] at hc
    rcases hc with rfl | rfl
    · exact ⟨"g:b:1", rfl⟩
    · exact ⟨"g:a:1", rfl⟩
  obtain ⟨-, -, -, hjars, hrequires, -⟩ := collections_exact "m" repeatedAdditions hread
  exact ⟨hread, (hrequires.mem_iff ⟨"b", .transitive⟩).mpr rfl, hjars⟩

end Descriptor
end Reconcile
