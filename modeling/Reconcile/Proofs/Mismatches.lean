import Reconcile.Document.Rules
import Reconcile.Proofs.Strings
import Reconcile.Proofs.Table

/-!
# What a reading tells

The parts of a value are read side by side, so a reading fails exactly in what the readings of its parts
fail in. By this the places of a mismatch can be read off the document: in a rule set a pattern that is no
text is told exactly where a rule or a directive names artifacts by a string that is none.

Layers:
1. Readings and their parts
2. Lists and objects
3. Patterns that are no texts
-/

namespace Reconcile

namespace Reading

variable {α β : Type} {m : Mismatch} {read : Json → Reading α} {value : Json}

/-! ## §1 Parts -/

/-- One of the details with which a reading fails is a mismatch of a kind. -/
def Tells (m : Mismatch) : Reading α → Prop
  | .ok _ => False
  | .failed details => ∃ d ∈ details, d.mismatch = m

@[simp] theorem tells_ok (a : α) : ¬ (ok a).Tells m := id

@[simp] theorem tells_fail {m' : Mismatch} : (fail m' : Reading α).Tells m ↔ m' = m := by
  simp [Tells, fail]

@[simp] theorem tells_map (f : α → β) (x : Reading α) : (x.map f).Tells m ↔ x.Tells m := by
  cases x <;> rfl

@[simp] theorem tells_functor (f : α → β) (x : Reading α) : (f <$> x).Tells m ↔ x.Tells m :=
  tells_map f x

@[simp] theorem tells_seq (f : Reading (α → β)) (x : Reading α) :
    (f <*> x).Tells m ↔ f.Tells m ∨ x.Tells m := by
  cases f with
  | ok f =>
    cases x with
    | ok a => simp [Tells, Seq.seq, apply]
    | failed details => simp [Tells, Seq.seq, apply]
  | failed details =>
    cases x with
    | ok a => simp [Tells, Seq.seq, apply]
    | failed more => simp [Tells, Seq.seq, apply, or_and_right, exists_or]

@[simp] theorem tells_under (step : Step) (x : Reading α) : (x.under step).Tells m ↔ x.Tells m := by
  cases x with
  | ok a => rfl
  | failed details => simp [Tells, under]

/-! ## §2 Lists and objects -/

theorem tells_itemsFrom {items : List Json} {index : Nat} :
    (itemsFrom read index items).Tells m ↔ ∃ item ∈ items, (read item).Tells m := by
  induction items generalizing index with
  | nil => simp [itemsFrom]
  | cons item items ih => simp [itemsFrom, ih]

/-- A list is read by its items. -/
theorem tells_list (hm : m ≠ .notList) :
    (list read value).Tells m ↔
      ∃ items, value = .array items ∧ ∃ item ∈ items, (read item).Tells m := by
  cases value with
  | array items => simp [list, tells_itemsFrom]
  | _ => simp [list, hm.symm]

theorem tells_mappedFrom {members : List (Str × Json)} :
    (mappedFrom read members).Tells m ↔ ∃ member ∈ members, (read member.2).Tells m := by
  induction members with
  | nil => simp [mappedFrom]
  | cons member members ih => simp [mappedFrom, ih]

/-- A mapping is read by its values. -/
theorem tells_mapping (hm : m ≠ .notMapping) :
    (mapping read value).Tells m ↔
      ∃ members, value = .object members ∧ ∃ member ∈ members, (read member.2).Tells m := by
  cases value with
  | object members => simp [mapping, tells_mappedFrom]
  | _ => simp [mapping, hm.symm]

/-- An object is read by its members. -/
theorem tells_object {read : List (Str × Json) → Reading α} (hm : m ≠ .notObject) :
    (object read value).Tells m ↔ ∃ members, value = .object members ∧ (read members).Tells m := by
  cases value with
  | object members => simp [object]
  | _ => simp [object, hm.symm]

theorem tells_field {name : String} {members : List (Str × Json)} (hm : m ≠ .missing) :
    (field name read members).Tells m ↔
      ∃ value, Json.member? name members = some value ∧ (read value).Tells m := by
  unfold field
  cases Json.member? name members with
  | none => simp [hm.symm]
  | some value => simp

theorem tells_fieldOr {name : String} {default : α} {members : List (Str × Json)} :
    (fieldOr name default read members).Tells m ↔
      ∃ value, Json.member? name members = some value ∧ (read value).Tells m := by
  unfold fieldOr
  cases Json.member? name members with
  | none => simp
  | some value => simp

theorem tells_nullable : (nullable read value).Tells m ↔ value ≠ .null ∧ (read value).Tells m := by
  cases value <;> simp [nullable]

/-! ## §3 Patterns that are no texts -/

/-- Where a pattern should stand, a string that is no text is told as such. -/
@[simp] theorem tells_writtenPattern :
    (writtenPattern value).Tells .brokenPattern ↔ ∃ s, value = .string s ∧ s.isText = false := by
  cases value with
  | string s =>
    cases htext : s.isText with
    | false => simp [writtenPattern, htext]
    | true => cases hread : WrittenPattern.read s <;> simp [writtenPattern, htext, hread]
  | _ => simp [writtenPattern]

@[simp] theorem not_tells_string : ¬ (string value).Tells .brokenPattern := by
  unfold string
  split <;> simp

@[simp] theorem not_tells_nonemptyText : ¬ (nonemptyText value).Tells .brokenPattern := by
  unfold nonemptyText
  split
  · split
    · split <;> simp
    · simp
  · simp

@[simp] theorem not_tells_choice {ofWord? : String → Option α} :
    ¬ (choice ofWord? value).Tells .brokenPattern := by
  unfold choice
  split
  · split
    · split <;> simp
    · simp
  · simp

@[simp] theorem not_tells_flag : ¬ (flag value).Tells .brokenPattern := by
  unfold flag
  split
  all_goals (repeat' split) <;> simp

end Reading

open Reading

/-- The kinds of directives that name artifacts, with the members in which they do. -/
def Directive.patternMembers : List (Str × String) :=
  [("RemoveDependency", "target"), ("AddDependency", "target"), ("MergeJar", "source")]

/-- A directive names artifacts by a string that is no text. -/
inductive Directive.BreaksPattern : Json → Prop where
  | intro {members : List (Str × Json)} {op s : Str} {name : String}
      (hop : Json.member? "op" members = some (.string op))
      (hname : (op, name) ∈ Directive.patternMembers)
      (hmember : Json.member? name members = some (.string s)) (hbroken : s.isText = false) :
      BreaksPattern (.object members)

theorem Directive.tells_of_kind {kind : Str × (List (Str × Json) → Reading Directive)}
    (hkind : kind ∈ Directive.kinds) (members : List (Str × Json)) :
    (kind.2 members).Tells .brokenPattern ↔ ∃ name s, (kind.1, name) ∈ patternMembers ∧
      Json.member? name members = some (.string s) ∧ s.isText = false := by
  -- The kinds are a table, so this is one equivalence for each of its rows.
  revert kind
  simp [Directive.kinds, patternMembers, tells_field, tells_fieldOr, Scope.read, Qualifier.read]

/-- Each of the kinds that name artifacts is one of those that are read. -/
theorem Directive.exists_kind {op : Str} {name : String} (h : (op, name) ∈ Directive.patternMembers) :
    ∃ read, Table.lookup op Directive.kinds = some read := by
  simp only [patternMembers, List.mem_cons, Prod.mk.injEq, List.not_mem_nil, or_false] at h
  rcases h with ⟨rfl, -⟩ | ⟨rfl, -⟩ | ⟨rfl, -⟩
  · exact ⟨_, rfl⟩
  · exact ⟨_, rfl⟩
  · exact ⟨_, rfl⟩

theorem Directive.tells_read {origin : Origin} {value : Json} :
    (Directive.read origin value).Tells .brokenPattern ↔ Directive.BreaksPattern value := by
  constructor
  · intro h
    unfold Directive.read at h
    split at h
    · next members =>
      split at h
      · simp at h
      · -- Only directives of a known kind are read any further.
        next name hop =>
        split at h
        · next read hread =>
          rw [tells_under, tells_of_kind (Table.mem_of_lookup hread)] at h
          obtain ⟨field, s, hname, hmember, hbroken⟩ := h
          exact .intro hop hname hmember hbroken
        · simp at h
      · simp at h
    · cases origin <;> simp at h
  · rintro ⟨hop, hname, hmember, hbroken⟩
    obtain ⟨read, hread⟩ := exists_kind hname
    simp only [Directive.read, hop, hread, tells_under]
    exact (tells_of_kind (Table.mem_of_lookup hread) _).mpr ⟨_, _, hname, hmember, hbroken⟩

/-- A rule names artifacts by a string that is no text, itself or in a directive. -/
inductive Rule.BreaksPattern : Json → Prop where
  | target {members : List (Str × Json)} {s : Str}
      (htarget : Json.member? "target" members = some (.string s)) (hbroken : s.isText = false) :
      BreaksPattern (.object members)
  | directive {members : List (Str × Json)} {directives : List Json} {directive : Json}
      (hdirectives : Json.member? "directives" members = some (.array directives))
      (hdirective : directive ∈ directives) (h : Directive.BreaksPattern directive) :
      BreaksPattern (.object members)

theorem Rule.tells_read {origin : Origin} {value : Json} :
    (Rule.read origin value).Tells .brokenPattern ↔ Rule.BreaksPattern value := by
  simp only [Rule.read, tells_object, tells_seq, tells_functor, tells_field, tells_fieldOr, tells_list,
    tells_nullable, ne_eq, reduceCtorEq, not_false_eq_true, tells_writtenPattern, not_tells_string,
    and_false, exists_false, or_false, Directive.tells_read]
  constructor
  · rintro ⟨members, rfl, ⟨_, htarget, s, rfl, hbroken⟩ |
      ⟨_, hdirectives, directives, rfl, directive, hmem, h⟩⟩
    · exact .target htarget hbroken
    · exact .directive hdirectives hmem h
  · intro h
    cases h with
    | target htarget hbroken => exact ⟨_, rfl, .inl ⟨_, htarget, _, rfl, hbroken⟩⟩
    | directive hdirectives hmem h => exact ⟨_, rfl, .inr ⟨_, hdirectives, _, rfl, _, hmem, h⟩⟩

theorem Policy.not_tells_read {value : Json} : ¬ (Policy.read value).Tells .brokenPattern := by
  simp [Policy.read, tells_object, tells_fieldOr, tells_list]

/-- A rule-set document has a rule that names artifacts by a string that is no text. -/
inductive RuleConfig.BreaksPattern : Json → Prop where
  | intro {members : List (Str × Json)} {rules : List Json} {rule : Json}
      (hrules : Json.member? "rules" members = some (.array rules)) (hrule : rule ∈ rules)
      (h : Rule.BreaksPattern rule) : BreaksPattern (.object members)

/-- A pattern that is no text is told wherever there is one. -/
theorem RuleConfig.tells_read {origin : Origin} {value : Json} :
    (RuleConfig.read origin value).Tells .brokenPattern ↔ RuleConfig.BreaksPattern value := by
  simp only [RuleConfig.read, tells_object, tells_seq, tells_functor, tells_fieldOr, tells_list,
    tells_mapping, ne_eq, reduceCtorEq, not_false_eq_true, not_tells_string, and_false, exists_false,
    or_false, false_or, Rule.tells_read, Policy.not_tells_read]
  constructor
  · rintro ⟨members, rfl, _, hrules, rules, rfl, rule, hrule, h⟩
    exact .intro hrules hrule h
  · rintro ⟨hrules, hrule, h⟩
    exact ⟨_, rfl, _, hrules, _, rfl, _, hrule, h⟩

/-- A pattern that is no text outweighs everything else that is wrong with a document. -/
theorem RuleSetFault.ofDetails_cases (details : List Detail) :
    ((Reading.failed details : Reading RuleConfig).Tells .brokenPattern ∧
        RuleSetFault.ofDetails details = .brokenPattern) ∨
      (¬ (Reading.failed details : Reading RuleConfig).Tells .brokenPattern ∧
        RuleSetFault.ofDetails details = .form details) := by
  have hany : (details.any fun d => d.mismatch = .brokenPattern) = true ↔
      (Reading.failed details : Reading RuleConfig).Tells .brokenPattern := by
    simp [Tells]
  unfold RuleSetFault.ofDetails
  rw [← hany]
  split
  · next h => exact .inl ⟨h, rfl⟩
  · next h => exact .inr ⟨h, rfl⟩

end Reconcile
