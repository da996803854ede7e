import Mathlib.Data.List.Forall2
import Reconcile.Proofs.Archives
import Reconcile.Proofs.Attempt
import Reconcile.Proofs.CanonicalText
import Reconcile.Proofs.Ordered
import Reconcile.Proofs.Writing

/-!
# What the entries of a document declare

A value stands for a coordinate by a string that writes it or as an object of three strings, and a
dependency names its target by itself, if it is a string, or else by a member. A declaration is dropped if
an earlier one names its target alike: two strings do if they write the same coordinate, two objects only
if they are equal as JSON. So a target that is named in different ways is kept each time, and an artifact
has an edge to each target once exactly if no two of its dependencies do that.

Layers:
1. The values of readings
2. Coordinates
3. Targets
4. The declarations of an entry
5. Documents that are accepted
6. Repeated targets
-/

namespace Reconcile

/-! ## §1 The values of readings -/

namespace Reading

variable {α β : Type}

/-- The value that is read, if reading succeeds. -/
def value? : Reading α → Option α
  | .ok a => some a
  | .failed _ => none

@[simp] theorem value?_ok (a : α) : (ok a).value? = some a := rfl

theorem value?_eq_some_iff {x : Reading α} {a : α} : x.value? = some a ↔ x = .ok a := by
  cases x <;> simp [value?]

@[simp] theorem value?_functor (f : α → β) (x : Reading α) : (f <$> x).value? = x.value?.map f := by
  cases x <;> rfl

@[simp] theorem value?_seq (f : Reading (α → β)) (x : Reading α) :
    (f <*> x).value? = f.value?.bind x.value?.map := by
  cases f <;> cases x <;> rfl

@[simp] theorem value?_under (step : Step) (x : Reading α) : (x.under step).value? = x.value? := by
  cases x <;> rfl

end Reading

/-! ## §2 Coordinates -/

/-- The string of a member. -/
def Json.stringOf? (name : String) (members : List (Str × Json)) : Option Str :=
  (member? name members).bind string?

theorem Reading.value?_field_string (name : String) (members : List (Str × Json)) :
    (field name string members).value? = Json.stringOf? name members := by
  unfold field Json.stringOf?
  cases Json.member? name members with
  | none => rfl
  | some value =>
    rw [value?_under, Option.bind_some]
    cases value <;> rfl

/-- The coordinate that a value stands for: the one that it writes, if it is a string, or else the one that
three of its members make up. -/
def Coordinate.ofJson? (value : Json) : Option Coordinate :=
  match value.string?, value with
  | some s, _ => (parse s).toOption
  | none, .object members => do
    let group ← Json.stringOf? "group" members
    let name ← Json.stringOf? "name" members
    let version ← Json.stringOf? "version" members
    return ⟨group, name, version⟩
  | none, _ => none

namespace Coordinate

variable {value value' : Json}

/-- What is no string stands for the coordinate that is read from it. -/
theorem value?_read (h : value.string? = none) : (read value).value? = ofJson? value := by
  cases value with
  | object members =>
    simp only [read, Reading.object, Reading.value?_seq, Reading.value?_functor,
      Reading.value?_field_string, ofJson?, h]
    cases Json.stringOf? "group" members with
    | none => rfl
    | some group =>
      cases Json.stringOf? "name" members with
      | none => rfl
      | some name => cases Json.stringOf? "version" members <;> rfl
  | string s => cases h
  | _ => rfl

/-- What is no string stands for a coordinate by its canonical text. -/
theorem ofJson?_eq_of_canonicalText (hstring : value.string? = none)
    (h : value.canonicalText = value'.canonicalText) : ofJson? value = ofJson? value' := by
  have hstring' : value'.string? = none := by rw [← Json.string?_eq_of_canonicalText h, hstring]
  by_cases hobject : ∃ members, value = .object members
  · obtain ⟨members, rfl⟩ := hobject
    obtain ⟨members', rfl⟩ := Json.exists_object_of_canonicalText h.symm
    simp only [ofJson?, hstring, hstring', Json.stringOf?, Json.string?_member?_eq h]
  · -- Neither value is a string or an object, so neither stands for a coordinate.
    have hobject' : ¬ ∃ members, value' = .object members := by
      rintro ⟨members, rfl⟩
      exact hobject (Json.exists_object_of_canonicalText h)
    simp only [not_exists] at hobject hobject'
    simp only [ofJson?, hstring, hstring']

/-- A string stands for a coordinate with legible fields. -/
theorem legible_of_ofJson? {c : Coordinate} (hstring : value.string?.isSome = true)
    (h : ofJson? value = some c) : Legible c.fields := by
  obtain ⟨s, hs⟩ := Option.isSome_iff_exists.mp hstring
  simp only [ofJson?, hs, toOption_eq_some_iff] at h
  exact (parse_eq_ok_iff.mp h).1

end Coordinate

/-! ## §3 Dependencies -/

namespace Importer

/-- The value by which a dependency names its target and the one that gives its scope, if one does: the
dependency itself if it is a string, or else two of its members. -/
def parts? (dependency : Json) : Option (Json × Option Json) :=
  if dependency.string?.isSome then some (dependency, none)
  else (dependencyMembers dependency).toOption.map fun members =>
    ((Json.member? "target" members).getD .null, Json.member? "scope" members)

/-- The coordinate of a dependency's target. -/
def target? (dependency : Json) : Option Coordinate := do
  let (value, _) ← parts? dependency
  Coordinate.ofJson? value

/-- The scope that a value gives, if it does, or else the one of a dependency without a scope. -/
def scopeOf? : Option Json → Option Scope
  | none => some .implementation
  | some value => (Scope.read value).value?

/-- The edge that a dependency declares. -/
def edge? (dependency : Json) : Option Edge := do
  let (value, scope) ← parts? dependency
  let target ← Coordinate.ofJson? value
  let scope ← scopeOf? scope
  return ⟨target, scope⟩

/-- The form in which a value names a coordinate, if it does not by a string. -/
def formOf? (value : Json) : Option Str :=
  if value.string?.isSome then none else some value.canonicalText

/-- The form in which a dependency names its target, if it does not by a string. -/
def form? (dependency : Json) : Option Str := do
  let (value, _) ← parts? dependency
  formOf? value

variable {dependency dependency' value value' : Json} {d d' : Declaration} {t t' : Target} {e : Edge}

theorem target?_of_edge? (h : edge? dependency = some e) : target? dependency = some e.target := by
  simp only [edge?, Option.bind_eq_bind, Option.bind_eq_some_iff, Option.pure_def, Option.some.injEq]
    at h
  obtain ⟨part, hparts, target, htarget, scope, -, rfl⟩ := h
  simpa [target?, hparts] using htarget

/-- A declaration takes over the scope and looks at the target only. -/
theorem declaration_eq_ok_iff :
    declaration dependency = .ok d ↔
      ∃ value, parts? dependency = some (value, d.scope) ∧ Target.ofJson value = .ok d.target := by
  obtain ⟨target, scope⟩ := d
  unfold declaration parts?
  split
  · simp [map_eq_ok_iff, and_comm]
  · cases dependencyMembers dependency with
    | error fault => simp [Except.toOption]
    | ok members => simp [Except.toOption, map_eq_ok_iff, and_comm]

/-- The target that a value stands for is the coordinate that it writes, if it is a string, or else the
value itself. -/
theorem ofJson_eq_ok_iff :
    Target.ofJson value = .ok t ↔
      (∃ c, value.string?.isSome = true ∧ Coordinate.ofJson? value = some c ∧ t = .parsed c) ∨
        (value.string? = none ∧ t = .raw value) := by
  unfold Target.ofJson Coordinate.ofJson?
  cases value.string? with
  | none => simp [eq_comm]
  | some s =>
    simp only [toOption_eq_some_iff]
    cases Coordinate.parse s <;> simp [eq_comm]

theorem value?_read_target (h : Target.ofJson value = .ok t) :
    t.read.value? = Coordinate.ofJson? value := by
  obtain ⟨c, -, hc, rfl⟩ | ⟨hstring, rfl⟩ := ofJson_eq_ok_iff.mp h
  · exact hc.symm
  · exact Coordinate.value?_read hstring

theorem value?_read_declaration (h : declaration dependency = .ok d) :
    d.read.value? = edge? dependency := by
  obtain ⟨value, hparts, htarget⟩ := declaration_eq_ok_iff.mp h
  obtain ⟨target, scope⟩ := d
  simp only [Declaration.read, Reading.value?_seq, Reading.value?_functor, Reading.value?_under,
    value?_read_target htarget, edge?, hparts, Option.bind_eq_bind, Option.bind_some]
  cases Coordinate.ofJson? value with
  | none => rfl
  | some c =>
    cases scope with
    | none => rfl
    | some given =>
      rw [Reading.value?_under, scopeOf?]
      cases (Scope.read given).value? <;> rfl

/-- Two declarations have one identity exactly if they name one target in one form. -/
theorem identity_eq_iff (h : Target.ofJson value = .ok t) (h' : Target.ofJson value' = .ok t') :
    t.identity = t'.identity ↔
      Coordinate.ofJson? value = Coordinate.ofJson? value' ∧ formOf? value = formOf? value' := by
  obtain ⟨c, hstring, hc, rfl⟩ | ⟨hstring, rfl⟩ := ofJson_eq_ok_iff.mp h <;>
    obtain ⟨c', hstring', hc', rfl⟩ | ⟨hstring', rfl⟩ := ofJson_eq_ok_iff.mp h'
  · -- Coordinates that strings write differ in their own texts.
    have hinj : c.text = c'.text ↔ c = c' :=
      ⟨Coordinate.eq_of_text_eq (Coordinate.legible_of_ofJson? hstring' hc'), congrArg Coordinate.text⟩
    simp [Target.identity, hc, hc', formOf?, hstring, hstring', hinj]
  · simp [Target.identity, formOf?, hstring, hstring']
  · simp [Target.identity, formOf?, hstring, hstring']
  · simp only [Target.identity, Identity.value.injEq, formOf?, hstring, hstring', Option.isSome_none,
      Bool.false_eq_true, if_false, Option.some.injEq]
    exact ⟨fun h => ⟨Coordinate.ofJson?_eq_of_canonicalText hstring h, h⟩, And.right⟩

theorem key_eq_iff (h : declaration dependency = .ok d) (h' : declaration dependency' = .ok d') :
    (target? dependency, form? dependency) = (target? dependency', form? dependency') ↔
      d.target.identity = d'.target.identity := by
  obtain ⟨value, hparts, htarget⟩ := declaration_eq_ok_iff.mp h
  obtain ⟨value', hparts', htarget'⟩ := declaration_eq_ok_iff.mp h'
  simp only [identity_eq_iff htarget htarget', target?, form?, hparts, hparts', Prod.mk.injEq,
    Option.bind_eq_bind, Option.bind_some]

/-! ## §4 The declarations of an entry -/

/-- The dependencies that an entry declares. -/
def dependencies : Json → List Json
  | .object members =>
    let value := (Json.member? "dependencies" members).getD .null
    if value.isVoid then [] else (elements? value).getD []
  | _ => []

/-- The value that gives the coordinate of an entry. -/
def coordinateValue : Json → Json
  | .object members => (Json.member? "coordinate" members).getD .null
  | _ => .null

theorem firstDeclarations_eq_filter (seen : List Identity) (ds : List Declaration) :
    firstDeclarations seen ds =
      (Ordered.distinctBy (fun d => d.target.identity) ds).filter fun d => d.target.identity ∉ seen := by
  induction ds generalizing seen with
  | nil => rfl
  | cons d ds ih =>
    rw [firstDeclarations, Ordered.distinctBy, List.filter_cons, List.filter_filter]
    split
    · next hseen =>
      -- Nothing that is left has the identity of the one that is dropped.
      rw [if_neg (by simpa using hseen), ih]
      refine List.filter_congr fun d' _ => ?_
      by_cases hsame : d'.target.identity = d.target.identity
      · simp [hsame, hseen]
      · simp [hsame]
    · next hfresh =>
      -- What is seen later on has the identity of this one in addition.
      rw [if_pos (by simpa using hfresh), ih]
      refine congrArg (d :: ·) (List.filter_congr fun d' _ => ?_)
      simp [Bool.and_comm]

/-- The first declaration of each identity is kept. -/
theorem firstDeclarations_nil (ds : List Declaration) :
    firstDeclarations [] ds = Ordered.distinctBy (fun d => d.target.identity) ds := by
  simp [firstDeclarations_eq_filter]

/-- Declarations are read as edges one by one. -/
theorem value?_readDeclarations_eq_some_iff {index : Nat} {ds : List Declaration} {edges : List Edge} :
    (readDeclarations index ds).value? = some edges ↔
      ds.map (fun d => d.read.value?) = edges.map some := by
  induction ds generalizing index edges with
  | nil => cases edges <;> simp [readDeclarations]
  | cons d ds ih =>
    simp only [readDeclarations, Reading.value?_seq, Reading.value?_functor, Reading.value?_under]
    cases edges with
    | nil => simp [Option.bind_eq_some_iff]
    | cons e edges => simp [Option.bind_eq_some_iff, ih]

/-- The members of an artifact are what is read as its coordinate, as its edges and so on. -/
theorem value?_of_readMembers {coordinate : Reading Coordinate} {edges : Reading (List Edge)}
    {members : List (Str × Json)} {a : Artifact}
    (h : Artifact.readMembers coordinate edges members = .ok a) :
    coordinate.value? = some a.coordinate ∧ edges.value? = some a.edges := by
  rw [← Reading.value?_eq_some_iff] at h
  simp only [Artifact.readMembers, Reading.value?_seq, Reading.value?_functor, Reading.value?_under,
    Option.bind_eq_some_iff, Option.map_eq_some_iff] at h
  obtain ⟨_, ⟨_, ⟨_, ⟨_, ⟨_, ⟨c, hc, rfl⟩, _, -, rfl⟩, es, hes, rfl⟩, _, -, rfl⟩, _, -, rfl⟩, _, -, rfl⟩
    := h
  exact ⟨hc, hes⟩

theorem artifact_eq_ok {members : List (Str × Json)} {a : Artifact}
    (h : artifact (.object members) = .ok a) :
    ∃ coordinate ds,
      Target.ofJson ((Json.member? "coordinate" members).getD .null) = .ok coordinate ∧
      declarations ((Json.member? "dependencies" members).getD .null) = .ok ds ∧
      coordinate.read.value? = some a.coordinate ∧ (readDeclarations 0 ds).value? = some a.edges := by
  simp only [artifact] at h
  split at h
  · cases h
  · next coordinate hcoordinate =>
    split at h
    · cases h
    · next ds hds =>
      split at h
      · next hread =>
        cases h
        exact ⟨coordinate, ds, hcoordinate, hds, value?_of_readMembers hread⟩
      · cases h

/-- All dependencies of an entry are declared, and then the first declaration of each identity is kept. -/
theorem declarations_eq_ok {members : List (Str × Json)} {ds : List Declaration}
    (h : declarations ((Json.member? "dependencies" members).getD .null) = .ok ds) :
    ∃ all, List.Forall₂ (fun dependency d => declaration dependency = .ok d)
        (dependencies (.object members)) all ∧
      ds = Ordered.distinctBy (fun d => d.target.identity) all := by
  unfold declarations at h
  simp only [dependencies]
  split at h
  · next hvoid =>
    cases h
    exact ⟨[], by rw [if_pos hvoid]; exact .nil, rfl⟩
  · next hvoid =>
    rw [if_neg hvoid]
    cases hitems : elements? ((Json.member? "dependencies" members).getD .null) with
    | none => simp [hitems] at h
    | some items =>
      simp only [hitems, map_eq_ok_iff, mapM_eq_ok_iff] at h
      obtain ⟨all, hall, rfl⟩ := h
      refine ⟨all, ?_, firstDeclarations_nil all⟩
      rw [← List.forall₂_eq_eq_eq, List.forall₂_map_left_iff, List.forall₂_map_right_iff] at hall
      exact hall

/-- An artifact has the coordinate that its entry gives and an edge for every first dependency on a target
in a form. -/
structure Declares (entry : Json) (a : Artifact) : Prop where
  coordinate : Coordinate.ofJson? (coordinateValue entry) = some a.coordinate
  edges : (Ordered.distinctBy (fun dependency => (target? dependency, form? dependency))
    (dependencies entry)).map edge? = a.edges.map some

theorem declares_of_artifact {entry : Json} {a : Artifact} (h : artifact entry = .ok a) :
    Declares entry a := by
  cases entry with
  | object members =>
    obtain ⟨coordinate, ds, hcoordinate, hds, hread, hedges⟩ := artifact_eq_ok h
    obtain ⟨all, hall, rfl⟩ := declarations_eq_ok hds
    -- The identities tell the declarations apart as targets and forms tell the dependencies apart.
    have hkept := Ordered.forall₂_distinctBy (fun _ _ _ _ h h' => key_eq_iff h h') hall
    refine ⟨by rw [← hread, value?_read_target hcoordinate]; rfl, ?_⟩
    rw [← value?_readDeclarations_eq_some_iff.mp hedges]
    refine Ordered.map_eq_of_forall₂ (fun dependency d h => ?_) hkept
    exact (value?_read_declaration h).symm
  | _ => cases h

namespace Declares

variable {entry : Json} {a : Artifact}

/-- The edges lead to the targets of the dependencies that are kept. -/
theorem map_target? (h : Declares entry a) :
    (Ordered.distinctBy (fun dependency => (target? dependency, form? dependency))
      (dependencies entry)).map target? = (a.edges.map Edge.target).map some := by
  have hlead : ∀ first ∈ Ordered.distinctBy (fun dependency => (target? dependency, form? dependency))
      (dependencies entry), target? first = (edge? first).map Edge.target := by
    intro first hfirst
    have hedge : edge? first ∈ a.edges.map some := h.edges ▸ List.mem_map_of_mem hfirst
    obtain ⟨e, -, he⟩ := List.mem_map.mp hedge
    rw [← he, target?_of_edge? he.symm, Option.map_some]
  rw [List.map_congr_left hlead, ← Function.comp_def (Option.map Edge.target), ← List.map_map, h.edges,
    List.map_map, List.map_map]
  rfl

/-- No target of a dependency is lost. -/
theorem mem_map_target?_iff (h : Declares entry a) {target : Option Coordinate} :
    target ∈ (dependencies entry).map target? ↔ ∃ e ∈ a.edges, some e.target = target := by
  rw [← Ordered.mem_map_distinctBy (fun dependency => (target? dependency, form? dependency))
    fun _ _ hkey => (Prod.mk.inj hkey).1, h.map_target?]
  simp

theorem exists_target (h : Declares entry a) {dependency : Json}
    (hdependency : dependency ∈ dependencies entry) : ∃ c, target? dependency = some c := by
  obtain ⟨e, -, htarget⟩ := h.mem_map_target?_iff.mp (List.mem_map_of_mem hdependency)
  exact ⟨e.target, htarget.symm⟩

end Declares

/-! ## §5 Documents that are accepted -/

variable {importer : Importer} {files : Files} {document entry : Json} {a : Artifact} {k : Catalog}
  {notices : List Notice}

/-- The entries of a document. -/
def entries : Json → List Json
  | .object members =>
    match Json.member? "artifacts" members with
    | some (.array entries) => entries
    | _ => []
  | _ => []

/-- Archives fill in neither coordinates nor edges. -/
theorem declares_of_imported (h : importer.Imported files entry a) : Declares entry a := by
  cases h with
  | silent ha | absent ha => exact declares_of_artifact ha
  | archive ha =>
    obtain ⟨hcoordinate, hedges⟩ := declares_of_artifact ha
    exact ⟨hcoordinate, hedges⟩

/-- A document that has no list of artifacts is refused, and else the catalog is collected from what comes
of its entries. -/
theorem refused_or_importCatalog_eq (document : Json) :
    (entries document = [] ∧ ∃ fault, (fault = .notObject ∨ fault = .noArtifacts) ∧
        ∀ (importer : Importer) files, importer.importCatalog files document = .error fault) ∨
      ∀ (importer : Importer) files, importer.importCatalog files document =
        (importer.importEntries files 0 (entries document)).bind collect := by
  cases document with
  | object members =>
    cases hmember : Json.member? "artifacts" members with
    | none => exact .inl ⟨by simp [entries, hmember], _, .inr rfl, by simp [importCatalog, hmember]⟩
    | some value =>
      cases value with
      | array es =>
        refine .inr fun importer files => ?_
        simp only [importCatalog, entries, hmember]
        cases importer.importEntries files 0 es <;> rfl
      | _ => exact .inl ⟨by simp [entries, hmember], _, .inr rfl, by simp [importCatalog, hmember]⟩
  | _ => exact .inl ⟨rfl, _, .inl rfl, fun _ _ => rfl⟩

/-- A document that is accepted gives an artifact for each of its entries. -/
theorem imported_of_importCatalog (h : importer.importCatalog files document = .ok (k, notices)) :
    List.Forall₂ (importer.Imported files) (entries document) k.artifacts := by
  obtain ⟨-, fault, -, hrefused⟩ | heq := refused_or_importCatalog_eq document
  · cases (hrefused importer files).symm.trans h
  · rw [heq] at h
    obtain ⟨imported, hrow, hall⟩ | ⟨position, fault, hrow⟩ | ⟨p, why, hrow, -⟩ :=
      importEntries_outcome importer files (entries document) 0
    · rw [hrow] at h
      obtain ⟨k', notices', hk, hartifacts⟩ | ⟨c, hc⟩ := collect_outcome imported
      · cases hk.symm.trans h
        rwa [hartifacts]
      · cases hc.symm.trans h
    · rw [hrow] at h
      cases h
    · rw [hrow] at h
      cases h

/-- A document that is accepted gives a catalog of what its entries declare. -/
theorem declares_of_importCatalog (h : importer.importCatalog files document = .ok (k, notices)) :
    List.Forall₂ Declares (entries document) k.artifacts :=
  (imported_of_importCatalog h).imp fun _ _ => declares_of_imported

/-! ## §6 Repeated targets -/

/-- Dependencies on one target name it in one form. -/
def Uniform (dependencies : List Json) : Prop :=
  ∀ dependency ∈ dependencies, ∀ dependency' ∈ dependencies,
    target? dependency = target? dependency' → form? dependency = form? dependency'

instance (dependencies : List Json) : Decidable (Uniform dependencies) :=
  inferInstanceAs (Decidable (∀ _ ∈ dependencies, ∀ _ ∈ dependencies, _ → _))

/-- Edges lead to different targets, and there is one for the first dependency on each. -/
structure FirstOfEach (dependencies : List Json) (edges : List Edge) : Prop where
  nodup : (edges.map Edge.target).Nodup
  first : (Ordered.distinctBy target? dependencies).map edge? = edges.map some

namespace Declares

/-- The edges of an artifact lead to different targets exactly if its dependencies are uniform. -/
theorem nodup_iff (h : Declares entry a) :
    (a.edges.map Edge.target).Nodup ↔ Uniform (dependencies entry) := by
  -- The kept dependencies have no pair of target and form twice, so a target twice means two forms.
  unfold Uniform
  rw [← Ordered.nodup_map_distinctBy_pair_iff, h.map_target?,
    List.nodup_map_iff fun _ _ => Option.some.inj]

theorem firstOfEach_iff (h : Declares entry a) :
    FirstOfEach (dependencies entry) a.edges ↔ Uniform (dependencies entry) := by
  constructor
  · rintro ⟨hnodup, -⟩
    exact h.nodup_iff.mp hnodup
  · intro huniform
    refine ⟨h.nodup_iff.mpr huniform, ?_⟩
    rw [← h.edges]
    refine congrArg _ (Ordered.distinctBy_congr fun d hd d' hd' => ?_)
    rw [Prod.mk.injEq, iff_self_and]
    exact huniform d hd d' hd'

end Declares

/-- In a catalog that is imported every artifact has an edge for every first dependency of its entry on a
target in a form, and all dependencies have targets. These edges are the first ones to each target, and
lead to different targets, exactly if no two dependencies of the entry name one target in different
forms. -/
theorem distinct_targets_iff (h : importer.importCatalog files document = .ok (k, notices)) :
    List.Forall₂ (fun entry a =>
        Declares entry a ∧
        (∀ dependency ∈ dependencies entry, ∃ c, target? dependency = some c) ∧
        ((a.edges.map Edge.target).Nodup ↔ Uniform (dependencies entry)) ∧
        (FirstOfEach (dependencies entry) a.edges ↔ Uniform (dependencies entry)))
      (entries document) k.artifacts :=
  (declares_of_importCatalog h).imp fun _ _ h =>
    ⟨h, fun _ => h.exists_target, h.nodup_iff, h.firstOfEach_iff⟩

/-- A document whose entry depends on one artifact twice, first by a string. -/
def twiceNamed (second : Json) : Json :=
  Json.record [("artifacts", .array [Json.record [("coordinate", .string "g:a:1"),
    ("dependencies", .array [.string "g:b:1", Json.record [("target", second),
      ("scope", .string "api")]])]])]

/-- A target that is named by two strings is kept once. -/
theorem texts_name_target_once :
    ∃ k notices, (⟨none, false⟩ : Importer).importCatalog ⟨[]⟩ (twiceNamed (.string " g:b:1")) =
        .ok (k, notices) ∧
      k.artifacts.map Artifact.edges = [[⟨⟨"g", "b", "1"⟩, .implementation⟩]] ∧
      List.Forall₂ (fun entry a => FirstOfEach (dependencies entry) a.edges)
        (entries (twiceNamed (.string " g:b:1"))) k.artifacts := by
  refine ⟨_, _, rfl, rfl, ?_⟩
  obtain _ | ⟨⟨-, -, -, hfirst⟩, _ | _⟩ := @distinct_targets_iff ⟨none, false⟩ ⟨[]⟩
    (twiceNamed (.string " g:b:1")) _ _ rfl
  exact .cons (hfirst.mpr (by decide)) .nil

/-- A target that is named by a string and by an object is kept twice. -/
theorem text_and_object_repeat_target :
    ∃ k notices, (⟨none, false⟩ : Importer).importCatalog ⟨[]⟩ (twiceNamed (Json.record
          [("group", .string "g"), ("name", .string "b"), ("version", .string "1")])) =
        .ok (k, notices) ∧
      ∃ a ∈ k.artifacts, ¬ (a.edges.map Edge.target).Nodup := by
  refine ⟨_, _, rfl, _, List.mem_singleton.mpr rfl, ?_⟩
  decide

end Importer
end Reconcile
