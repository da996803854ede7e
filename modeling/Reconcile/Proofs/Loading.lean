import Reconcile.Proofs.Archives
import Reconcile.Proofs.Documents
import Reconcile.Proofs.Mismatches
import Reconcile.Proofs.Told

/-!
# What loading a rule set or a catalog tells

A document that was read is refused by a fault of the configuration, but for strings that are no texts and
for a catalog that is no object. A string that is no text escapes where a pattern should stand, and among
the members of a group where it is the first of them that is no pattern.

Layers:
1. Groups that cannot be written out
2. Rule sets
3. Catalogs
4. The loaders
-/

namespace Reconcile

variable {files : Files} {path : Str} {t : Told}

/-! ## §1 Groups -/

section Groups
variable {groups : Table Str (List Str)} {rule : Str} {group : Str}

/-- A group is declared, and its members are patterns. -/
def Group.Known (groups : Table Str (List Str)) (group : Str) : Prop :=
  ∃ targets, groups.get? group = some (WrittenPattern.members targets)

/-- The first member of a group that is no pattern is a string that is no text. -/
def Group.Breaks (members : List Str) : Prop :=
  ∃ front member back, members = front ++ member :: back ∧ member.isText = false ∧
    ∀ earlier ∈ front, ∃ pattern, Pattern.parse earlier = .ok pattern

/-- The first group of some directives that cannot be written out has a member that is no text. -/
def Directive.Breaks (groups : Table Str (List Str)) (ds : List Directive) : Prop :=
  ∃ front group back members, ds = front ++ .removeDependencyGroup group :: back ∧
    (∀ earlier, .removeDependencyGroup earlier ∈ front → Group.Known groups earlier) ∧
    groups.get? group = some members ∧ Group.Breaks members

/-- The first rule that cannot be written out has a group with a member that is no text. -/
def Rule.Breaks (groups : Table Str (List Str)) (rules : List Rule) : Prop :=
  ∃ front r back, rules = front ++ r :: back ∧
    (∀ earlier ∈ front, ∀ group, .removeDependencyGroup group ∈ earlier.directives →
      Group.Known groups group) ∧
    Directive.Breaks groups r.directives

theorem Group.breaks_iff {members : List Str} :
    FailsAs RuleFault.told .unencodable (members.mapM (Directive.ofMember rule group)) ↔
      Group.Breaks members := by
  have hbroken : ∀ member, FailsAs RuleFault.told .unencodable (Directive.ofMember rule group member) ↔
      member.isText = false := by
    intro member
    unfold Directive.ofMember
    cases member.isText with
    | false => simp [RuleFault.told]
    | true => cases WrittenPattern.read member <;> simp [RuleFault.told]
  have hread : ∀ member, (∃ d, Directive.ofMember rule group member = .ok d) ↔
      ∃ pattern, Pattern.parse member = .ok pattern := by
    intro member
    simp only [Directive.ofMember_eq_ok_iff]
    constructor
    · rintro ⟨_, target, rfl, -⟩
      exact ⟨target.pattern, target.writes⟩
    · rintro ⟨pattern, hparse⟩
      exact ⟨_, ⟨member, pattern, hparse⟩, rfl, rfl⟩
  simp only [failsAs_mapM_iff, hbroken, hread]
  constructor
  · rintro ⟨front, member, back, hmembers, hfront, hmember⟩
    exact ⟨front, member, back, hmembers, hmember, hfront⟩
  · rintro ⟨front, member, back, hmembers, hmember, hfront⟩
    exact ⟨front, member, back, hmembers, hfront, hmember⟩

theorem Directive.failsAs_expand_iff {d : Directive} :
    FailsAs RuleFault.told .unencodable (d.expand groups rule) ↔
      ∃ group members, d = .removeDependencyGroup group ∧ groups.get? group = some members ∧
        Group.Breaks members := by
  cases d with
  | removeDependencyGroup group =>
    simp only [expand, Directive.removeDependencyGroup.injEq]
    cases hgroup : groups.get? group with
    | none => simp [RuleFault.told, hgroup]
    | some members =>
      simp only [Group.breaks_iff]
      simp [hgroup]
  | _ => simp [expand]

theorem Directive.exists_expand_iff {d : Directive} :
    (∃ ds, d.expand groups rule = .ok ds) ↔
      ∀ group, d = .removeDependencyGroup group → Group.Known groups group := by
  cases d with
  | removeDependencyGroup group =>
    simp [expand_group_eq_ok_iff, Group.Known]
  | _ => simp [expand]

theorem Directive.breaks_iff {ds : List Directive} :
    FailsAs RuleFault.told .unencodable (ds.mapM (expand groups rule)) ↔
      Directive.Breaks groups ds := by
  simp only [failsAs_mapM_iff, failsAs_expand_iff, exists_expand_iff]
  constructor
  · rintro ⟨front, _, back, hds, hfront, group, members, rfl, hgroup, h⟩
    exact ⟨front, group, back, members, hds, fun earlier he => hfront _ he _ rfl, hgroup, h⟩
  · rintro ⟨front, group, back, members, hds, hfront, hgroup, h⟩
    exact ⟨front, _, back, hds, fun _ hd earlier he => hfront earlier (he ▸ hd), group, members, rfl,
      hgroup, h⟩

theorem Rule.breaks_iff {rules : List Rule} :
    FailsAs RuleFault.told .unencodable (rules.mapM (Rule.expand groups)) ↔
      Rule.Breaks groups rules := by
  have hbreaks : ∀ r : Rule, FailsAs RuleFault.told .unencodable (r.expand groups) ↔
      Directive.Breaks groups r.directives := by
    intro r
    rw [← @Directive.breaks_iff groups r.target.text]
    unfold expand
    cases r.directives.mapM (Directive.expand groups r.target.text) <;> simp
  simp only [failsAs_mapM_iff, hbreaks, exists_expand_iff]
  rfl

end Groups

theorem Rule.told_of_claimHosts {hosts : Table Key Rule} {ms : List (Rule × WrittenPattern)}
    {fault : RuleFault} (h : Rule.claimHosts hosts ms = .error fault) :
    fault.told = .configuration := by
  fun_induction Rule.claimHosts hosts ms with
  | case1 => cases h
  | case2 | case5 =>
    cases h
    rfl
  | case3 _ _ _ _ _ _ ih => exact ih h
  | case4 _ _ _ _ _ _ _ _ ih => exact ih h

/-- What rules are refused for together is told as a fault of the configuration. -/
theorem Rule.told_of_conflict {rules : List Rule} {fault : RuleFault}
    (h : Rule.conflict? rules = some fault) : fault.told = .configuration := by
  rcases Option.or_eq_some_iff.mp h with h | ⟨-, h⟩
  · -- Directives for one coordinate that do not go together.
    obtain ⟨r, -, hr⟩ := List.exists_of_findSome?_eq_some h
    obtain ⟨bucket, -, hbucket⟩ := List.exists_of_findSome?_eq_some hr
    unfold bucketConflict? at hbucket
    split at hbucket
    · cases hbucket
    · simp only at hbucket
      split at hbucket
      · cases hbucket
        rfl
      · split at hbucket <;> cases hbucket
        rfl
  · -- Merges that do not go together.
    unfold mergeConflict? at h
    split at h
    · next hclaim =>
      cases h
      exact told_of_claimHosts hclaim
    · obtain ⟨⟨key, host⟩, -, hhost⟩ := List.exists_of_findSome?_eq_some h
      obtain ⟨r, -, rfl⟩ := Option.map_eq_some_iff.mp hhost
      rfl

/-! ## §2 Rule sets -/

namespace RuleSet

/-- Rules that are refused have a group with a member that is no text, or are told to be at fault. -/
theorem failsAs_ofConfig_iff {config : RuleConfig} (ht : t ≠ .configuration) :
    FailsAs RuleFault.told t (ofConfig config) ↔
      t = .unencodable ∧ Rule.Breaks config.groups config.rules := by
  have hmembers : ∀ fault : RuleFault, fault.told ≠ .configuration → fault.told = .unencodable := by
    intro fault
    cases fault <;> simp [RuleFault.told]
  have hexpand : FailsAs RuleFault.told t (ofConfig config) ↔
      FailsAs RuleFault.told t (config.rules.mapM (Rule.expand config.groups)) := by
    unfold ofConfig
    split
    · next hfault => simp [hfault]
    · next hrules =>
      rw [hrules]
      split
      · next hconflict =>
        simp [Rule.told_of_conflict hconflict, ht.symm]
      · simp
  rw [hexpand, ← Rule.breaks_iff]
  constructor
  · rintro ⟨fault, hfault, rfl⟩
    have htold := hmembers fault ht
    exact ⟨htold, fault, hfault, htold⟩
  · rintro ⟨rfl, h⟩
    exact h

/-- What is wrong with a document and is not told as a fault of the configuration. -/
inductive Escapes (document : Json) : Told → Prop where
  /-- A string that is no text stands where a pattern should. -/
  | pattern (h : RuleConfig.BreaksPattern document) : Escapes document .unencodable
  /-- A string that is no text stands among the members of a group that a rule names. -/
  | member {config : RuleConfig} (hread : RuleConfig.read .value document = .ok config)
      (h : Rule.Breaks config.groups config.rules) : Escapes document .unencodable

theorem failsAs_ofJson_iff {document : Json} (ht : t ≠ .configuration) :
    FailsAs RuleSetFault.told t (ofJson document) ↔ Escapes document t := by
  have hpattern := @RuleConfig.tells_read .value document
  unfold ofJson ofDocument
  split
  · next details hread =>
    have hnone : ∀ config, RuleConfig.read .value document ≠ .ok config := by
      rw [hread]
      exact fun _ => nofun
    rw [hread] at hpattern
    rw [failsAs_error]
    obtain ⟨htells, hfault⟩ | ⟨hnot, hfault⟩ := RuleSetFault.ofDetails_cases details
    · -- A broken pattern is told in the place of all other details.
      rw [hfault]
      constructor
      · rintro rfl
        exact .pattern (hpattern.mp htells)
      · rintro (_ | _) <;> rfl
    · rw [hfault]
      constructor
      · intro htold
        exact absurd htold.symm ht
      · rintro (h | ⟨hread, -⟩)
        · exact absurd (hpattern.mpr h) hnot
        · exact absurd hread (hnone _)
  · -- The document has the form of a rule set, so it is up to its groups.
    next config hread =>
    rw [hread] at hpattern
    have hrules : FailsAs RuleFault.told t (ofConfig config) ↔ Escapes document t := by
      rw [failsAs_ofConfig_iff ht]
      constructor
      · rintro ⟨rfl, h⟩
        exact .member hread h
      · rintro (h | ⟨hother, h⟩)
        · exact absurd (hpattern.mpr h) (Reading.tells_ok config)
        · rw [hread] at hother
          cases hother
          exact ⟨rfl, h⟩
    rw [← hrules]
    cases ofConfig config <;> simp [RuleSetFault.told]

theorem failsAs_load_iff (ht : t ≠ .configuration) :
    FailsAs LoadFault.told t (load files path) ↔ files.LoadEscapes path Escapes t := by
  apply Files.failsAs_load_iff ht
  · intro fault hread
    simp only [load, hread, failsAs_error, LoadFault.told]
  · intro document hread
    rw [← failsAs_ofJson_iff ht]
    unfold load
    cases hjson : ofJson document <;> simp [hread, hjson, LoadFault.told]

end RuleSet

/-! ## §3 Catalogs -/

namespace Importer

variable {base : Option Path} {entries : List Json}

/-- An importer that consults no archives is not stopped by any. -/
theorem not_stopsIn_silent {p : Path} {why : FileFault} :
    ¬ (⟨base, false⟩ : Importer).StopsIn files p why entries := by
  intro h
  induction h with
  | here hstops =>
    obtain ⟨-, hpath, -⟩ := hstops
    cases hpath
  | later _ _ ih => exact ih

/-- The document of a catalog that is no object has no members to ask for. -/
inductive Escapes (document : Json) : Told → Prop where
  | notObject (h : ∀ members, document ≠ .object members) : Escapes document .memberless

theorem contained_importCatalog (members : List (Str × Json)) :
    Contained ImportFault.told
      ((⟨base, false⟩ : Importer).importCatalog files (.object members)) := by
  have hfault : ∀ fault : ImportFault, fault.told = .configuration →
      Contained ImportFault.told (.error fault : Except ImportFault (Catalog × List Notice)) :=
    fun fault h => .inr ⟨fault, rfl, h⟩
  simp only [importCatalog]
  split
  · next entries _ =>
    obtain ⟨imported, hrow, -⟩ | ⟨position, fault, hrow⟩ | ⟨p, why, -, hstops⟩ :=
      importEntries_outcome ⟨base, false⟩ files entries 0
    · -- All entries are imported, and the catalog is made of them unless one comes twice.
      rw [hrow]
      obtain ⟨k, notices, hk, -⟩ | ⟨c, hc⟩ := collect_outcome imported
      · exact .inl ⟨_, hk⟩
      · simp only [hc]
        exact hfault _ rfl
    · rw [hrow]
      exact hfault _ rfl
    · exact absurd hstops not_stopsIn_silent
  · exact hfault _ rfl

theorem failsAs_importCatalog_iff {document : Json} (ht : t ≠ .configuration) :
    FailsAs ImportFault.told t ((⟨base, false⟩ : Importer).importCatalog files document) ↔
      Escapes document t := by
  constructor
  · intro h
    cases document with
    | object members => exact absurd h (contained_iff.mp (contained_importCatalog members) t ht)
    | _ =>
      cases failsAs_error.mp h
      exact .notObject nofun
  · rintro ⟨hnone⟩
    unfold importCatalog
    split
    · exact absurd rfl (hnone _)
    · exact failsAs_error.mpr rfl

theorem failsAs_importFile_iff (ht : t ≠ .configuration) :
    FailsAs ImportFault.told t ((⟨base, false⟩ : Importer).importFile files path).2 ↔
      files.LoadEscapes path Escapes t := by
  apply Files.failsAs_load_iff ht
  · intro fault hread
    simp only [importFile, hread, failsAs_error, ImportFault.told]
  · intro document hread
    simp only [importFile, hread]
    exact failsAs_importCatalog_iff ht

end Importer

/-! ## §4 The loaders -/

/-- Loading a rule set, or a catalog without archives, gives it or fails by a fault of the configuration,
exactly if nothing escapes: the path can be written in bytes, none of which is one that no name can hold,
the bytes behind it are a text, which neither has a number of more than 4300 digits nor nests too deep, no
string that is no text stands where a pattern is needed, and the document of a catalog is an object. A
catalog may have coordinates that are no texts. -/
theorem loaders_contained_iff (files : Files) (path : Str) (base : Option Path) :
    (Contained LoadFault.told (RuleSet.load files path) ↔
        ∀ t, ¬ files.LoadEscapes path RuleSet.Escapes t) ∧
      (Contained ImportFault.told ((⟨base, false⟩ : Importer).importFile files path).2 ↔
        ∀ t, ¬ files.LoadEscapes path Importer.Escapes t) ∧
      ∀ t, t ≠ .configuration →
        (FailsAs LoadFault.told t (RuleSet.load files path) ↔
            files.LoadEscapes path RuleSet.Escapes t) ∧
          (FailsAs ImportFault.told t ((⟨base, false⟩ : Importer).importFile files path).2 ↔
            files.LoadEscapes path Importer.Escapes t) := by
  refine ⟨?_, ?_, fun t ht => ⟨RuleSet.failsAs_load_iff ht, Importer.failsAs_importFile_iff ht⟩⟩
  · exact Files.contained_load_iff (fun h => by cases h <;> nofun) RuleSet.failsAs_load_iff
  · exact Files.contained_load_iff (fun h => by cases h; nofun) Importer.failsAs_importFile_iff

/-- A file with a byte that starts no character, and one with an empty array, are not told as faults of the
configuration. -/
theorem byte_and_array_escape :
    ¬ Contained LoadFault.told
        (RuleSet.load ⟨[(.ofText "r.json", .file [0xFF])]⟩ "r.json") ∧
      ¬ Contained ImportFault.told
        ((⟨none, false⟩ : Importer).importFile
          ⟨[(.ofText "c.json", .file [0x5B, 0x5D])]⟩ "c.json").2 := by
  have hload : RuleSet.load ⟨[(.ofText "r.json", .file [0xFF])]⟩ "r.json" =
      .error (.document "r.json" (.file .notText)) := rfl
  have himport : ((⟨none, false⟩ : Importer).importFile
      ⟨[(.ofText "c.json", .file [0x5B, 0x5D])]⟩ "c.json").2 = .error .notObject := rfl
  rw [hload, himport, contained_iff, contained_iff]
  refine ⟨fun h => ?_, fun h => ?_⟩
  · exact h .undecodable nofun ⟨_, rfl, rfl⟩
  · exact h .memberless nofun ⟨_, rfl, rfl⟩

end Reconcile
