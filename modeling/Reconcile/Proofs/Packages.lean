import Reconcile.Archive.Summary
import Reconcile.Proofs.Ordered
import Reconcile.Proofs.Strings

/-!
# The packages of an archive

The packages that are told of an archive are the directories of its class files, outside the directory of
the manifest and below the top, with dots for slashes. Two kinds of class files should not make a package
and do. One stands behind a single slash at the start of its name, so its directory has the empty name. The
other is a module descriptor that lies below the top.

Layers:
1. What stands before the last separator
2. Class files
3. Packages
-/

namespace Reconcile

/-! ## §1 What stands before the last separator -/

namespace Text

variable {α : Type} [DecidableEq α] {separator : α} {as before after : List α}

theorem beforeLast_eq_none_iff : beforeLast separator as = none ↔ separator ∉ as := by
  induction as with
  | nil => simp [beforeLast]
  | cons a as ih =>
    rw [beforeLast, List.mem_cons, not_or, ← ih]
    cases beforeLast separator as with
    | some before => simp
    | none => simp [eq_comm]

theorem beforeLast_append (hafter : separator ∉ after) (before : List α) :
    beforeLast separator (before ++ separator :: after) = some before := by
  induction before with
  | nil => simp [beforeLast, beforeLast_eq_none_iff.mpr hafter]
  | cons a before ih => rw [List.cons_append, beforeLast, ih]

/-- What stands before the last separator leaves none behind it. -/
theorem beforeLast_eq_some_iff : beforeLast separator as = some before ↔
    ∃ after, as = before ++ separator :: after ∧ separator ∉ after := by
  constructor
  · intro h
    induction as generalizing before with
    | nil => cases h
    | cons a as ih =>
      rw [beforeLast] at h
      cases hrest : beforeLast separator as with
      | some front =>
        simp only [hrest, Option.some.injEq] at h
        subst h
        obtain ⟨after, rfl, hafter⟩ := ih hrest
        exact ⟨after, rfl, hafter⟩
      | none =>
        simp only [hrest] at h
        split at h
        · next ha =>
          cases h
          exact ⟨as, by rw [ha, List.nil_append], beforeLast_eq_none_iff.mp hrest⟩
        · cases h
  · rintro ⟨after, rfl, hafter⟩
    exact beforeLast_append hafter before

/-- An end without a separator is the end of what stands behind the separator. -/
theorem suffix_of_suffix_append {β : Type} {mark : β} {ending before after : List β}
    (hending : mark ∉ ending) (h : ending <:+ before ++ mark :: after) : ending <:+ after := by
  have hwhole : mark :: after <:+ before ++ mark :: after := List.suffix_append _ _
  -- The end begins behind the mark, or it has the mark within.
  rcases List.suffix_or_suffix_of_suffix h hwhole with hshort | hlong
  · rcases List.suffix_cons_iff.mp hshort with rfl | hafter
    · exact absurd List.mem_cons_self hending
    · exact hafter
  · exact absurd (hlong.subset List.mem_cons_self) hending

end Text

namespace Archive

/-! ## §2 Class files -/

/-- A name is one of a class file in a directory, and not below the directory of the manifest. -/
structure ClassFile (name directory file : List Char) : Prop where
  path : name = directory ++ '/' :: file
  flat : '/' ∉ file
  compiled : ".class".toList <:+ file
  outside : ¬ metaDirectory <+: name

/-- A name is one of a class file in one directory only. -/
theorem ClassFile.unique {name directory directory' file file' : List Char}
    (h : ClassFile name directory file) (h' : ClassFile name directory' file') :
    directory = directory' ∧ file = file' := by
  have hlast := Text.beforeLast_append h.flat directory
  have hlast' := Text.beforeLast_append h'.flat directory'
  rw [← h.path] at hlast
  rw [← h'.path, hlast, Option.some.injEq] at hlast'
  subst hlast'
  have hsame := h.path.symm.trans h'.path
  rw [List.append_cancel_left_eq, List.cons.injEq] at hsame
  exact ⟨rfl, hsame.2⟩

/-- A directory with dots for slashes, which is what its package is called. -/
def dotted (directory : List Char) : List Char := directory.map fun c => if c = '/' then '.' else c

/-- No class file is one of the module descriptors that are told apart, which are at the top or below the
directory of the manifest. -/
theorem ClassFile.isModuleInfo {name directory file : List Char} (h : ClassFile name directory file) :
    isModuleInfo name = false := by
  have hnested : name ≠ moduleInfo := by
    rintro rfl
    have hslash : '/' ∈ moduleInfo := by simp [h.path]
    exact absurd hslash (by decide)
  have hversions : ¬ "META-INF/versions/".toList <+: name := fun hprefix =>
    h.outside (List.IsPrefix.trans (by decide) hprefix)
  rw [Archive.isModuleInfo, Bool.or_eq_false_iff, Bool.and_eq_false_iff, beq_eq_false_iff_ne]
  refine ⟨hnested, .inl ?_⟩
  rwa [← Bool.not_eq_true, List.isPrefixOf_iff_prefix]

theorem ClassFile.suffix {name directory file : List Char} (h : ClassFile name directory file) :
    ".class".toList <:+ name := by
  rw [h.path]
  exact h.compiled.trans ((List.suffix_cons '/' file).trans (List.suffix_append directory _))

/-- Which names are not left out when packages are collected. -/
theorem counts_iff {name : List Char} :
    ¬ (isModuleInfo name || !".class".toList.isSuffixOf name || metaDirectory.isPrefixOf name) = true ↔
      isModuleInfo name = false ∧ ".class".toList <:+ name ∧ ¬ metaDirectory <+: name := by
  simp only [Bool.or_eq_true, Bool.not_eq_true', not_or, Bool.not_eq_true, Bool.not_eq_false,
    List.isSuffixOf_iff_suffix, ← List.isPrefixOf_iff_prefix, and_assoc]

/-- An entry makes a package exactly if it is a class file, and then the package of its directory. -/
theorem packageOf?_eq_some_iff {name package : List Char} :
    packageOf? name = some package ↔
      ∃ directory file, ClassFile name directory file ∧ package = dotted directory := by
  unfold packageOf?
  constructor
  · intro h
    split at h
    · cases h
    · next hcounts =>
      obtain ⟨-, hcompiled, houtside⟩ := counts_iff.mp hcounts
      obtain ⟨directory, hdirectory, rfl⟩ := Option.map_eq_some_iff.mp h
      obtain ⟨file, rfl, hflat⟩ := Text.beforeLast_eq_some_iff.mp hdirectory
      have hfile := Text.suffix_of_suffix_append (by decide) hcompiled
      exact ⟨directory, file, ⟨rfl, hflat, hfile, houtside⟩, rfl⟩
  · rintro ⟨directory, file, h, rfl⟩
    rw [if_neg (counts_iff.mpr ⟨h.isModuleInfo, h.suffix, h.outside⟩), h.path,
      Text.beforeLast_append h.flat]
    rfl

/-! ## §3 Packages -/

variable {entries : List Entry} {directory : List Char}

/-- A directory of an archive that holds a class file. -/
def HasClasses (entries : List Entry) (directory : List Char) : Prop :=
  ∃ e ∈ entries, ∃ file, ClassFile (nameOf e) directory file

/-- A directory with a name that holds a class file other than a module descriptor. -/
def HasPackage (entries : List Entry) (directory : List Char) : Prop :=
  directory ≠ [] ∧ ∃ e ∈ entries, ∃ file, ClassFile (nameOf e) directory file ∧ file ≠ moduleInfo

/-- The packages that are told are those of the directories with a name that hold class files other than
module descriptors, and none of them is without a name. -/
structure TellsPackages (entries : List Entry) : Prop where
  told : ∀ p, p ∈ (summary entries).packages ↔
    ∃ directory, HasPackage entries directory ∧ p = Str.ofChars (dotted directory)
  named : ("" : Str) ∉ (summary entries).packages

theorem HasPackage.hasClasses (h : HasPackage entries directory) : HasClasses entries directory := by
  obtain ⟨-, e, he, file, hfile, -⟩ := h
  exact ⟨e, he, file, hfile⟩

/-- What holds class files but makes no package is without a name or holds module descriptors only. -/
theorem HasClasses.hasPackage_or (h : HasClasses entries directory) :
    HasPackage entries directory ∨ directory = [] ∨
      ∃ e ∈ entries, ClassFile (nameOf e) directory moduleInfo := by
  obtain ⟨e, he, file, hfile⟩ := h
  by_cases hempty : directory = []
  · exact .inr (.inl hempty)
  · by_cases hinfo : file = moduleInfo
    · exact .inr (.inr ⟨e, he, hinfo ▸ hfile⟩)
    · exact .inl ⟨hempty, e, he, file, hfile, hinfo⟩

/-- The packages that are told are those of all directories that hold class files. -/
theorem mem_packages_iff {p : Str} : p ∈ (summary entries).packages ↔
    ∃ directory, HasClasses entries directory ∧ p = Str.ofChars (dotted directory) := by
  simp only [summary, Ordered.mem_ofList, List.mem_filterMap, Option.map_eq_some_iff,
    packageOf?_eq_some_iff, HasClasses]
  constructor
  · rintro ⟨e, he, _, ⟨directory, file, hfile, rfl⟩, rfl⟩
    exact ⟨directory, ⟨e, he, file, hfile⟩, rfl⟩
  · rintro ⟨directory, ⟨e, he, file, hfile⟩, rfl⟩
    exact ⟨e, he, _, ⟨directory, file, hfile, rfl⟩, rfl⟩

/-- Only the directory without a name makes the package without a name. -/
theorem ofChars_dotted_eq_empty_iff : Str.ofChars (dotted directory) = "" ↔ directory = [] := by
  rw [← List.map_eq_nil_iff (f := fun c => if c = '/' then '.' else c)]
  exact Str.ofChars_injective.eq_iff (b := [])

theorem unnamed_mem_packages_iff : ("" : Str) ∈ (summary entries).packages ↔ HasClasses entries [] := by
  rw [mem_packages_iff]
  constructor
  · rintro ⟨directory, hclasses, hempty⟩
    rwa [← ofChars_dotted_eq_empty_iff.mp hempty.symm]
  · exact fun hclasses => ⟨[], hclasses, rfl⟩

/-- The packages that are told of an archive are those of the directories that hold class files. These are
the directories with a name that hold class files other than module descriptors exactly if no class file
stands behind a single slash at the start, and for every module descriptor below the top there is another
class file in its package. -/
theorem packages_exact_iff (entries : List Entry) :
    (∀ p, p ∈ (summary entries).packages ↔
        ∃ directory, HasClasses entries directory ∧ p = Str.ofChars (dotted directory)) ∧
      (TellsPackages entries ↔ ¬ HasClasses entries [] ∧
        ∀ e ∈ entries, ∀ directory, ClassFile (nameOf e) directory moduleInfo →
          ∃ directory', HasPackage entries directory' ∧ dotted directory' = dotted directory) := by
  refine ⟨fun p => mem_packages_iff, ?_, ?_⟩
  · -- A module descriptor's directory is told as well, so another class file has to account for it.
    rintro ⟨htells, hnamed⟩
    refine ⟨fun hroot => hnamed (unnamed_mem_packages_iff.mpr hroot), fun e he directory hfile => ?_⟩
    have htold := mem_packages_iff.mpr ⟨directory, ⟨e, he, moduleInfo, hfile⟩, rfl⟩
    obtain ⟨directory', hpackage, hsame⟩ := (htells _).mp htold
    exact ⟨directory', hpackage, (Str.ofChars_injective hsame).symm⟩
  · rintro ⟨hroot, hdescriptors⟩
    refine ⟨fun p => ?_, fun htold => hroot (unnamed_mem_packages_iff.mp htold)⟩
    rw [mem_packages_iff]
    constructor
    · rintro ⟨directory, hclasses, rfl⟩
      obtain hpackage | rfl | ⟨e, he, hfile⟩ := hclasses.hasPackage_or
      · exact ⟨directory, hpackage, rfl⟩
      · exact absurd hclasses hroot
      · obtain ⟨directory', hpackage, hsame⟩ := hdescriptors e he directory hfile
        exact ⟨directory', hpackage, by rw [hsame]⟩
    · rintro ⟨directory, hpackage, rfl⟩
      exact ⟨directory, hpackage.hasClasses, rfl⟩

/-- A class file behind a single slash makes a package without a name, and a module descriptor below the
top makes one of its directory. -/
theorem stray_packages_told :
    ¬ TellsPackages [{ name := "/Main.class" }] ∧
      ¬ TellsPackages [{ name := "app/module-info.class" }] := by
  constructor
  · intro h
    exact h.named (by decide)
  · intro h
    have htold : ("app" : Str) ∈ (summary [{ name := "app/module-info.class" }]).packages := by decide
    obtain ⟨directory, ⟨-, e, he, file, hfile, hother⟩, -⟩ := (h.told "app").mp htold
    obtain rfl := List.mem_singleton.mp he
    -- The only file of the only directory is the descriptor, which does not account for the package.
    have hdescriptor : ClassFile (nameOf { name := "app/module-info.class" }) "app".toList moduleInfo :=
      ⟨rfl, by decide, by decide, by decide⟩
    exact hother (hfile.unique hdescriptor).2

end Archive
end Reconcile
