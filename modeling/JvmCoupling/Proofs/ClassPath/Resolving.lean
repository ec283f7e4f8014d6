import JvmCoupling.ClassPath.Resolve
import JvmCoupling.Proofs.Analysis.Shared
import JvmCoupling.Proofs.Storage.Places
import JvmCoupling.Proofs.Text.Trimming
import Mathlib

/-! # What a class path resolves to

Each field of a class path stands for entries of its own, whatever the other fields are; only the entries that were
listed before are left out.  So resolving takes class paths that are joined by a separator to entries that are joined
without repetition.

* `IsField`, `mem_fields` — the segments of a class path without the blanks around them;
* `IsWildcard`, `IsJarOf` — the fields that name a directory, and the archives there;
* `mem_resolve` — the entries of a class path;
* `resolve_homomorphism` — joined class paths, and the order of the archives of a wildcard.
-/

namespace JvmCoupling

theorem Text.mem_asciiLower {b : UInt8} {s : Bytes} (same : asciiLower [b] = [b]) (member : b ∈ s) :
    b ∈ asciiLower s := by
  obtain ⟨front, back, rfl⟩ := List.append_of_mem member
  have parts : asciiLower (front ++ b :: back) = asciiLower front ++ (asciiLower [b] ++ asciiLower back) := by
    simp [asciiLower]
  simp [parts, same]

namespace ClassPath

open Bytes (Segment)

variable {t : Tree} {a front segment back field directory entry name : Bytes} {entries : List (Bytes × Node)}

/-! ## Fields -/

/-- A field of a class path: a segment without the blanks around it, if anything is left of it. -/
def IsField (classPath field : Bytes) : Prop :=
  ∃ front segment back, classPath = front ++ segment ++ back ∧ Segment isSeparator front segment back ∧
    Text.Trims segment field ∧ field ≠ []

theorem fields_nil : fields [] = [] := by decide

theorem fields_append_cons {s : UInt8} (separator : isSeparator s = true) (a b : Bytes) :
    fields (a ++ s :: b) = fields a ++ fields b := by
  simp only [fields, Bytes.piecesBy_append_cons separator, List.map_append, List.filter_append]

theorem fields_segment (cut : Segment isSeparator front segment back) :
    fields (front ++ segment ++ back) = fields front ++ fields segment ++ fields back := by
  -- The separator at the end of `front`, or at the start of `back`, adds an empty segment, which is no field.
  have behind (rest : Bytes) : fields (front ++ rest) = fields front ++ fields rest := by
    rcases List.eq_nil_or_concat' front with rfl | ⟨init, b, rfl⟩
    · rw [fields_nil, List.nil_append, List.nil_append]
    · have separator : isSeparator b = true := cut.before b (by simp)
      rw [fields_append_cons separator, fields_nil, List.append_nil, List.append_assoc, List.singleton_append,
        fields_append_cons separator]
  have ahead (rest : Bytes) : fields (rest ++ back) = fields rest ++ fields back := by
    cases back with
    | nil => simp [fields_nil]
    | cons b back =>
      have separator : isSeparator b = true := cut.after b rfl
      have alone := fields_append_cons separator [] back
      rw [List.nil_append, fields_nil, List.nil_append] at alone
      rw [alone, fields_append_cons separator]
  rw [ahead, behind]

theorem fields_of_trims (uncut : ∀ b ∈ segment, isSeparator b = false) (trims : Text.Trims segment field) :
    fields segment = if field = [] then [] else [field] := by
  obtain rfl := Text.trims_iff.mp trims
  rw [fields, Bytes.piecesBy_eq_singleton uncut]
  split <;> simp [*]

theorem mem_fields : field ∈ fields a ↔ IsField a field := by
  constructor
  · intro member
    simp only [fields, List.mem_filter, List.mem_map, decide_eq_true_eq] at member
    obtain ⟨⟨segment, among, rfl⟩, nonempty⟩ := member
    obtain ⟨front, back, rfl, cut⟩ := Bytes.exists_segment_of_mem_piecesBy among
    exact ⟨front, segment, back, rfl, cut, Text.trims_iff.mpr rfl, nonempty⟩
  · rintro ⟨front, segment, back, rfl, cut, trims, nonempty⟩
    rw [fields_segment cut, fields_of_trims cut.uncut trims, if_neg nonempty]
    simp

/-! ## Wildcards and archives -/

/-- A wildcard field and the directory that it names. -/
def IsWildcard (field directory : Bytes) : Prop :=
  field = utf8 "*" ∧ directory = Path.here ∨ field = directory ++ utf8 "/*"

/-- A wildcard whose directory can be listed. -/
def Readable (t : Tree) (field : Bytes) : Prop :=
  ∃ directory entries, IsWildcard field directory ∧ t.listDirectory directory = .ok entries

/-- An entry of a directory that is no directory itself and whose name ends in `.jar`, in any letter case. -/
def IsJarOf (t : Tree) (directory name : Bytes) : Prop :=
  ∃ entries node extension, t.listDirectory directory = .ok entries ∧ (name, node) ∈ entries ∧
    node.isDirectory = false ∧ extension <:+ name ∧ Text.asciiLower extension = utf8 ".jar"

theorem wildcardDirectory?_eq_some : wildcardDirectory? field = some directory ↔ IsWildcard field directory := by
  have two : (utf8 "/*").length = 2 := by decide
  unfold wildcardDirectory? IsWildcard
  split
  · next lone =>
    have short : utf8 "*" ≠ directory ++ utf8 "/*" := by
      intro same
      have shorter := congrArg List.length same
      rw [List.length_append, two, show (utf8 "*").length = 1 by decide] at shorter
      omega
    simp [lone, short, eq_comm]
  · next long =>
    simp only [long, false_and, false_or, List.isSuffixOf_iff_suffix]
    constructor
    · intro named
      split at named
      · next ends =>
        obtain ⟨front, rfl⟩ := ends
        cases named
        simp [two]
      · cases named
    · rintro rfl
      rw [if_pos (List.suffix_append _ _)]
      simp [two]

theorem IsWildcard.directory_eq {other : Bytes} (wildcard : IsWildcard field directory)
    (again : IsWildcard field other) : other = directory := by
  rw [← wildcardDirectory?_eq_some] at wildcard again
  exact Option.some.inj (again.symm.trans wildcard)

theorem IsWildcard.ne_nil (wildcard : IsWildcard field directory) : field ≠ [] := by
  rcases wildcard with ⟨rfl, -⟩ | rfl
  · decide
  · exact List.append_ne_nil_of_right_ne_nil _ (by decide)

theorem isJar_iff : isJar name = true ↔ ∃ extension, extension <:+ name ∧ Text.asciiLower extension = utf8 ".jar" := by
  rw [isJar, decide_eq_true_eq]
  constructor
  · intro jar
    exact ⟨Path.extension name, Path.extension_suffix name, jar⟩
  · rintro ⟨extension, ⟨stem, rfl⟩, jar⟩
    have letters : utf8 ".jar" = Bytes.dot :: utf8 "jar" := by decide
    rw [letters] at jar ⊢
    obtain ⟨first, rest, rfl, lowered, rested⟩ := List.map_eq_cons_iff.mp jar
    -- A dot is the lower case of no letter, so this one is the last dot of the name, with no slash behind it.
    obtain rfl : first = Bytes.dot := by
      split at lowered
      · next upper =>
        have value := congrArg UInt8.toNat lowered
        simp only [Bool.and_eq_true, decide_eq_true_eq, UInt8.le_iff_toNat_le, UInt8.toNat_add, UInt8.reduceToNat,
          Bytes.dot] at upper value
        omega
      · exact lowered
    have absent {b : UInt8} (same : Text.asciiLower [b] = [b]) (other : b ∉ utf8 "jar") : b ∉ rest :=
      fun member => other (rested.subst (Text.mem_asciiLower same member))
    have noSlash : Bytes.slash ∉ rest := absent rfl (by decide)
    have noDot : Bytes.dot ∉ rest := absent rfl (by decide)
    rw [Path.extension_append_dot noSlash noDot, jar]

theorem IsJarOf.name_ne_nil (jar : IsJarOf t directory name) : name ≠ [] := by
  obtain ⟨entries, node, extension, -, -, -, ends, lower⟩ := jar
  rintro rfl
  rw [List.suffix_nil.mp ends] at lower
  exact absurd lower (by decide)

/-- The names of the archives among the entries of a directory, as they are listed. -/
def jarNames (entries : List (Bytes × Node)) : List Bytes :=
  (entries.filter fun (name, node) => !node.isDirectory && isJar name).map Prod.fst

theorem jarsOf_eq_map (directory : Bytes) (entries : List (Bytes × Node)) :
    jarsOf directory entries = (jarNames entries).map (Path.join directory) := by
  rw [jarNames, List.map_map]
  rfl

theorem mem_jarNames (listed : t.listDirectory directory = .ok entries) :
    name ∈ jarNames entries ↔ IsJarOf t directory name := by
  simp only [jarNames, IsJarOf, listed, List.mem_map, List.mem_filter, Prod.exists, Bool.and_eq_true, isJar_iff]
  constructor
  · rintro ⟨name, node, ⟨member, file, extension, ends, jar⟩, rfl⟩
    exact ⟨entries, node, extension, rfl, member, by simpa using file, ends, jar⟩
  · rintro ⟨_, node, extension, ⟨⟩, member, file, ends, jar⟩
    exact ⟨name, node, ⟨member, by simpa using file, extension, ends, jar⟩, rfl⟩

/-! ## Entries -/

theorem expand_of_not_readable (unreadable : ¬ Readable t field) : expand t field = [field] := by
  unfold expand
  split
  · rfl
  · next directory wildcard =>
    split
    · next entries listed =>
      exact absurd ⟨directory, entries, wildcardDirectory?_eq_some.mp wildcard, listed⟩ unreadable
    · rfl

theorem expand_of_listed (wildcard : IsWildcard field directory) (listed : t.listDirectory directory = .ok entries) :
    expand t field = (jarNames entries).map (Path.join directory) := by
  simp [expand, wildcardDirectory?_eq_some.mpr wildcard, listed, jarsOf_eq_map]

theorem mem_expand : entry ∈ expand t field ↔ (entry = field ∧ ¬ Readable t field) ∨
    ∃ directory name, IsWildcard field directory ∧ IsJarOf t directory name ∧ entry = Path.join directory name := by
  by_cases readable : Readable t field
  · obtain ⟨directory, entries, wildcard, listed⟩ := readable
    rw [expand_of_listed wildcard listed, List.mem_map]
    constructor
    · rintro ⟨name, member, rfl⟩
      exact .inr ⟨directory, name, wildcard, (mem_jarNames listed).mp member, rfl⟩
    · rintro (⟨-, unreadable⟩ | ⟨other, name, again, jar, rfl⟩)
      · exact absurd ⟨directory, entries, wildcard, listed⟩ unreadable
      · obtain rfl := wildcard.directory_eq again
        exact ⟨name, (mem_jarNames listed).mpr jar, rfl⟩
  · rw [expand_of_not_readable readable, List.mem_singleton]
    constructor
    · rintro rfl
      exact .inl ⟨rfl, readable⟩
    · rintro (⟨same, -⟩ | ⟨directory, name, wildcard, ⟨entries, -, -, listed, -⟩, -⟩)
      · exact same
      · exact absurd ⟨directory, entries, wildcard, listed⟩ readable

theorem resolve_eq (t : Tree) (classPath : Bytes) :
    resolve t classPath = ((fields classPath).flatMap (expand t)).eraseDups :=
  firstSeen_eq_eraseDups _

theorem eraseDups_resolve (t : Tree) (classPath : Bytes) :
    (resolve t classPath).eraseDups = ((fields classPath).flatMap (expand t)).eraseDups := by
  rw [resolve_eq, eraseDups_of_nodup (nodup_eraseDups _)]

theorem mem_resolve : entry ∈ resolve t a ↔ (IsField a entry ∧ ¬ Readable t entry) ∨
    ∃ field directory name, IsField a field ∧ IsWildcard field directory ∧ IsJarOf t directory name ∧
      entry = Path.join directory name := by
  rw [resolve_eq, List.mem_eraseDups, List.mem_flatMap]
  constructor
  · rintro ⟨field, member, stands⟩
    rw [mem_fields] at member
    rcases mem_expand.mp stands with ⟨rfl, unreadable⟩ | ⟨directory, name, jar⟩
    · exact .inl ⟨member, unreadable⟩
    · exact .inr ⟨field, directory, name, member, jar⟩
  · rintro (⟨member, unreadable⟩ | ⟨field, directory, name, member, jar⟩)
    · exact ⟨entry, mem_fields.mpr member, mem_expand.mpr (.inl ⟨rfl, unreadable⟩)⟩
    · exact ⟨field, mem_fields.mpr member, mem_expand.mpr (.inr ⟨directory, name, jar⟩)⟩

theorem nil_not_mem_resolve : [] ∉ resolve t a := by
  intro member
  rcases mem_resolve.mp member with ⟨⟨-, -, -, -, -, -, nonempty⟩, -⟩ | ⟨field, directory, name, -, -, jar, empty⟩
  · exact nonempty rfl
  · exact Path.join_ne_nil jar.name_ne_nil directory empty.symm

/-- Resolving takes class paths joined by a separator to their entries joined without repetition.  The entries are the
fields that are no readable wildcard and the archives of the directories that wildcards name, whether from the root or
from the working directory.  The archives of one wildcard stand in bytewise order of their names between the entries of
what precedes it and those of what follows, except where they were listed before. -/
theorem resolve_homomorphism (t : Tree) (a b : Bytes) (s : UInt8) (separator : s = Bytes.colon ∨ s = Bytes.semicolon) :
    resolve t (a ++ s :: b) = (resolve t a ++ resolve t b).eraseDups ∧
    (resolve t a).Nodup ∧ [] ∉ resolve t a ∧
    (∀ entry, entry ∈ resolve t a ↔ (IsField a entry ∧ ¬ Readable t entry) ∨
      ∃ field directory name, IsField a field ∧ IsWildcard field directory ∧ IsJarOf t directory name ∧
        entry = Path.join directory name) ∧
    (∀ front segment back field directory entries, a = front ++ segment ++ back →
      Segment isSeparator front segment back → Text.Trims segment field → IsWildcard field directory →
      t.listDirectory directory = .ok entries →
      ∃ names : List Bytes, names.Pairwise (· < ·) ∧ (∀ name, name ∈ names ↔ IsJarOf t directory name) ∧
        resolve t a = (resolve t front ++ names.map (Path.join directory) ++ resolve t back).eraseDups) := by
  refine ⟨?_, ?_, nil_not_mem_resolve, fun entry => mem_resolve, ?_⟩
  · have cut : isSeparator s = true := by simpa [isSeparator] using separator
    rw [resolve_eq, fields_append_cons cut, List.flatMap_append]
    exact eraseDups_append_congr (eraseDups_resolve t a).symm (eraseDups_resolve t b).symm
  · rw [resolve_eq]
    exact nodup_eraseDups _
  · rintro front segment back field directory entries rfl cut trims wildcard listed
    refine ⟨jarNames entries, ?_, fun name => mem_jarNames listed, ?_⟩
    · exact (Tree.pairwise_listDirectory listed).sublist (List.filter_sublist.map Prod.fst)
    · rw [resolve_eq, fields_segment cut, fields_of_trims cut.uncut trims, if_neg wildcard.ne_nil, List.flatMap_append,
        List.flatMap_append, List.flatMap_singleton, expand_of_listed wildcard listed]
      have upTo := eraseDups_append_congr (eraseDups_resolve t front).symm
        (Eq.refl ((jarNames entries).map (Path.join directory)).eraseDups)
      exact eraseDups_append_congr upTo (eraseDups_resolve t back).symm

/-- A directory of two archives, a directory with the name of an archive, and a text. -/
def mixedLibrary : Tree :=
  .ofItems [utf8 "srv"] [(utf8 "lib/b.jar", .file (.bytes [])), (utf8 "lib/a.JAR", .file (.bytes [])),
    (utf8 "lib/c.jar", .directory), (utf8 "lib/x.txt", .file (.bytes []))]

/-- One archive of the wildcard, which starts at the root, is listed before it, the other after it. -/
theorem resolve_homomorphism_mixedLibrary :
    resolve mixedLibrary (utf8 "/srv/lib/b.jar: /srv/lib/* " ++ Bytes.colon :: utf8 "/srv/lib/a.JAR;../q")
        = (resolve mixedLibrary (utf8 "/srv/lib/b.jar: /srv/lib/* ")
            ++ resolve mixedLibrary (utf8 "/srv/lib/a.JAR;../q")).eraseDups ∧
      ∃ names : List Bytes, names.Pairwise (· < ·) ∧
        (∀ name, name ∈ names ↔ IsJarOf mixedLibrary (utf8 "/srv/lib") name) ∧
        resolve mixedLibrary (utf8 "/srv/lib/b.jar: /srv/lib/* ")
          = (resolve mixedLibrary (utf8 "/srv/lib/b.jar:") ++ names.map (Path.join (utf8 "/srv/lib"))
              ++ resolve mixedLibrary []).eraseDups := by
  have listed : mixedLibrary.listDirectory (utf8 "/srv/lib")
      = .ok [(utf8 "a.JAR", .file (.bytes [])), (utf8 "b.jar", .file (.bytes [])), (utf8 "c.jar", .directory []),
        (utf8 "x.txt", .file (.bytes []))] := by cbv
  have cut : Segment isSeparator (utf8 "/srv/lib/b.jar:") (utf8 " /srv/lib/* ") [] :=
    ⟨by decide +kernel, by decide +kernel, by decide +kernel⟩
  obtain ⟨joined, -, -, -, order⟩ := resolve_homomorphism mixedLibrary (utf8 "/srv/lib/b.jar: /srv/lib/* ")
    (utf8 "/srv/lib/a.JAR;../q") Bytes.colon (.inl rfl)
  exact ⟨joined, order (utf8 "/srv/lib/b.jar:") (utf8 " /srv/lib/* ") [] (utf8 "/srv/lib/*") (utf8 "/srv/lib") _
    (by decide) cut (Text.trims_iff.mpr (by decide +kernel)) (.inr (by decide)) listed⟩

end ClassPath

end JvmCoupling
