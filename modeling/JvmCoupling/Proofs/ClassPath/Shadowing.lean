import JvmCoupling.Proofs.Analysis.Shared
import JvmCoupling.Proofs.ClassPath.Packing
import Mathlib

/-! # Shadowing

The first definition of a class counts, and later ones of the same name are shadowed.  A universe therefore keeps the
first occurrences among the names that it was given, and what a class path adds to another one is what the other one
lacks.

* `Universe.named` — the classes of a sequence that can be kept;
* `Universe.names_ofList`, `Universe.find?_ofList` — the names that are kept, and what they stand for;
* `Universe.ofList_append_repeated` — classes that were given before change nothing;
* `Shadows` — what is known of a universe by the classes that it was given;
* `shadowing_composes` — the universe of two class paths one after the other.
-/

namespace JvmCoupling

namespace Universe

/-! ## What is kept of a sequence -/

/-- The classes of a sequence that have a name. -/
def named (classes : List (Option ClassInfo)) : List ClassInfo := classes.reduceOption.filter fun c => c.name ≠ []

variable {classes more : List (Option ClassInfo)}

theorem mem_named {c : ClassInfo} : c ∈ named classes ↔ some c ∈ classes ∧ c.name ≠ [] := by
  rw [named, List.mem_filter, List.reduceOption_mem_iff, decide_eq_true_eq]

theorem named_append (classes more : List (Option ClassInfo)) :
    named (classes ++ more) = named classes ++ named more := by
  rw [named, List.reduceOption_append, List.filter_append, named, named]

theorem ofList_concat (classes : List (Option ClassInfo)) (class? : Option ClassInfo) :
    ofList (classes ++ [class?]) = (ofList classes).add class? :=
  List.foldl_concat _ _ _ _

theorem find?_add (u : Universe) (class? : Option ClassInfo) (name : Bytes) :
    (u.add class?).find? name = (u.find? name).or ((named [class?]).find? fun c => c.name = name) := by
  rcases u.add_cases class? with ⟨-, same, refused⟩ | ⟨c, rfl, -, grown, hasName, -⟩
  · rw [same]
    cases found : u.find? name with
    | some d => rfl
    | none =>
      -- a class of this name would not have been refused
      have absent : name ∉ u.names := find?_eq_none.1 found
      have other : (named [class?]).find? (fun c => c.name = name) = none := by
        rw [List.find?_eq_none]
        intro c member
        obtain ⟨given, hasName⟩ := mem_named.1 member
        have taken := (refused c (List.mem_singleton.1 given).symm).resolve_left hasName
        rw [decide_eq_true_eq]
        exact fun own => absent (own ▸ taken)
      rw [other, Option.or_none]
  · rw [grown]
    simp [find?, List.find?_append, named, hasName]

/-- A name stands for the first class that was given with it. -/
theorem find?_ofList (classes : List (Option ClassInfo)) (name : Bytes) :
    (ofList classes).find? name = (named classes).find? fun c => c.name = name := by
  induction classes using List.reverseRecOn with
  | nil => rfl
  | append_singleton classes class? ih => rw [ofList_concat, find?_add, ih, named_append, List.find?_append]

theorem find?_ofList_append (classes more : List (Option ClassInfo)) (name : Bytes) :
    (ofList (classes ++ more)).find? name = ((ofList classes).find? name).or ((ofList more).find? name) := by
  rw [find?_ofList, named_append, List.find?_append, find?_ofList, find?_ofList]

/-- The names are those that were given, each at its first occurrence. -/
theorem names_ofList (classes : List (Option ClassInfo)) :
    (ofList classes).names = ((named classes).map (·.name)).eraseDups := by
  induction classes using List.reverseRecOn with
  | nil => rfl
  | append_singleton classes class? ih =>
    rw [ofList_concat, named_append, List.map_append]
    rcases (ofList classes).add_cases class? with ⟨-, same, refused⟩ | ⟨c, rfl, -, grown, hasName, fresh⟩
    · rw [same]
      cases class? with
      | none => simpa [named] using ih
      | some c =>
        by_cases noName : c.name = []
        · simpa [named, noName] using ih
        · have single : named [some c] = [c] := by simp [named, noName]
          have taken := (refused c rfl).resolve_left noName
          rw [ih, List.mem_eraseDups] at taken
          rw [single, List.map_singleton, eraseDups_concat, if_pos taken, ih]
    · have single : named [some c] = [c] := by simp [named, hasName]
      rw [ih, List.mem_eraseDups] at fresh
      rw [single, List.map_singleton, eraseDups_concat, if_neg fresh, ← ih, grown, names, List.map_append,
        List.map_singleton, names]

theorem names_ofList_append (classes more : List (Option ClassInfo)) :
    (ofList (classes ++ more)).names =
      (ofList classes).names ++ (ofList more).names.filter (· ∉ (ofList classes).names) := by
  rw [names_ofList, names_ofList, names_ofList, named_append, List.map_append, eraseDups_append_filter]
  congr 1
  apply List.filter_congr
  intro name _
  rw [Bool.eq_iff_iff]
  simp

theorem mem_names_ofList {name : Bytes} :
    name ∈ (ofList classes).names ↔ name ≠ [] ∧ ∃ c, some c ∈ classes ∧ c.name = name := by
  rw [names_ofList, List.mem_eraseDups, List.mem_map]
  constructor
  · rintro ⟨c, member, rfl⟩
    obtain ⟨given, hasName⟩ := mem_named.1 member
    exact ⟨hasName, c, given, rfl⟩
  · rintro ⟨hasName, c, given, rfl⟩
    exact ⟨c, mem_named.2 ⟨given, hasName⟩, rfl⟩

/-! ## Accepted and refused classes -/

theorem size_add (u : Universe) (class? : Option ClassInfo) :
    (u.add class?).size = u.size + if u.accepts class? then 1 else 0 := by
  rcases u.add_cases class? with ⟨refused, same, -⟩ | ⟨c, -, accepted, grown, -⟩
  · simp [refused, same]
  · simp [accepted, grown, size]

theorem foldl_add_of_refused {u : Universe} (refused : ∀ class? ∈ more, u.accepts class? = false) :
    more.foldl add u = u := by
  induction more with
  | nil => rfl
  | cons class? more ih =>
    rcases u.add_cases class? with ⟨-, same, -⟩ | ⟨c, -, accepted, -⟩
    · rw [List.foldl_cons, same]
      exact ih fun other member => refused other (List.mem_cons_of_mem _ member)
    · simp [refused class? List.mem_cons_self] at accepted

theorem accepts_ofList_of_mem {class? : Option ClassInfo} (given : class? ∈ classes) :
    (ofList classes).accepts class? = false := by
  rcases (ofList classes).add_cases class? with ⟨refused, -⟩ | ⟨c, rfl, -, -, hasName, fresh⟩
  · exact refused
  · exact absurd (mem_names_ofList.2 ⟨hasName, c, given, rfl⟩) fresh

/-- Classes that were given before change nothing. -/
theorem ofList_append_repeated {repeated : List (Option ClassInfo)} (known : repeated ⊆ classes)
    (more : List (Option ClassInfo)) : ofList (classes ++ (repeated ++ more)) = ofList (classes ++ more) := by
  have unchanged : repeated.foldl add (ofList classes) = ofList classes :=
    foldl_add_of_refused fun class? member => accepts_ofList_of_mem (known member)
  rw [ofList, List.foldl_append, List.foldl_append, ← ofList, unchanged, ofList, ← List.foldl_append, ← ofList]

end Universe

/-- The universe `u` as the classes of a sequence make it, one after the other. -/
structure Shadows (sequence : List (Option ClassInfo)) (u : Universe) : Prop where
  /-- Names are listed once, -/
  nodup : u.names.Nodup
  size_eq : u.size = u.names.length
  /-- and they are those that classes were given with. -/
  listed : ∀ name, name ∈ u.names ↔ name ≠ [] ∧ ∃ c, some c ∈ sequence ∧ c.name = name
  /-- A listed name stands for the first class of the sequence with this name. -/
  found : ∀ name, (∃ c, u.find? name = some c) ↔ name ∈ u.names
  first : ∀ name c, u.find? name = some c → c.name = name ∧ sequence.reduceOption.find? (·.name = name) = some c
  /-- A further class is accepted if it makes the universe grow. -/
  grows : ∀ class?, u.accepts class? = true ↔ (u.add class?).size = u.size + 1

theorem shadows_ofList (sequence : List (Option ClassInfo)) : Shadows sequence (.ofList sequence) where
  nodup := Universe.nodup_names_ofList sequence
  size_eq := (List.length_map _).symm
  listed _ := Universe.mem_names_ofList
  found name := by rw [← Universe.contains_iff, Universe.contains, Option.isSome_iff_exists]
  first name c found := by
    obtain ⟨kept, own⟩ := (Universe.find?_eq_some (Universe.nodup_names_ofList sequence)).1 found
    have hasName : name ≠ [] := (Universe.mem_names_ofList.1 (Universe.mem_names.2 ⟨c, kept, own⟩)).1
    refine ⟨own, ?_⟩
    rw [Universe.find?_ofList, Universe.named, List.find?_filter] at found
    rw [← found]
    congr 1
    funext d
    by_cases named : d.name = name <;> simp [named, hasName]
  grows class? := by
    rw [Universe.size_add]
    split
    · next accepted => simp [accepted]
    · next refused => simp [refused]

namespace ClassPath

variable {t : Tree} {cancelled : Bool} {entries : List Bytes} {classes : List ClassInfo}

/-! ## Entries one after the other -/

theorem fst_loadEntries_append (t : Tree) (cancelled : Bool) (entries entries' : List Bytes) :
    (loadEntries t cancelled (entries ++ entries')).1 =
      match (loadEntries t cancelled entries).1 with
      | .error e => .error e
      | .ok classes => (loadEntries t cancelled entries').1.map (classes ++ ·) := by
  induction entries with
  | nil =>
    change (loadEntries t cancelled entries').1 = (loadEntries t cancelled entries').1.map ([] ++ ·)
    cases (loadEntries t cancelled entries').1 <;> rfl
  | cons entry entries ih =>
    rw [List.cons_append, fst_loadEntries_cons, fst_loadEntries_cons, ih]
    cases (loadEntry t cancelled entry).outcome with
    | error cause => rfl
    | ok own =>
      cases (loadEntries t cancelled entries).1 with
      | error e => rfl
      | ok classes =>
        cases (loadEntries t cancelled entries').1 with
        | error e => rfl
        | ok more => simp [Except.map]

theorem exists_classLists (loaded : (loadEntries t cancelled entries).1 = .ok classes) :
    ∃ classLists, List.Forall₂ (fun entry own => (loadEntry t cancelled entry).outcome = .ok own) entries classLists ∧
      classLists.flatten = classes := by
  induction entries generalizing classes with
  | nil => exact ⟨[], .nil, Except.ok.inj loaded⟩
  | cons entry entries ih =>
    rw [fst_loadEntries_cons] at loaded
    cases outcome : (loadEntry t cancelled entry).outcome with
    | error cause => simp [outcome] at loaded
    | ok own =>
      cases others : (loadEntries t cancelled entries).1 with
      | error e => simp [outcome, others, Except.map] at loaded
      | ok rest =>
        obtain ⟨classLists, outcomes, flat⟩ := ih others
        refine ⟨own :: classLists, .cons outcome outcomes, ?_⟩
        simpa [outcome, others, Except.map, flat] using loaded

/-- The classes of a load are those of its entries. -/
theorem outcome_of_mem {entry : Bytes} (loaded : (loadEntries t cancelled entries).1 = .ok classes)
    (member : entry ∈ entries) : ∃ own, (loadEntry t cancelled entry).outcome = .ok own ∧ own ⊆ classes := by
  obtain ⟨classLists, outcomes, rfl⟩ := exists_classLists loaded
  obtain ⟨i, bound, rfl⟩ := List.getElem_of_mem member
  have bound' : i < classLists.length := outcomes.length_eq ▸ bound
  exact ⟨classLists[i], outcomes.get bound bound', fun c own => List.mem_flatten_of_mem (List.getElem_mem bound') own⟩

theorem exists_classes_of_load {u : Universe} (loaded : (load t entries cancelled).1 = .ok u) :
    entries ≠ [] ∧ ∃ classes, (loadEntries t cancelled entries).1 = .ok classes ∧ u = .ofList (classes.map some) := by
  by_cases empty : entries = []
  · simp [load, empty] at loaded
  · rw [fst_load t empty] at loaded
    cases result : (loadEntries t cancelled entries).1 with
    | error e => simp [result, Except.map] at loaded
    | ok classes => exact ⟨empty, classes, rfl, by simpa [result, Except.map] using loaded.symm⟩

/-! ## The logged numbers -/

/-- A class that was loaded is kept or counted as shadowed. -/
theorem size_add_countShadowed (u : Universe) (classes : List ClassInfo) :
    ((classes.map some).foldl Universe.add u).size + countShadowed u classes = u.size + classes.length := by
  induction classes generalizing u with
  | nil => rfl
  | cons c classes ih =>
    have rest := ih (u.add (some c))
    rw [Universe.size_add] at rest
    rw [List.map_cons, List.foldl_cons, countShadowed, List.length_cons]
    by_cases accepted : u.accepts (some c) = true
    · rw [if_pos accepted] at rest ⊢
      omega
    · rw [if_neg accepted] at rest ⊢
      omega

/-- What is logged at the end of a load. -/
def summary (entries classes shadowed : Nat) : Log.Record :=
  ⟨.info, utf8 "Loaded class universe",
    [Log.countField "entries" entries, Log.countField "classes" classes, Log.countField "shadowed" shadowed]⟩

theorem getLast?_log {u : Universe} {log : List Log.Record} (loaded : load t entries cancelled = (.ok u, log))
    (classesLoaded : (loadEntries t cancelled entries).1 = .ok classes) :
    log.getLast? = some (summary entries.length u.size (countShadowed {} classes)) := by
  unfold load at loaded
  generalize loadEntries t cancelled entries = result at loaded classesLoaded
  obtain ⟨outcome, before⟩ := result
  obtain rfl : outcome = .ok classes := classesLoaded
  split at loaded
  · cases loaded
  · obtain ⟨rfl, rfl⟩ : .ofList (classes.map some) = u ∧ _ = log := by simpa using loaded
    rw [List.getLast?_concat]
    rfl

/-! ## Composition -/

/-- Class paths compose.  However classes are given to a universe, each at its construction, later, or by a load, it
lists their names once, and a name stands for the first class that was given with it.  Every class of a load is kept
or counted as shadowed.  If two class paths load, so do both together, to the first one's classes and those that it
lacks.  An entry that is repeated changes nothing. -/
theorem shadowing_composes (t : Tree) (cancelled : Bool) :
    (∀ given added, Shadows (given ++ added) (added.foldl Universe.add (.ofList given))) ∧
    (∀ entries u log, load t entries cancelled = (.ok u, log) → ∃ classLists,
      List.Forall₂ (fun entry own => (loadEntry t cancelled entry).outcome = .ok own) entries classLists ∧
      Shadows (classLists.flatten.map some) u ∧
      ∃ shadowed, log.getLast? = some (summary entries.length u.size shadowed) ∧
        (classLists.map List.length).sum = u.size + shadowed) ∧
    (∀ entries entries' u v, (load t entries cancelled).1 = .ok u → (load t entries' cancelled).1 = .ok v →
      ∃ w, (load t (entries ++ entries') cancelled).1 = .ok w ∧
        w.names = u.names ++ v.names.filter (· ∉ u.names) ∧
        ∀ name, w.find? name = (u.find? name).or (v.find? name)) ∧
    ∀ before entry after, entry ∈ before →
      (load t (before ++ entry :: after) cancelled).1 = (load t (before ++ after) cancelled).1 := by
  refine ⟨?_, ?_, ?_, ?_⟩
  · intro given added
    have whole : added.foldl Universe.add (.ofList given) = .ofList (given ++ added) := List.foldl_append.symm
    exact whole ▸ shadows_ofList _
  · intro entries u log loaded
    obtain ⟨-, classes, classesLoaded, rfl⟩ := exists_classes_of_load (congrArg Prod.fst loaded)
    obtain ⟨classLists, outcomes, rfl⟩ := exists_classLists classesLoaded
    refine ⟨classLists, outcomes, shadows_ofList _, _, getLast?_log loaded classesLoaded, ?_⟩
    have counted := size_add_countShadowed {} classLists.flatten
    rw [← List.length_flatten]
    simpa [Universe.ofList, Universe.size] using counted.symm
  · intro entries entries' u v first second
    obtain ⟨nonempty, classes, loaded, rfl⟩ := exists_classes_of_load first
    obtain ⟨-, classes', loaded', rfl⟩ := exists_classes_of_load second
    have both : (loadEntries t cancelled (entries ++ entries')).1 = .ok (classes ++ classes') := by
      rw [fst_loadEntries_append, loaded, loaded']
      rfl
    refine ⟨.ofList (classes.map some ++ classes'.map some), ?_, ?_, ?_⟩
    · rw [fst_load t (by simp [nonempty]), both, ← List.map_append]
      rfl
    · exact Universe.names_ofList_append _ _
    · exact Universe.find?_ofList_append _ _
  · intro before entry after repeated
    have nonempty : before ≠ [] := List.ne_nil_of_mem repeated
    rw [fst_load t (by simp), fst_load t (by simp [nonempty]), fst_loadEntries_append, fst_loadEntries_append]
    cases loaded : (loadEntries t cancelled before).1 with
    | error e => rfl
    | ok classes =>
      obtain ⟨own, outcome, known⟩ := outcome_of_mem loaded repeated
      rw [fst_loadEntries_cons, outcome]
      cases (loadEntries t cancelled after).1 with
      | error e => rfl
      | ok rest =>
        have unchanged := Universe.ofList_append_repeated (List.map_subset some known) (rest.map some)
        simp only [Except.map, List.map_append, unchanged]

/-- The entries of a directory with one class. -/
def oneClass : List (Bytes × Node) := [(utf8 "A.class", .file (.bytes bareFile))]

def sameClassTwice : Tree where
  root := .directory [(utf8 "d", .directory oneClass), (utf8 "e", .directory oneClass)]
  ordered := by decide

/-- The class of the second directory is shadowed, and repeating the first directory changes nothing. -/
theorem shadowing_composes_sameClassTwice :
    (load sameClassTwice [utf8 "d"] false).1 = .ok ⟨[bareClass]⟩ ∧
    (load sameClassTwice [utf8 "e"] false).1 = .ok ⟨[bareClass]⟩ ∧
    (∃ w, (load sameClassTwice [utf8 "d", utf8 "e"] false).1 = .ok w ∧ w.names = [[0x41]] ∧
      w.find? [0x41] = some bareClass) ∧
    (load sameClassTwice [utf8 "d", utf8 "e", utf8 "d"] false).1 =
      (load sameClassTwice [utf8 "d", utf8 "e"] false).1 := by
  have loads {directory : Bytes} (found : sameClassTwice.linkStat directory = .ok (.directory oneClass))
      (fits : entriesFit directory oneClass = true) :
      (load sameClassTwice [directory] false).1 = .ok ⟨[bareClass]⟩ := by
    have classes : classesIn (Node.directory oneClass).files = [bareClass] := by decide +kernel
    have plain : (Node.directory oneClass).isPlain = true := by decide +kernel
    have opens := Node.opens_of_linkFree (Tree.linkFree_of_isPlain (by decide +kernel)) found plain fits
    have own := ownOutcome_directory found plain opens
    rw [classes] at own
    exact load_eq_ok (by simp) (.cons own .nil)
  have first := loads (show sameClassTwice.linkStat (utf8 "d") = .ok (.directory oneClass) by cbv)
    (by decide +kernel)
  have second := loads (show sameClassTwice.linkStat (utf8 "e") = .ok (.directory oneClass) by cbv)
    (by decide +kernel)
  obtain ⟨-, -, composes, repeats⟩ := shadowing_composes sameClassTwice false
  obtain ⟨w, both, names, finds⟩ := composes [utf8 "d"] [utf8 "e"] _ _ first second
  exact ⟨first, second, ⟨w, both, names, finds _⟩, repeats [utf8 "d", utf8 "e"] (utf8 "d") [] (by simp)⟩

end ClassPath

end JvmCoupling
