import JvmCoupling.ClassPath.Load
import Mathlib.Data.List.Forall2

/-! # What loading a class path comes to

Log records apart, the load of a class path is settled by what each entry comes to on its own.

* `ownOutcome` — the classes of an entry, or its own failure;
* `outcome_calledOff` — a load that was called off comes to that, or to the failure of having been called off;
* `load_eq_ok`, `load_eq_error` — the universe of a class path, and the entry that is reported;
* `load_replace` — only the classes of an entry count.
-/

namespace JvmCoupling.ClassPath

variable {t : Tree} {entry : Bytes} {entries : List Bytes}

/-! ## One entry -/

theorem fileSources_of_members {content : Content} {members : List Zip.Member} (named : isArchive entry = true)
    (holds : Zip.members content.toBytes = .ok members) :
    fileSources false entry content = { list := archiveSources entry members } := by
  unfold fileSources
  -- the reader of archives must not be opened on the way
  generalize Zip.members content.toBytes = result at holds ⊢
  subst holds
  exact if_pos named

theorem fileSources_calledOff (entry : Bytes) (content : Content) :
    fileSources true entry content = fileSources false entry content ∨
      fileSources true entry content = .fail .cancelled := by
  unfold fileSources
  split
  · cases Zip.members content.toBytes with
    | error fault => exact .inl rfl
    | ok members =>
      -- an archive without members never looks whether it was called off
      cases members with
      | nil => exact .inl rfl
      | cons m ms => exact .inr rfl
  · exact .inl rfl

theorem fileSources_ne_cancelled (entry : Bytes) (content : Content) :
    (fileSources false entry content).failure? ≠ some .cancelled := by
  unfold fileSources
  split
  · cases Zip.members content.toBytes with
    | error fault => simp [Sources.fail]
    | ok members => simp
  · split <;> simp [Sources.fail]

theorem Sources.failure?_sequence {steps : List Sources} {e : EntryError} (fails : (sequence steps).failure? = some e) :
    ∃ step ∈ steps, step.failure? = some e := by
  induction steps with
  | nil => cases fails
  | cons first rest ih =>
    unfold sequence at fails
    split at fails
    · exact ⟨first, List.mem_cons_self, fails⟩
    · obtain ⟨step, member, fails⟩ := ih fails
      exact ⟨step, List.mem_cons_of_mem _ member, fails⟩

theorem walkDirectory_ne_cancelled (t : Tree) (depth : Nat) (path : Bytes) (node : Node) :
    (walkDirectory t depth path node).failure? ≠ some .cancelled := by
  induction depth generalizing path node with
  | zero =>
    unfold walkDirectory
    split
    · simp [Sources.fail]
    · simp
  | succ depth ih =>
    unfold walkDirectory
    split
    · cases t.listDirectory path with
      | error e => simp [Sources.fail]
      | ok entries =>
        intro stopped
        obtain ⟨step, member, stopped⟩ := Sources.failure?_sequence stopped
        obtain ⟨entry, -, rfl⟩ := List.mem_map.1 member
        exact ih _ _ stopped
    · simp

/-- What an entry comes to when nothing calls its load off. -/
def ownOutcome (t : Tree) (entry : Bytes) : Except EntryError (List ClassInfo) := (loadEntry t false entry).outcome

theorem outcome_loadEntry (t : Tree) (cancelled : Bool) (entry : Bytes) :
    (loadEntry t cancelled entry).outcome = (sourcesOf t cancelled entry).outcome :=
  rfl

/-- The sources of an entry, or the stop at the first thing that loading comes by. -/
theorem sourcesOf_calledOff (t : Tree) (entry : Bytes) :
    sourcesOf t true entry = sourcesOf t false entry ∨ sourcesOf t true entry = .fail .cancelled := by
  unfold sourcesOf
  cases t.stat entry with
  | error e => exact .inl rfl
  | ok node =>
    simp only
    split
    · exact .inr rfl
    · cases t.readFile entry with
      | error e => exact .inl rfl
      | ok content => exact fileSources_calledOff entry content

theorem outcome_calledOff (t : Tree) (entry : Bytes) :
    (loadEntry t true entry).outcome = ownOutcome t entry ∨ (loadEntry t true entry).outcome = .error .cancelled := by
  rw [ownOutcome, outcome_loadEntry, outcome_loadEntry]
  rcases sourcesOf_calledOff t entry with same | stopped
  · exact .inl (by rw [same])
  · exact .inr (by rw [stopped]; rfl)

theorem sourcesOf_ne_cancelled (t : Tree) (entry : Bytes) : (sourcesOf t false entry).failure? ≠ some .cancelled := by
  unfold sourcesOf
  cases t.stat entry with
  | error e => simp [Sources.fail]
  | ok node =>
    simp only
    split
    · unfold directorySources
      cases t.linkStat entry with
      | error e => simp [Sources.fail]
      | ok root => exact walkDirectory_ne_cancelled t _ entry root
    · cases t.readFile entry with
      | error e => simp [Sources.fail]
      | ok content => exact fileSources_ne_cancelled entry content

/-- Nothing is called off unless something calls it off. -/
theorem ownOutcome_ne_cancelled (t : Tree) (entry : Bytes) : ownOutcome t entry ≠ .error .cancelled := by
  have stays := sourcesOf_ne_cancelled t entry
  rw [ownOutcome, outcome_loadEntry, Sources.outcome]
  cases failure : (sourcesOf t false entry).failure? with
  | some e => simpa [failure] using stays
  | none => simp

/-! ## All entries -/

theorem fst_loadEntries_cons (t : Tree) (cancelled : Bool) (entry : Bytes) (rest : List Bytes) :
    (loadEntries t cancelled (entry :: rest)).1 =
      match (loadEntry t cancelled entry).outcome with
      | .error cause => .error (.badEntry entry cause)
      | .ok classes => (loadEntries t cancelled rest).1.map (classes ++ ·) := by
  rw [loadEntries]
  cases (loadEntry t cancelled entry).outcome <;> rfl

theorem fst_load (t : Tree) (nonempty : entries ≠ []) (cancelled : Bool) :
    (load t entries cancelled).1 =
      (loadEntries t cancelled entries).1.map fun classes => Universe.ofList (classes.map some) := by
  unfold load
  rw [if_neg nonempty]
  obtain ⟨result, log⟩ := loadEntries t cancelled entries
  cases result <;> rfl

/-- Entries that all have classes load to these classes, in the order of the entries. -/
theorem load_eq_ok {classLists : List (List ClassInfo)} (nonempty : entries ≠ [])
    (outcomes : List.Forall₂ (fun entry classes => ownOutcome t entry = .ok classes) entries classLists) :
    (load t entries false).1 = .ok (Universe.ofList (classLists.flatten.map some)) := by
  have loaded : (loadEntries t false entries).1 = .ok classLists.flatten := by
    clear nonempty
    induction outcomes with
    | nil => rfl
    | cons first _ ih =>
      rw [ownOutcome] at first
      simp only [fst_loadEntries_cons, first, ih, Except.map, List.flatten_cons]
  rw [fst_load t nonempty, loaded]
  rfl

/-- One entry may stand for another with the same classes. -/
theorem load_replace {entry' : Bytes} {classes : List ClassInfo} (first : ownOutcome t entry = .ok classes)
    (second : ownOutcome t entry' = .ok classes) (before after : List Bytes) :
    (load t (before ++ entry :: after) false).1 = (load t (before ++ entry' :: after) false).1 := by
  rw [ownOutcome] at first second
  have replaced : (loadEntries t false (before ++ entry :: after)).1 =
      (loadEntries t false (before ++ entry' :: after)).1 := by
    induction before with
    | nil => simp only [List.nil_append, fst_loadEntries_cons, first, second]
    | cons other before ih => simp only [List.cons_append, fst_loadEntries_cons, ih]
  rw [fst_load t (by simp), fst_load t (by simp), replaced]

/-- The first entry that fails is reported. -/
theorem load_eq_error {before after : List Bytes} {cause : EntryError}
    (loads : ∀ earlier ∈ before, ∃ classes, ownOutcome t earlier = .ok classes)
    (fails : ownOutcome t entry = .error cause) :
    (load t (before ++ entry :: after) false).1 = .error (.badEntry entry cause) := by
  have failed : (loadEntries t false (before ++ entry :: after)).1 = .error (.badEntry entry cause) := by
    rw [ownOutcome] at fails
    induction before with
    | nil => simp only [List.nil_append, fst_loadEntries_cons, fails]
    | cons first before ih =>
      obtain ⟨classes, loaded⟩ := loads first List.mem_cons_self
      rw [ownOutcome] at loaded
      simp only [List.cons_append, fst_loadEntries_cons, loaded,
        ih fun earlier member => loads earlier (List.mem_cons_of_mem first member), Except.map]
  rw [fst_load t (by simp), failed]
  rfl

end JvmCoupling.ClassPath
