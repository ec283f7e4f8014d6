import JvmCoupling.Proofs.Analysis.CallCoupling
import Mathlib

/-! # Call statistics

The tally of a call analysis keeps counters beside its records.  At the end of a run they are sizes that can be
said without the tally: of the classes in scope, of the distinct calls, of the call sites in those classes whose
target is not known, and of the classes that take part in a coupling.

* `ClassInfo.unresolvedSites` — the call sites that only a counter knows of;
* `CallTally.Counts` — the counters, class by class and site by site;
* `CallTally.Enrolls` — participants and records are about the same classes;
* `stats_analyzeCalls` — the statistics of a run;
* `totalCalls` — the calls of all records together;
* `stats_agree_with_records` — the statistics say what the records say.
-/

namespace JvmCoupling

/-- The call sites of a class whose target is not known. -/
def ClassInfo.unresolvedSites (c : ClassInfo) : List CallSite :=
  c.methods.flatMap fun m => m.calls.filter fun site => site.owner = []

/-- The classes of a universe that are in scope. -/
def scopedClasses (u : Universe) (scope : Scope) : List ClassInfo := u.classes.filter fun c => scope.InScope c.name

theorem map_name_scopedClasses (u : Universe) (scope : Scope) :
    (scopedClasses u scope).map (·.name) = classesInScope u scope := by
  rw [classesInScope, Universe.names, List.filter_map]
  rfl

/-! ## Classes that records name -/

/-- The classes that a list of records names, as owners or as coupled classes. -/
def namedIn (records : List CallRecord) : List Bytes := records.flatMap fun r => r.owner :: r.coupledNames

theorem mem_countName {x name : Bytes} {entries : List CoupledClass} :
    x ∈ (countName name entries).map (·.name) ↔ x = name ∨ x ∈ entries.map (·.name) := by
  induction entries with
  | nil => simp [countName]
  | cons entry entries ih =>
    unfold countName
    split
    · next same => simp [same]
    · rw [List.map_cons, List.mem_cons, ih, List.map_cons, List.mem_cons]
      exact or_left_comm

theorem mem_namedIn_countNames {x owner name : Bytes} {records : List CallRecord} :
    x ∈ namedIn (countNames owner name records) ↔ x = owner ∨ x = name ∨ x ∈ namedIn records := by
  induction records with
  | nil => simp [countNames, countName, namedIn, CallRecord.coupledNames]
  | cons record records ih =>
    unfold countNames
    split
    · next same =>
      simp only [namedIn, CallRecord.coupledNames, List.flatMap_cons, List.mem_append, List.mem_cons, mem_countName,
        same]
      grind
    · have tail : x ∈ namedIn (countNames owner name records) ↔ _ := ih
      simp only [namedIn, List.flatMap_cons, List.mem_append] at tail ⊢
      rw [tail]
      grind

namespace CallTally

variable {scope : Scope} {direction : Direction} {t : CallTally}

/-! ## Classes and unknown targets -/

/-- A tally that has walked through so many classes and has met the sites of a list without a known target. -/
structure Counts (classes : Nat) (sites : List CallSite) (t : CallTally) : Prop where
  classes : t.classes = classes
  unresolved : t.unresolved = sites.length

variable {classes : Nat} {sites : List CallSite}

theorem Counts.addPair (counts : Counts classes sites t) (pair : Bytes × Bytes) :
    Counts classes sites (t.addPair pair) :=
  ⟨counts.classes, counts.unresolved⟩

theorem Counts.addEdge (counts : Counts classes sites t) (e : CallEdge) :
    Counts classes sites (t.addEdge direction e) := by
  unfold CallTally.addEdge
  split
  · exact counts
  · have marked : Counts classes sites { t with seen := e :: t.seen } := ⟨counts.classes, counts.unresolved⟩
    exact List.foldlRecOn _ _ marked fun _ counts pair _ => counts.addPair pair

theorem Counts.addSite (counts : Counts classes sites t) (caller signature : Bytes) (site : CallSite) :
    Counts classes (sites ++ [site].filter fun site => site.owner = [])
      (t.addSite scope direction caller signature site) := by
  unfold CallTally.addSite CallSite.isResolved
  by_cases unknown : site.owner = []
  · rw [List.filter_cons_of_pos (by simpa using unknown)]
    simpa [unknown] using ⟨counts.classes, by simp [counts.unresolved]⟩
  · -- a site with a known target leaves both counters alone, whether it counts as a call or not
    rw [List.filter_cons_of_neg (by simpa using unknown), List.filter_nil, List.append_nil,
      if_neg (by simpa using unknown)]
    split
    · exact counts
    · split
      · exact counts
      · exact counts.addEdge _

theorem Counts.addMethod (counts : Counts classes sites t) (caller : Bytes) (m : Method) :
    Counts classes (sites ++ m.calls.filter fun site => site.owner = []) (t.addMethod scope direction caller m) :=
  foldl_filter (fun site _ _ _ counts => counts.addSite caller m.signature site) counts

theorem Counts.addClass {done : List ClassInfo}
    (counts : Counts done.length (done.flatMap ClassInfo.unresolvedSites) t) (c : ClassInfo) :
    let walked := done ++ [c].filter fun c => scope.InScope c.name
    Counts walked.length (walked.flatMap ClassInfo.unresolvedSites) (t.addClass scope direction c) := by
  intro walked
  unfold CallTally.addClass
  by_cases inScope : scope.InScope c.name
  · have walked_eq : walked = done ++ [c] := by simp [walked, inScope]
    have entered :
        Counts (done.length + 1) (done.flatMap ClassInfo.unresolvedSites) { t with classes := t.classes + 1 } :=
      ⟨by simp [counts.classes], counts.unresolved⟩
    rw [if_pos (Scope.includes_iff.2 inScope), walked_eq, List.length_append, List.flatMap_append,
      List.flatMap_singleton]
    exact foldl_flatMap (fun m _ _ _ counts => counts.addMethod c.name m) entered
  · have walked_eq : walked = done := by simp [walked, inScope]
    rwa [if_neg (by simpa using inScope), walked_eq]

theorem counts_universe (u : Universe) (scope : Scope) (direction : Direction) :
    Counts (scopedClasses u scope).length ((scopedClasses u scope).flatMap ClassInfo.unresolvedSites)
      (u.classes.foldl (addClass scope direction) {}) := by
  have start : Counts ([] : List ClassInfo).length (([] : List ClassInfo).flatMap ClassInfo.unresolvedSites) {} :=
    ⟨rfl, rfl⟩
  exact foldl_filter (motive := fun done t => Counts done.length (done.flatMap ClassInfo.unresolvedSites) t)
    (fun c _ _ _ counts => counts.addClass c) start

/-! ## Participants -/

/-- The participants of a tally are the numbers that its index has handed out, each of them once, and the index knows
the classes that the records name. -/
structure Enrolls (t : CallTally) : Prop where
  numbered : t.Numbered
  nodup : t.participants.Nodup
  mem_iff : ∀ id, id ∈ t.participants ↔ id < t.index.size
  named : ∀ x, x ∈ t.index.names ↔ x ∈ namedIn t.callRecords

theorem Enrolls.addPair (enrolls : Enrolls t) (pair : Bytes × Bytes) : Enrolls (t.addPair pair) where
  numbered := enrolls.numbered.addPair pair
  nodup := (enrolls.nodup.insert).insert
  mem_iff id := by
    simp only [CallTally.addPair, List.mem_insert_iff, ClassIndex.lt_size_intern, enrolls.mem_iff]
  named x := by
    rw [enrolls.numbered.callRecords_addPair, mem_namedIn_countNames, ← enrolls.named]
    simp only [CallTally.addPair, ClassIndex.mem_names_intern]
    exact or_left_comm

/-- There are as many participants as names. -/
theorem Enrolls.length_participants (enrolls : Enrolls t) : t.participants.length = t.index.names.length := by
  have range : t.participants.Perm (List.range t.index.size) :=
    (List.perm_ext_iff_of_nodup enrolls.nodup List.nodup_range).2 fun id => by rw [enrolls.mem_iff, List.mem_range]
  rw [range.length_eq, List.length_range, ClassIndex.size]

theorem Enrolls.addEdge (enrolls : Enrolls t) (e : CallEdge) : Enrolls (t.addEdge direction e) := by
  unfold CallTally.addEdge
  split
  · exact enrolls
  · have marked : Enrolls { t with seen := e :: t.seen } :=
      ⟨enrolls.numbered, enrolls.nodup, enrolls.mem_iff, enrolls.named⟩
    exact List.foldlRecOn _ _ marked fun _ enrolls pair _ => enrolls.addPair pair

theorem Enrolls.addSite (enrolls : Enrolls t) (caller signature : Bytes) (site : CallSite) :
    Enrolls (t.addSite scope direction caller signature site) := by
  unfold CallTally.addSite
  split
  · exact ⟨enrolls.numbered, enrolls.nodup, enrolls.mem_iff, enrolls.named⟩
  · split
    · exact enrolls
    · split
      · exact enrolls
      · exact enrolls.addEdge _

theorem Enrolls.addClass (enrolls : Enrolls t) (c : ClassInfo) : Enrolls (t.addClass scope direction c) := by
  unfold CallTally.addClass
  split
  · have entered : Enrolls { t with classes := t.classes + 1 } :=
      ⟨enrolls.numbered, enrolls.nodup, enrolls.mem_iff, enrolls.named⟩
    refine List.foldlRecOn _ _ entered fun _ enrolls m _ => ?_
    exact List.foldlRecOn _ _ enrolls fun _ enrolls site _ => enrolls.addSite c.name m.signature site
  · exact enrolls

theorem enrolls_universe (u : Universe) (scope : Scope) (direction : Direction) :
    Enrolls (u.classes.foldl (addClass scope direction) {}) := by
  have start : Enrolls {} :=
    ⟨fun _ listed => absurd listed List.not_mem_nil, .nil, fun id => by simp [ClassIndex.size, ClassIndex.empty],
      fun x => by simp [namedIn, CallTally.callRecords, ClassIndex.empty]⟩
  exact List.foldlRecOn _ _ start fun _ enrolls c _ => enrolls.addClass c

end CallTally

/-! ## The statistics -/

/-- The classes that take part in a coupling. -/
def coupledClasses (u : Universe) (scope : Scope) (direction : Direction) : List Bytes :=
  ((couplings u scope direction).flatMap fun pair => [pair.1, pair.2]).eraseDups

theorem mem_coupledClasses {u : Universe} {scope : Scope} {direction : Direction} {x : Bytes} :
    x ∈ coupledClasses u scope direction ↔
      ∃ y, (x, y) ∈ couplings u scope direction ∨ (y, x) ∈ couplings u scope direction := by
  simp only [coupledClasses, List.mem_eraseDups, List.mem_flatMap, List.mem_cons, List.not_mem_nil, or_false]
  constructor
  · rintro ⟨⟨a, b⟩, pair, rfl | rfl⟩
    · exact ⟨b, .inl pair⟩
    · exact ⟨a, .inr pair⟩
  · rintro ⟨y, pair | pair⟩
    · exact ⟨_, pair, .inl rfl⟩
    · exact ⟨_, pair, .inr rfl⟩

/-- The records of a run name the classes that take part in a coupling. -/
theorem mem_namedIn_groupPairs {pairs : List (Bytes × Bytes)} {x : Bytes} :
    x ∈ namedIn (groupPairs pairs) ↔ ∃ y, (x, y) ∈ pairs ∨ (y, x) ∈ pairs := by
  simp only [namedIn, CallRecord.coupledNames, List.mem_flatMap, mem_groupPairs, List.mem_cons, List.mem_map]
  constructor
  · rintro ⟨record, ⟨⟨⟨owner, y⟩, pair, same⟩, coupled⟩, rfl | ⟨entry, listed, rfl⟩⟩
    · exact ⟨y, .inl (same ▸ pair)⟩
    · rw [coupled] at listed
      exact ⟨record.owner, .inr (mem_coupledTo.1 listed).1⟩
  · rintro ⟨y, pair | pair⟩
    · exact ⟨⟨x, coupledTo pairs x⟩, ⟨⟨_, pair, rfl⟩, rfl⟩, .inl rfl⟩
    · have listed : ⟨x, pairs.count (y, x)⟩ ∈ coupledTo pairs y := mem_coupledTo.2 ⟨pair, rfl⟩
      exact ⟨⟨y, coupledTo pairs y⟩, ⟨⟨_, pair, rfl⟩, rfl⟩, .inr ⟨_, listed, rfl⟩⟩

/-- The statistics of a run: the number of classes in scope, of distinct calls, of call sites without a known
target in the classes in scope, and of classes that take part in a coupling. -/
theorem stats_analyzeCalls (u : Universe) (scope : Scope) (direction : Direction) :
    (analyzeCalls u scope direction).stats = {
      classes := (classesInScope u scope).length
      edges := (callEdges u scope).length
      unresolved := ((scopedClasses u scope).flatMap ClassInfo.unresolvedSites).length
      coupled := (coupledClasses u scope direction).length } := by
  have tracks := CallTally.tracks_universe u scope direction
  have counts := CallTally.counts_universe u scope direction
  have enrolls := CallTally.enrolls_universe u scope direction
  have names : (u.classes.foldl (CallTally.addClass scope direction) {}).index.names.Perm
      (coupledClasses u scope direction) := by
    refine (List.perm_ext_iff_of_nodup (ClassIndex.nodup _) (nodup_eraseDups _)).2 fun x => ?_
    rw [enrolls.named, tracks.records, mem_namedIn_groupPairs]
    exact mem_coupledClasses.symm
  simp only [analyzeCalls, CallTally.report, CallStats.mk.injEq]
  refine ⟨?_, ?_, counts.unresolved, enrolls.length_participants.trans names.length_eq⟩
  · rw [counts.classes, ← map_name_scopedClasses, List.length_map]
  · rw [tracks.seen, List.length_reverse]
    rfl

/-! ## Statistics and records -/

/-- The calls of all entries of a list of records together. -/
def totalCalls (records : List CallRecord) : Int := ((records.flatMap (·.coupled)).map (·.calls)).sum

theorem totalCalls_cons (record : CallRecord) (records : List CallRecord) :
    totalCalls (record :: records) = (record.coupled.map (·.calls)).sum + totalCalls records := by
  rw [totalCalls, List.flatMap_cons, List.map_append, List.sum_append, totalCalls]

theorem sum_calls_countName (name : Bytes) (entries : List CoupledClass) :
    ((countName name entries).map (·.calls)).sum = (entries.map (·.calls)).sum + 1 := by
  induction entries with
  | nil => rfl
  | cons entry entries ih =>
    unfold countName
    split
    · simp only [List.map_cons, List.sum_cons]
      omega
    · simp only [List.map_cons, List.sum_cons, ih]
      omega

/-- Counting a pair adds one call, wherever its entry stands. -/
theorem totalCalls_countNames (owner name : Bytes) (records : List CallRecord) :
    totalCalls (countNames owner name records) = totalCalls records + 1 := by
  induction records with
  | nil => rfl
  | cons record records ih =>
    unfold countNames
    split
    · rw [totalCalls_cons, totalCalls_cons, sum_calls_countName]
      omega
    · rw [totalCalls_cons, totalCalls_cons, ih]
      omega

theorem totalCalls_groupPairs (pairs : List (Bytes × Bytes)) : totalCalls (groupPairs pairs) = pairs.length := by
  induction pairs using List.reverseRecOn with
  | nil => rfl
  | append_singleton pairs pair ih =>
    rw [groupPairs_concat, totalCalls_countNames, ih, List.length_append, List.length_singleton]
    rfl

theorem length_couplings (u : Universe) (scope : Scope) (direction : Direction) :
    (couplings u scope direction).length =
      if direction = .both then 2 * (callEdges u scope).length else (callEdges u scope).length := by
  have each (e : CallEdge) : (e.couplings direction).length = if direction = .both then 2 else 1 := by
    cases direction <;> rfl
  simp only [couplings, List.length_flatMap, each, List.map_const', List.sum_replicate_nat]
  split
  · exact Nat.mul_comm _ _
  · exact Nat.mul_one _

theorem length_eraseDups {α : Type} [DecidableEq α] (xs : List α) : xs.eraseDups.length = xs.toFinset.card := by
  rw [← List.toFinset_card_of_nodup (nodup_eraseDups xs)]
  congr 1
  ext x
  simp

/-- The statistics of a run are about its records and its universe.  The calls of all entries together are as many
as the edges, and twice as many if both ends of an edge own one.  The edges are the distinct calls between the
classes in scope, the coupled classes those that the records name, and the call sites without a known target are
counted in all classes in scope, also if they are not the target. -/
theorem stats_agree_with_records (u : Universe) (scope : Scope) (direction : Direction) :
    let report := analyzeCalls u scope direction
    totalCalls report.records =
      ((if direction = .both then 2 * report.stats.edges else report.stats.edges : Nat) : Int) ∧
    report.stats.edges = (observedEdges u scope).toFinset.card ∧
    report.stats.coupled = (namedIn report.records).toFinset.card ∧
    report.stats.classes = (classesInScope u scope).length ∧
    report.stats.unresolved =
      ((scopedClasses u scope).flatMap fun c => c.methods.flatMap (·.calls)).countP (·.owner = []) := by
  intro report
  have stats : report.stats = _ := stats_analyzeCalls u scope direction
  have records : report.records = groupPairs (couplings u scope direction) := records_analyzeCalls u scope direction
  rw [stats, records]
  refine ⟨?_, length_eraseDups _, ?_, rfl, ?_⟩
  · rw [totalCalls_groupPairs, length_couplings]
  · have named : (namedIn (groupPairs (couplings u scope direction))).toFinset =
        (coupledClasses u scope direction).toFinset := by
      ext x
      rw [List.mem_toFinset, List.mem_toFinset, mem_namedIn_groupPairs, mem_coupledClasses]
    rw [named]
    exact (List.toFinset_card_of_nodup (nodup_eraseDups _)).symm
  · rw [List.countP_eq_length_filter, List.filter_flatMap]
    simp only [List.filter_flatMap]
    rfl

end JvmCoupling
