import JvmCoupling.Analysis.Calls
import JvmCoupling.Proofs.Analysis.Numbering

/-! # Call coupling as a grouping

The analysis runs through classes, methods and call sites and updates a tally on the way.  What it reports
can be said without the tally: take the distinct calls in the order in which they are observed, turn each
into pairs of owner and coupled class, and group the pairs.

* `observedEdges`, `callEdges` — the calls that count, with and without repetitions;
* `CallEdge.couplings` — the pairs of a call in a direction;
* `groupPairs` — one record for each owner, with a count for each class it is coupled to;
* `CallTally.Numbered` — the numbers of a tally stand for the classes that its records name;
* `analyzeCalls_records` — the records of an analysis are such a grouping;
* `CallReport.Couples` — what a report says, whatever the order of its records.
-/

namespace JvmCoupling

/-! ## The calls that count -/

/-- A call site in a method of `caller` couples two classes of the scope.  In target mode one of them has
to be the target. -/
def CallSite.Couples (scope : Scope) (caller : Bytes) (site : CallSite) : Prop :=
  site.owner ≠ [] ∧ scope.InScope site.owner ∧ site.owner ≠ caller ∧
    (scope.target ≠ [] → caller = scope.target ∨ site.owner = scope.target)

instance (scope : Scope) (caller : Bytes) (site : CallSite) : Decidable (site.Couples scope caller) :=
  inferInstanceAs (Decidable (_ ∧ _))

theorem CallSite.couples_iff {scope : Scope} {caller : Bytes} {site : CallSite} :
    site.Couples scope caller ↔ site.isResolved = true ∧
      (decide (site.owner = caller) || !scope.includes site.owner) = false ∧ scope.keeps caller site.owner = true := by
  have target : scope.keeps caller site.owner = true ↔
      (scope.target ≠ [] → caller = scope.target ∨ site.owner = scope.target) := by
    simp [Scope.keeps, Scope.hasTarget, Scope.touchesTarget, imp_iff_not_or]
  rw [Couples, target, Bool.or_eq_false_iff, Bool.not_eq_false', Scope.includes_iff]
  simp only [isResolved, decide_eq_true_eq, decide_eq_false_iff_not, ne_eq]
  tauto

/-- The edge of a call site, if it counts. -/
def siteEdges (scope : Scope) (caller signature : Bytes) (site : CallSite) : List CallEdge :=
  if site.Couples scope caller then [⟨caller, site.owner, signature, site.method⟩] else []

/-- The edges of a class in scope: those of its methods, call site by call site. -/
def classEdges (scope : Scope) (c : ClassInfo) : List CallEdge :=
  if scope.InScope c.name then
    c.methods.flatMap fun m => m.calls.flatMap (siteEdges scope c.name m.signature)
  else []

/-- The edges of a universe as they are observed. -/
def observedEdges (u : Universe) (scope : Scope) : List CallEdge := u.classes.flatMap (classEdges scope)

/-- The distinct edges of a universe, in the order in which they are first observed. -/
def callEdges (u : Universe) (scope : Scope) : List CallEdge := (observedEdges u scope).eraseDups

/-! ## Grouping -/

/-- The pairs of owner and coupled class that an edge stands for.  The caller owns one unless only callees
do, and in the directions `callee` and `both` the callee owns one. -/
def CallEdge.couplings (direction : Direction) (e : CallEdge) : List (Bytes × Bytes) :=
  (if direction = .callee then [] else [(e.caller, e.callee)]) ++
    (if direction = .callee ∨ direction = .both then [(e.callee, e.caller)] else [])

/-- The classes that an owner is coupled to, in the order of its pairs, with the number of pairs. -/
def coupledTo (pairs : List (Bytes × Bytes)) (owner : Bytes) : List CoupledClass :=
  ((pairs.filter (·.1 = owner)).map Prod.snd).eraseDups.map fun other => ⟨other, pairs.count (owner, other)⟩

/-- One record for each owner, in the order of the pairs. -/
def groupPairs (pairs : List (Bytes × Bytes)) : List CallRecord :=
  (pairs.map Prod.fst).eraseDups.map fun owner => ⟨owner, coupledTo pairs owner⟩

/-- One more call to the class of a name. -/
def countName (name : Bytes) : List CoupledClass → List CoupledClass
  | [] => [⟨name, 1⟩]
  | c :: rest => if c.name = name then ⟨name, c.calls + 1⟩ :: rest else c :: countName name rest

/-- One more call from the class of one name to that of another. -/
def countNames (owner name : Bytes) : List CallRecord → List CallRecord
  | [] => [⟨owner, countName name []⟩]
  | r :: rest =>
    if r.owner = owner then ⟨owner, countName name r.coupled⟩ :: rest else r :: countNames owner name rest

section Update

/-! A list keyed by names is updated at one of them: the entry of the name grows, or a new one is put at the
end. -/

variable {β : Type} (update : List β → List β) {key : β → Bytes} {name : Bytes} {fresh : β} {grow : β → β}
  (nil : update [] = [fresh])
  (cons : ∀ b rest, update (b :: rest) = if key b = name then grow b :: rest else b :: update rest)
  {entry entry' : Bytes → β} (key_entry : ∀ x, key (entry x) = x)
  (others : ∀ x, x ≠ name → entry' x = entry x)

include cons key_entry others

theorem update_of_mem {names : List Bytes} (nodup : names.Nodup) (member : name ∈ names)
    (grown : entry' name = grow (entry name)) : update (names.map entry) = names.map entry' := by
  induction names with
  | nil => simp at member
  | cons x names ih =>
    obtain ⟨absent, nodup⟩ := List.nodup_cons.1 nodup
    rw [List.map_cons, List.map_cons, cons, key_entry]
    by_cases here : x = name
    · -- the name does not come back, so the entries behind it stay as they are
      subst here
      rw [if_pos rfl, grown]
      congr 1
      exact List.map_congr_left fun y later => (others y (by rintro rfl; exact absent later)).symm
    · have later : name ∈ names := by simpa [Ne.symm here] using member
      rw [if_neg here, others x here, ih nodup later]

include nil

theorem update_of_not_mem {names : List Bytes} (absent : name ∉ names) (new : entry' name = fresh) :
    update (names.map entry) = (names ++ [name]).map entry' := by
  induction names with
  | nil => simp [nil, new]
  | cons x names ih =>
    have elsewhere : x ≠ name := by
      rintro rfl
      exact absent List.mem_cons_self
    rw [List.map_cons, List.cons_append, List.map_cons, cons, key_entry, if_neg elsewhere, others x elsewhere,
      ih fun later => absent (List.mem_cons_of_mem x later)]

theorem update_eraseDups {names : List Bytes} (grown : name ∈ names → entry' name = grow (entry name))
    (new : name ∉ names → entry' name = fresh) :
    update (names.eraseDups.map entry) = (names ++ [name]).eraseDups.map entry' := by
  rw [eraseDups_concat]
  split
  · next member =>
    exact update_of_mem update cons key_entry others (nodup_eraseDups names) (by simpa using member) (grown member)
  · next absent =>
    exact update_of_not_mem update nil cons key_entry others (by simpa using absent) (new absent)

end Update

theorem mem_coupledTo {pairs : List (Bytes × Bytes)} {owner : Bytes} {entry : CoupledClass} :
    entry ∈ coupledTo pairs owner ↔
      (owner, entry.name) ∈ pairs ∧ entry.calls = pairs.count (owner, entry.name) := by
  simp only [coupledTo, List.mem_map, List.mem_eraseDups, List.mem_filter, decide_eq_true_eq]
  constructor
  · rintro ⟨other, ⟨pair, ⟨member, rfl⟩, rfl⟩, rfl⟩
    exact ⟨member, rfl⟩
  · rintro ⟨member, calls⟩
    obtain ⟨name, _⟩ := entry
    exact ⟨name, ⟨_, ⟨member, rfl⟩, rfl⟩, by rw [← calls]⟩

theorem coupledTo_eq_nil {pairs : List (Bytes × Bytes)} {owner : Bytes} :
    coupledTo pairs owner = [] ↔ owner ∉ pairs.map Prod.fst := by
  simp [List.eq_nil_iff_forall_not_mem, coupledTo]

theorem mem_groupPairs {pairs : List (Bytes × Bytes)} {record : CallRecord} :
    record ∈ groupPairs pairs ↔ record.owner ∈ pairs.map Prod.fst ∧ record.coupled = coupledTo pairs record.owner := by
  simp only [groupPairs, List.mem_map, List.mem_eraseDups]
  constructor
  · rintro ⟨owner, member, rfl⟩
    exact ⟨member, rfl⟩
  · rintro ⟨member, coupled⟩
    exact ⟨record.owner, member, by rw [← coupled]⟩

/-- One more pair of an owner counts one more call to the coupled class. -/
theorem coupledTo_concat_self (pairs : List (Bytes × Bytes)) (owner name : Bytes) :
    coupledTo (pairs ++ [(owner, name)]) owner = countName name (coupledTo pairs owner) := by
  have names : ((pairs ++ [(owner, name)]).filter (·.1 = owner)).map Prod.snd =
      (pairs.filter (·.1 = owner)).map Prod.snd ++ [name] := by simp
  unfold coupledTo
  rw [names]
  symm
  apply update_eraseDups (countName name) rfl (fun _ _ => rfl) (fun _ => rfl)
  · intro x other
    simp [other.symm]
  · intro _
    simp
  · intro absent
    have none : pairs.count (owner, name) = 0 := by
      rw [List.count_eq_zero]
      intro member
      exact absent (List.mem_map.2 ⟨_, List.mem_filter.2 ⟨member, by simp⟩, rfl⟩)
    simp [none]

theorem coupledTo_concat_of_ne {owner x : Bytes} (other : x ≠ owner) (pairs : List (Bytes × Bytes)) (name : Bytes) :
    coupledTo (pairs ++ [(owner, name)]) x = coupledTo pairs x := by
  simp [coupledTo, other.symm]

/-- Grouping one more pair is counting it. -/
theorem groupPairs_concat (pairs : List (Bytes × Bytes)) (owner name : Bytes) :
    groupPairs (pairs ++ [(owner, name)]) = countNames owner name (groupPairs pairs) := by
  unfold groupPairs
  rw [List.map_append]
  symm
  apply update_eraseDups (countNames owner name) rfl (fun _ _ => rfl) (fun _ => rfl)
  · intro x other
    rw [coupledTo_concat_of_ne other]
  · intro _
    rw [coupledTo_concat_self]
  · intro absent
    rw [coupledTo_concat_self, coupledTo_eq_nil.2 absent]

/-! ## The tally of a run -/

namespace CallTally

variable {scope : Scope} {direction : Direction} {edges : List CallEdge} {t : CallTally}

/-! ### Numbers -/

/-- The numbers of a record are those of the classes that it names. -/
structure Numbers (index : ClassIndex) (r : NumberedRecord) : Prop where
  owner : index.name? r.id = some r.owner
  coupled : ∀ c ∈ r.coupled, index.name? c.id = some c.entry.name

theorem Numbers.mono {index index' : ClassIndex} {r : NumberedRecord}
    (grows : ∀ {id name}, index.name? id = some name → index'.name? id = some name) (numbers : Numbers index r) :
    Numbers index' r :=
  ⟨grows numbers.owner, fun c listed => grows (numbers.coupled c listed)⟩

section Pair

variable {index : ClassIndex} {ownerId id : Nat} {owner name : Bytes} (named : index.name? id = some name)

include named

/-- Counting under the number of a class is counting under its name. -/
theorem entry_countCall {coupled : List NumberedClass}
    (numbers : ∀ c ∈ coupled, index.name? c.id = some c.entry.name) :
    (countCall id name coupled).map (·.entry) = countName name (coupled.map (·.entry)) := by
  induction coupled with
  | nil => rfl
  | cons c rest ih =>
    have same : c.id = id ↔ c.entry.name = name := ClassIndex.id_eq_iff (numbers c List.mem_cons_self) named
    rw [List.map_cons, countCall, countName]
    by_cases here : c.id = id
    · rw [if_pos here, if_pos (same.1 here), List.map_cons, same.1 here]
    · rw [if_neg here, if_neg (mt same.2 here), List.map_cons,
        ih fun c later => numbers c (List.mem_cons_of_mem _ later)]

theorem numbers_countCall {coupled : List NumberedClass}
    (numbers : ∀ c ∈ coupled, index.name? c.id = some c.entry.name) :
    ∀ c ∈ countCall id name coupled, index.name? c.id = some c.entry.name := by
  induction coupled with
  | nil => simpa [countCall] using named
  | cons c rest ih =>
    obtain ⟨here, later⟩ := List.forall_mem_cons.1 numbers
    unfold countCall
    split
    · next same => exact List.forall_mem_cons.2 ⟨same ▸ here, later⟩
    · exact List.forall_mem_cons.2 ⟨here, ih later⟩

variable (ownerNamed : index.name? ownerId = some owner)

include ownerNamed

theorem record_countPair {records : List NumberedRecord} (numbers : ∀ r ∈ records, Numbers index r) :
    (countPair ownerId owner id name records).map NumberedRecord.record =
      countNames owner name (records.map NumberedRecord.record) := by
  induction records with
  | nil => rfl
  | cons r rest ih =>
    obtain ⟨here, later⟩ := List.forall_mem_cons.1 numbers
    have same : r.id = ownerId ↔ r.record.owner = owner := ClassIndex.id_eq_iff here.owner ownerNamed
    rw [List.map_cons, countPair, countNames]
    by_cases own : r.id = ownerId
    · have counted : NumberedRecord.record { r with coupled := countCall id name r.coupled } =
          ⟨owner, countName name r.record.coupled⟩ :=
        congrArg₂ CallRecord.mk (same.1 own) (entry_countCall named here.coupled)
      rw [if_pos own, if_pos (same.1 own), List.map_cons, counted]
    · rw [if_neg own, if_neg (mt same.2 own), List.map_cons, ih later]

theorem numbers_countPair {records : List NumberedRecord} (numbers : ∀ r ∈ records, Numbers index r) :
    ∀ r ∈ countPair ownerId owner id name records, Numbers index r := by
  induction records with
  | nil => exact List.forall_mem_singleton.2 ⟨ownerNamed, List.forall_mem_singleton.2 named⟩
  | cons r rest ih =>
    obtain ⟨here, later⟩ := List.forall_mem_cons.1 numbers
    unfold countPair
    split
    · exact List.forall_mem_cons.2 ⟨⟨here.owner, numbers_countCall named here.coupled⟩, later⟩
    · exact List.forall_mem_cons.2 ⟨here, ih later⟩

end Pair

/-- The records of a tally without their numbers. -/
def callRecords (t : CallTally) : List CallRecord := t.records.map NumberedRecord.record

/-- A tally whose numbers are those of its index. -/
def Numbered (t : CallTally) : Prop := ∀ r ∈ t.records, Numbers t.index r

/-- The number that the first class of a pair gets keeps standing for it when the second one is numbered. -/
theorem named_addPair (t : CallTally) (pair : Bytes × Bytes) :
    let first := t.index.intern pair.1
    let second := first.2.intern pair.2
    (t.addPair pair).index = second.2 ∧
    (t.addPair pair).records = countPair first.1 pair.1 second.1 pair.2 t.records ∧
    second.2.name? first.1 = some pair.1 ∧ second.2.name? second.1 = some pair.2 ∧
    ∀ {id name}, t.index.name? id = some name → second.2.name? id = some name := by
  intro first second
  refine ⟨rfl, rfl, ?_, ClassIndex.name?_intern_self _ _, fun named => ?_⟩
  · exact ClassIndex.name?_intern (ClassIndex.name?_intern_self _ _) _
  · exact ClassIndex.name?_intern (ClassIndex.name?_intern named _) _

theorem Numbered.addPair (numbered : t.Numbered) (pair : Bytes × Bytes) : (t.addPair pair).Numbered := by
  obtain ⟨index, records, ownerNamed, named, grows⟩ := t.named_addPair pair
  rw [Numbered, index, records]
  exact numbers_countPair named ownerNamed fun r listed => (numbered r listed).mono grows

theorem Numbered.callRecords_addPair (numbered : t.Numbered) (pair : Bytes × Bytes) :
    (t.addPair pair).callRecords = countNames pair.1 pair.2 t.callRecords := by
  obtain ⟨-, records, ownerNamed, named, grows⟩ := t.named_addPair pair
  rw [callRecords, records, record_countPair named ownerNamed fun r listed => (numbered r listed).mono grows,
    callRecords]

/-! ### Edges -/

/-- A tally that has met the edges of a list, in order and with repetitions. -/
structure Tracks (direction : Direction) (edges : List CallEdge) (t : CallTally) : Prop where
  seen : t.seen = edges.eraseDups.reverse
  numbered : t.Numbered
  records : t.callRecords = groupPairs (edges.eraseDups.flatMap (CallEdge.couplings direction))

@[simp] theorem seen_addPair (t : CallTally) (pair : Bytes × Bytes) : (t.addPair pair).seen = t.seen := rfl

theorem seen_foldl_addPair (pairs : List (Bytes × Bytes)) (t : CallTally) :
    (pairs.foldl addPair t).seen = t.seen := by
  induction pairs generalizing t with
  | nil => rfl
  | cons pair pairs ih => rw [List.foldl_cons, ih, seen_addPair]

theorem records_foldl_addPair {before : List (Bytes × Bytes)} (pairs : List (Bytes × Bytes)) {t : CallTally}
    (numbered : t.Numbered) (records : t.callRecords = groupPairs before) :
    (pairs.foldl addPair t).Numbered ∧ (pairs.foldl addPair t).callRecords = groupPairs (before ++ pairs) := by
  induction pairs generalizing t before with
  | nil => exact ⟨numbered, by simpa using records⟩
  | cons pair pairs ih =>
    have counted : (t.addPair pair).callRecords = groupPairs (before ++ [pair]) := by
      rw [numbered.callRecords_addPair, records, groupPairs_concat]
    have rest := ih (numbered.addPair pair) counted
    rwa [List.append_assoc, List.singleton_append] at rest

theorem couplings_eq_pairs (direction : Direction) (e : CallEdge) :
    e.couplings direction = direction.pairs e.caller e.callee := by
  cases direction <;> rfl

theorem Tracks.addEdge (tracks : Tracks direction edges t) (e : CallEdge) :
    Tracks direction (edges ++ [e]) (t.addEdge direction e) := by
  have known : t.seen.contains e = true ↔ e ∈ edges := by simp [tracks.seen]
  unfold CallTally.addEdge
  split
  · -- neither the distinct edges nor their pairs change
    next repeated =>
    have member := known.1 repeated
    exact ⟨by simp [eraseDups_concat, member, tracks.seen], tracks.numbered,
      by simp [eraseDups_concat, member, tracks.records]⟩
  · next fresh =>
    have absent : e ∉ edges := fun member => fresh (known.2 member)
    obtain ⟨numbered, records⟩ :=
      records_foldl_addPair (e.couplings direction) (t := { t with seen := e :: t.seen }) tracks.numbered tracks.records
    rw [← couplings_eq_pairs]
    refine ⟨?_, numbered, ?_⟩
    · rw [seen_foldl_addPair, eraseDups_concat, if_neg absent, List.reverse_append, tracks.seen]
      rfl
    · rw [records, eraseDups_concat, if_neg absent, List.flatMap_append, List.flatMap_singleton]

theorem Tracks.addSite (tracks : Tracks direction edges t) (caller signature : Bytes) (site : CallSite) :
    Tracks direction (edges ++ siteEdges scope caller signature site)
      (t.addSite scope direction caller signature site) := by
  unfold CallTally.addSite siteEdges
  by_cases couples : site.Couples scope caller
  · obtain ⟨resolved, inside, kept⟩ := CallSite.couples_iff.1 couples
    simp only [resolved, inside, kept, couples, Bool.not_true, Bool.false_eq_true, if_true, if_false]
    exact tracks.addEdge _
  · -- whichever test leaves the site out, at most a counter changes
    rw [if_neg couples, List.append_nil]
    split
    · exact ⟨tracks.seen, tracks.numbered, tracks.records⟩
    · split
      · exact tracks
      · split
        · exact tracks
        · exact absurd (CallSite.couples_iff.2 (by simp_all)) couples

/-- What holds for one element of a loop holds for the loop. -/
theorem Tracks.foldl {β : Type} {step : CallTally → β → CallTally} {found : β → List CallEdge}
    (each : ∀ {edges t} (x : β), Tracks direction edges t → Tracks direction (edges ++ found x) (step t x))
    (xs : List β) (tracks : Tracks direction edges t) :
    Tracks direction (edges ++ xs.flatMap found) (xs.foldl step t) :=
  foldl_flatMap (fun x _ {_ _} tracks => each x tracks) tracks

theorem Tracks.addClass (tracks : Tracks direction edges t) (c : ClassInfo) :
    Tracks direction (edges ++ classEdges scope c) (t.addClass scope direction c) := by
  unfold CallTally.addClass classEdges
  simp only [Scope.includes_iff]
  split
  · -- the counter of classes is no part of what is tracked
    have counted : Tracks direction edges { t with classes := t.classes + 1 } :=
      ⟨tracks.seen, tracks.numbered, tracks.records⟩
    refine Tracks.foldl ?_ c.methods counted
    intro edges t m tracks
    refine Tracks.foldl ?_ m.calls tracks
    intro edges t site tracks
    exact tracks.addSite c.name m.signature site
  · simpa using tracks

/-- What a whole run has met. -/
theorem tracks_universe (u : Universe) (scope : Scope) (direction : Direction) :
    Tracks direction (observedEdges u scope) (u.classes.foldl (addClass scope direction) {}) := by
  have start : Tracks direction [] {} := ⟨rfl, fun _ listed => absurd listed List.not_mem_nil, rfl⟩
  exact Tracks.foldl (fun c tracks => tracks.addClass c) u.classes start

end CallTally

/-! ## The records -/

/-- The pairs of owner and coupled class of a universe. -/
def couplings (u : Universe) (scope : Scope) (direction : Direction) : List (Bytes × Bytes) :=
  (callEdges u scope).flatMap (CallEdge.couplings direction)

theorem records_analyzeCalls (u : Universe) (scope : Scope) (direction : Direction) :
    (analyzeCalls u scope direction).records = groupPairs (couplings u scope direction) :=
  (CallTally.tracks_universe u scope direction).records

/-- The report couples `owner` to `other` by this number of calls. -/
def CallReport.Couples (report : CallReport) (owner other : Bytes) (calls : Int) : Prop :=
  ∃ record ∈ report.records, record.owner = owner ∧ ⟨other, calls⟩ ∈ record.coupled

theorem couples_analyzeCalls {u : Universe} {scope : Scope} {direction : Direction} {owner other : Bytes}
    {calls : Int} :
    (analyzeCalls u scope direction).Couples owner other calls ↔
      (owner, other) ∈ couplings u scope direction ∧ calls = (couplings u scope direction).count (owner, other) := by
  simp only [CallReport.Couples, records_analyzeCalls, mem_groupPairs]
  constructor
  · rintro ⟨record, ⟨-, coupled⟩, rfl, listed⟩
    rw [coupled] at listed
    exact mem_coupledTo.1 listed
  · intro listed
    exact ⟨⟨owner, _⟩, ⟨List.mem_map_of_mem listed.1, rfl⟩, rfl, mem_coupledTo.2 listed⟩

theorem mem_observedEdges {u : Universe} {scope : Scope} {e : CallEdge} :
    e ∈ observedEdges u scope ↔ ∃ c ∈ u.classes, scope.InScope c.name ∧ ∃ m ∈ c.methods, ∃ site ∈ m.calls,
      site.Couples scope c.name ∧ e = ⟨c.name, site.owner, m.signature, site.method⟩ := by
  simp only [observedEdges, classEdges, siteEdges, List.mem_flatMap, List.mem_ite_nil_right, List.mem_singleton]

/-- Both classes of a pair are in scope, and they are not the same. -/
theorem scoped_of_mem_couplings {u : Universe} {scope : Scope} {direction : Direction} {owner other : Bytes}
    (member : (owner, other) ∈ couplings u scope direction) :
    scope.InScope owner ∧ scope.InScope other ∧ other ≠ owner := by
  simp only [couplings, callEdges, List.mem_flatMap, List.mem_eraseDups, mem_observedEdges] at member
  obtain ⟨e, ⟨c, -, inScope, m, -, site, -, couples, rfl⟩, pair⟩ := member
  obtain ⟨-, inScope', different, -⟩ := couples
  simp only [CallEdge.couplings, List.mem_append, List.mem_ite_nil_left, List.mem_ite_nil_right, List.mem_singleton,
    Prod.mk.injEq] at pair
  rcases pair with ⟨-, rfl, rfl⟩ | ⟨-, rfl, rfl⟩
  · exact ⟨inScope, inScope', different⟩
  · exact ⟨inScope', inScope, different.symm⟩

/-- The records of an analysis are the grouping of the distinct calls of the universe: one for each owner,
in the order of its first pair, with one entry for each class it is coupled to, in the order of the first
pair of the two, and the number of such pairs.  All classes named are in scope, a record is never empty,
and no class is coupled to itself. -/
theorem analyzeCalls_records (u : Universe) (scope : Scope) (direction : Direction) :
    (analyzeCalls u scope direction).records = groupPairs (couplings u scope direction) ∧
    ∀ record ∈ (analyzeCalls u scope direction).records,
      scope.InScope record.owner ∧ record.coupled ≠ [] ∧
      ∀ entry ∈ record.coupled, scope.InScope entry.name ∧ entry.name ≠ record.owner ∧ 1 ≤ entry.calls := by
  refine ⟨records_analyzeCalls u scope direction, ?_⟩
  intro record member
  rw [records_analyzeCalls] at member
  obtain ⟨owns, coupled⟩ := mem_groupPairs.1 member
  rw [coupled]
  obtain ⟨⟨owner, other⟩, pair, rfl⟩ := List.mem_map.1 owns
  refine ⟨(scoped_of_mem_couplings pair).1, fun empty => coupledTo_eq_nil.1 empty owns, ?_⟩
  intro entry listed
  obtain ⟨pair', calls⟩ := mem_coupledTo.1 listed
  obtain ⟨-, inScope, different⟩ := scoped_of_mem_couplings pair'
  have positive := List.count_pos_iff.2 pair'
  exact ⟨inScope, different, by omega⟩

/-- Two methods of `A` that call the same method of `B`, and one of `B` that calls back. -/
def callsBetweenTwo : Universe := ⟨[
  ⟨[0x41], [], [], false, [⟨[0x66], [], [⟨[0x42], [0x6D]⟩]⟩, ⟨[0x67], [], [⟨[0x42], [0x6D]⟩, ⟨[0x42], [0x6D]⟩]⟩]⟩,
  ⟨[0x42], [], [], false, [⟨[0x6D], [], [⟨[0x41], [0x66]⟩, ⟨[0x42], [0x6D]⟩]⟩]⟩]⟩

theorem analyzeCalls_records_callsBetweenTwo :
    (⟨[0x41], [⟨[0x42], 3⟩]⟩ : CallRecord) ∈ (analyzeCalls callsBetweenTwo {} .both).records ∧
      [0x42] ≠ ([0x41] : Bytes) ∧ (1 : Int) ≤ 3 := by
  have listed : (⟨[0x41], [⟨[0x42], 3⟩]⟩ : CallRecord) ∈ (analyzeCalls callsBetweenTwo {} .both).records := by decide
  obtain ⟨-, -, entries⟩ := (analyzeCalls_records callsBetweenTwo {} .both).2 _ listed
  exact ⟨listed, (entries ⟨[0x42], 3⟩ (by decide)).2⟩

end JvmCoupling
