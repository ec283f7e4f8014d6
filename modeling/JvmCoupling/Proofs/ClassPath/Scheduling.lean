import JvmCoupling.Proofs.ClassPath.Loading
import Mathlib

/-! # Loading entries concurrently

The entries of a class path may be loaded by several workers at a time.  Loads start in the order of the
entries, but may end in any order.  The first failure that is handed over is kept and calls the other loads
off; a load that was called off may still come to its own outcome, or fail because it was called off.

`load` is the schedule of a single worker.  The result does not depend on the schedule: a class path loads if
each of its entries does, to the classes of the entries in their order, and otherwise the failure that is
reported is the own failure of an entry.

* `Group`, `Step` — loads under way, and what can happen next;
* `Group.result?` — what the load of a class path comes to, once all its loads have been settled;
* `Consistent`, `Orderly`, `Earliest` — what every step preserves;
* `load_scheduleIndependent` — every schedule ends, and in the result that the entries call for.
-/

namespace JvmCoupling.ClassPath

/-! ## Schedules -/

/-- How far the load of an entry has come.  A load that has returned hands its outcome over before it gives
its worker back. -/
inductive Phase where
  | waiting
  | running
  | returned (outcome : Except EntryError (List ClassInfo))
  | settled (outcome : Except EntryError (List ClassInfo))

namespace Phase

def isWaiting : Phase → Bool
  | waiting => true
  | running | returned _ | settled _ => false

/-- Takes up a worker. -/
def isActive : Phase → Bool
  | running | returned _ => true
  | waiting | settled _ => false

def isSettled : Phase → Bool
  | settled _ => true
  | waiting | running | returned _ => false

/-- How many steps are left. -/
def remaining : Phase → Nat
  | waiting => 3
  | running => 2
  | returned _ => 1
  | settled _ => 0

end Phase

structure Task where
  entry : Bytes
  phase : Phase

/-- The classes that a settled load contributes. -/
def Task.classes (task : Task) : List ClassInfo :=
  match task.phase with
  | .settled (.ok classes) => classes
  | _ => []

/-- The loads of a class path, and the first failure that was handed over. -/
structure Group where
  tasks : List Task
  failure? : Option (Bytes × EntryError)

/-- How many loads take up a worker. -/
def active (tasks : List Task) : Nat := tasks.countP (·.phase.isActive)

/-- As many workers as are asked for; otherwise as many as there are processors. -/
def workerLimit (processors : Nat) (workers : Int) : Nat := if workers ≤ 0 then processors else workers.toNat

/-- A load may always come to its own outcome; once it is called off, it may also fail for that. -/
def MayReturn (t : Tree) (calledOff : Bool) (entry : Bytes) (outcome : Except EntryError (List ClassInfo)) : Prop :=
  outcome = ownOutcome t entry ∨ (calledOff = true ∧ outcome = .error .cancelled)

theorem mayReturn_loadEntry (t : Tree) (calledOff : Bool) (entry : Bytes) :
    MayReturn t calledOff entry (loadEntry t calledOff entry).outcome := by
  cases calledOff with
  | false => exact .inl rfl
  | true => exact (outcome_calledOff t entry).imp_right fun stopped => ⟨rfl, stopped⟩

/-- The first failure, after one more outcome was handed over. -/
def handOver (failure? : Option (Bytes × EntryError)) (entry : Bytes) :
    Except EntryError (List ClassInfo) → Option (Bytes × EntryError)
  | .ok _ => failure?
  | .error cause => failure?.or (some (entry, cause))

/-- Only the first failure is kept. -/
@[simp] theorem handOver_some (first : Bytes × EntryError) (entry : Bytes)
    (outcome : Except EntryError (List ClassInfo)) : handOver (some first) entry outcome = some first := by
  cases outcome <;> rfl

/-- What can happen next.  A failure that was handed over calls the loads under way off. -/
inductive Step (t : Tree) (limit : Nat) : Group → Group → Prop where
  /-- A free worker takes the next entry of the list. -/
  | start (before after : List Task) (entry : Bytes) (failure? : Option (Bytes × EntryError)) :
      (∀ task ∈ before, task.phase.isWaiting = false) → active before + active after < limit →
      Step t limit ⟨before ++ ⟨entry, .waiting⟩ :: after, failure?⟩ ⟨before ++ ⟨entry, .running⟩ :: after, failure?⟩
  /-- A load returns. -/
  | finish (before after : List Task) (entry : Bytes) (failure? : Option (Bytes × EntryError))
      (outcome : Except EntryError (List ClassInfo)) :
      MayReturn t failure?.isSome entry outcome →
      Step t limit ⟨before ++ ⟨entry, .running⟩ :: after, failure?⟩
        ⟨before ++ ⟨entry, .returned outcome⟩ :: after, failure?⟩
  /-- A load hands its outcome over and gives its worker back. -/
  | settle (before after : List Task) (entry : Bytes) (failure? : Option (Bytes × EntryError))
      (outcome : Except EntryError (List ClassInfo)) :
      Step t limit ⟨before ++ ⟨entry, .returned outcome⟩ :: after, failure?⟩
        ⟨before ++ ⟨entry, .settled outcome⟩ :: after, handOver failure? entry outcome⟩

namespace Group

/-- Nothing has started yet. -/
def begin (entries : List Bytes) : Group := ⟨entries.map (⟨·, .waiting⟩), none⟩

/-- A schedule of the loads of a class path leads to this group. -/
def Reached (t : Tree) (limit : Nat) (entries : List Bytes) : Group → Prop :=
  Relation.ReflTransGen (Step t limit) (begin entries)

/-- What the load of the class path comes to, once all its loads are settled. -/
def result? (g : Group) : Option (Except LoadError Universe) :=
  if g.tasks.all (·.phase.isSettled) then
    match g.failure? with
    | some (entry, cause) => some (.error (.badEntry entry cause))
    | none => some (.ok (Universe.ofList ((g.tasks.flatMap Task.classes).map some)))
  else none

end Group

variable {t : Tree} {limit : Nat} {entries : List Bytes} {g g' : Group}

/-- What holds at the start and is preserved by every step holds at any point of a schedule. -/
theorem Group.Reached.induction {motive : Group → Prop} (reached : Reached t limit entries g)
    (start : motive (begin entries)) (step : ∀ {g g'}, motive g → Step t limit g g' → motive g') : motive g := by
  induction reached with
  | refl => exact start
  | tail _ last ih => exact step ih last

theorem Step.entries_eq (step : Step t limit g g') : g'.tasks.map Task.entry = g.tasks.map Task.entry := by
  cases step <;> simp

theorem Group.Reached.entries_eq (reached : Reached t limit entries g) : g.tasks.map Task.entry = entries := by
  refine reached.induction (motive := fun g => g.tasks.map Task.entry = entries) ?_ ?_
  · simp [begin, Function.comp_def]
  · intro g g' same step
    rw [step.entries_eq, same]

/-! ## Every schedule ends -/

/-- How many steps are left to a group. -/
def Group.remaining (g : Group) : Nat := (g.tasks.map (·.phase.remaining)).sum

theorem Step.remaining_eq (step : Step t limit g g') : g'.remaining + 1 = g.remaining := by
  cases step <;> simp [Group.remaining, Phase.remaining] <;> omega

theorem exists_not_step (run : Nat → Group) : ∃ n, ¬Step t limit (run n) (run (n + 1)) := by
  by_contra endless
  simp only [not_exists, not_not] at endless
  have spent : ∀ n, (run n).remaining + n = (run 0).remaining := by
    intro n
    induction n with
    | zero => rfl
    | succ n ih =>
      have step := (endless n).remaining_eq
      omega
  have overspent := spent ((run 0).remaining + 1)
  omega

/-- As long as a load is not settled, something can happen. -/
theorem exists_step (workers : 0 < limit) (unfinished : g.result? = none) : ∃ g', Step t limit g g' := by
  obtain ⟨tasks, failure?⟩ := g
  have unsettled : ∃ task ∈ tasks, task.phase.isSettled = false := by
    by_contra settled
    simp only [not_exists, not_and, Bool.not_eq_false] at settled
    have all : tasks.all (·.phase.isSettled) = true := List.all_eq_true.2 settled
    cases failure? <;> simp [Group.result?, all] at unfinished
  by_cases busy : ∃ task ∈ tasks, task.phase.isActive = true
  · -- a load under way returns, or is settled
    obtain ⟨⟨entry, phase⟩, member, isActive⟩ := busy
    obtain ⟨before, after, rfl⟩ := List.append_of_mem member
    cases phase with
    | waiting => simp [Phase.isActive] at isActive
    | running => exact ⟨_, .finish before after entry failure? (ownOutcome t entry) (.inl rfl)⟩
    | returned outcome => exact ⟨_, .settle before after entry failure? outcome⟩
    | settled outcome => simp [Phase.isActive] at isActive
  · -- all workers are free, and the first load that waits starts
    have idle : ∀ task ∈ tasks, task.phase.isActive = false := by simpa using busy
    obtain ⟨task, member, unsettled⟩ := unsettled
    have waits : (tasks.find? (·.phase.isWaiting)).isSome := by
      refine List.find?_isSome.2 ⟨task, member, ?_⟩
      have := idle task member
      cases phase : task.phase <;> simp_all [Phase.isWaiting, Phase.isActive, Phase.isSettled]
    obtain ⟨⟨entry, phase⟩, first⟩ := Option.isSome_iff_exists.1 waits
    obtain ⟨waiting, before, after, rfl, started⟩ := List.find?_eq_some_iff_append.1 first
    obtain rfl : phase = .waiting := by cases phase <;> simp_all [Phase.isWaiting]
    refine ⟨_, .start before after entry failure? (by simpa using started) ?_⟩
    have none : active before + active after = 0 := by
      simp only [active, Nat.add_eq_zero_iff, List.countP_eq_zero]
      constructor <;> intro task member <;> simp [idle task (by simp [member])]
    omega

/-! ## What the outcomes mean -/

/-- What is known of a load: it came to something that it may come to, and a failure that it handed over has
been noticed. -/
def Task.Consistent (t : Tree) (calledOff : Bool) (task : Task) : Prop :=
  match task.phase with
  | .waiting | .running => True
  | .returned outcome => MayReturn t calledOff task.entry outcome
  | .settled outcome => MayReturn t calledOff task.entry outcome ∧ ∀ cause, outcome = .error cause → calledOff = true

/-- What is known of a group.  The failure that it keeps is the own failure of an entry. -/
structure Consistent (t : Tree) (g : Group) : Prop where
  tasks : ∀ task ∈ g.tasks, task.Consistent t g.failure?.isSome
  failure : ∀ entry cause, g.failure? = some (entry, cause) →
    entry ∈ g.tasks.map Task.entry ∧ ownOutcome t entry = .error cause

theorem MayReturn.mono {calledOff calledOff' : Bool} {entry : Bytes} {outcome : Except EntryError (List ClassInfo)}
    (later : calledOff = true → calledOff' = true) (may : MayReturn t calledOff entry outcome) :
    MayReturn t calledOff' entry outcome :=
  may.imp_right fun ⟨stopped, failed⟩ => ⟨later stopped, failed⟩

theorem Task.Consistent.mono {calledOff calledOff' : Bool} (later : calledOff = true → calledOff' = true) {task : Task}
    (consistent : task.Consistent t calledOff) : task.Consistent t calledOff' := by
  unfold Task.Consistent at consistent ⊢
  split at consistent
  · trivial
  · trivial
  · exact consistent.mono later
  · exact ⟨consistent.1.mono later, fun cause failed => later (consistent.2 cause failed)⟩

theorem isSome_handOver (failure? : Option (Bytes × EntryError)) (entry : Bytes)
    (outcome : Except EntryError (List ClassInfo)) (calledOff : failure?.isSome = true) :
    (handOver failure? entry outcome).isSome = true := by
  cases outcome <;> simp [handOver, calledOff]

theorem Consistent.step (consistent : Consistent t g) (step : Step t limit g g') : Consistent t g' := by
  obtain ⟨tasks, failure⟩ := consistent
  cases step with
  | start before after entry failure? inOrder free =>
    simp only [List.forall_mem_append, List.forall_mem_cons] at tasks
    refine ⟨?_, by simpa using failure⟩
    simp only [List.forall_mem_append, List.forall_mem_cons]
    exact ⟨tasks.1, trivial, tasks.2.2⟩
  | finish before after entry failure? outcome may =>
    simp only [List.forall_mem_append, List.forall_mem_cons] at tasks
    refine ⟨?_, by simpa using failure⟩
    simp only [List.forall_mem_append, List.forall_mem_cons]
    exact ⟨tasks.1, may, tasks.2.2⟩
  | settle before after entry failure? outcome =>
    simp only [List.forall_mem_append, List.forall_mem_cons] at tasks
    obtain ⟨tasksBefore, may, tasksAfter⟩ := tasks
    have later := isSome_handOver failure? entry outcome
    constructor
    · simp only [List.forall_mem_append, List.forall_mem_cons]
      refine ⟨fun task member => (tasksBefore task member).mono later, ⟨MayReturn.mono later may, ?_⟩,
        fun task member => (tasksAfter task member).mono later⟩
      rintro cause rfl
      simp [handOver]
    · intro entry' cause kept
      cases failure? with
      | some first =>
        rw [handOver_some] at kept
        simpa using failure entry' cause kept
      | none =>
        -- before the first failure nothing is called off, so this is an own one
        cases outcome with
        | ok classes => simp [handOver] at kept
        | error cause' =>
          obtain ⟨rfl, rfl⟩ : entry = entry' ∧ cause' = cause := by simpa [handOver] using kept
          rcases may with own | ⟨stopped, -⟩
          · exact ⟨by simp, own.symm⟩
          · simp at stopped

theorem Group.Reached.consistent (reached : Reached t limit entries g) : Consistent t g := by
  refine reached.induction (motive := Consistent t) ⟨?_, ?_⟩ Consistent.step
  · simp [begin, Task.Consistent]
  · simp [begin]

/-- Before the first failure, a settled load has come to classes of its own. -/
theorem Task.Consistent.own_eq {task : Task} (consistent : task.Consistent t false)
    (settled : task.phase.isSettled = true) : ownOutcome t task.entry = .ok task.classes := by
  obtain ⟨entry, phase⟩ := task
  cases phase with
  | settled outcome =>
    obtain ⟨own | ⟨stopped, -⟩, noticed⟩ := consistent
    · cases outcome with
      | ok classes => exact own.symm
      | error cause => simpa using noticed cause rfl
    · simp at stopped
  | _ => simp [Phase.isSettled] at settled

/-! ## A single worker -/

/-- No more loads are under way than there are workers, and no load starts before an earlier one. -/
structure Orderly (limit : Nat) (g : Group) : Prop where
  within : active g.tasks ≤ limit
  inOrder : g.tasks.Pairwise fun a b => a.phase.isWaiting = true → b.phase.isWaiting = true

@[simp] theorem active_append (before after : List Task) : active (before ++ after) = active before + active after :=
  List.countP_append

@[simp] theorem active_cons (task : Task) (tasks : List Task) :
    active (task :: tasks) = active tasks + if task.phase.isActive then 1 else 0 :=
  List.countP_cons

theorem Orderly.step (orderly : Orderly limit g) (step : Step t limit g g') : Orderly limit g' := by
  obtain ⟨within, inOrder⟩ := orderly
  cases step with
  | start before after entry failure? started free =>
    rw [List.pairwise_append, List.pairwise_cons] at inOrder
    obtain ⟨orderedBefore, ⟨-, orderedAfter⟩, across⟩ := inOrder
    refine ⟨by simp [Phase.isActive]; omega, ?_⟩
    rw [List.pairwise_append, List.pairwise_cons]
    refine ⟨orderedBefore, ⟨fun _ _ waits => by simp [Phase.isWaiting] at waits, orderedAfter⟩, ?_⟩
    intro task member other _ waits
    simp [started task member] at waits
  | finish before after entry failure? outcome may =>
    refine ⟨by simpa [Phase.isActive] using within, ?_⟩
    simpa [List.pairwise_append, Phase.isWaiting] using inOrder
  | settle before after entry failure? outcome =>
    refine ⟨by simp [Phase.isActive] at within ⊢; omega, ?_⟩
    simpa [List.pairwise_append, Phase.isWaiting] using inOrder

theorem Group.Reached.orderly (reached : Reached t limit entries g) : Orderly limit g := by
  refine reached.induction (motive := Orderly limit) ⟨?_, ?_⟩ Orderly.step
  · have idle : active (begin entries).tasks = 0 := by simp [begin, active, Phase.isActive]
    omega
  · exact List.pairwise_map.2 (List.pairwise_of_forall fun _ _ _ => rfl)

/-- With a single worker, all loads in front of the one under way are settled. -/
theorem Orderly.settled_before {before after : List Task} {task : Task} {failure? : Option (Bytes × EntryError)}
    (orderly : Orderly 1 ⟨before ++ task :: after, failure?⟩) (busy : task.phase.isActive = true) :
    ∀ earlier ∈ before, earlier.phase.isSettled = true := by
  intro earlier member
  have free : active before = 0 := by
    have within := orderly.within
    simp [busy] at within
    omega
  have idle : earlier.phase.isActive ≠ true := List.countP_eq_zero.1 free earlier member
  have started : earlier.phase.isWaiting = true → task.phase.isWaiting = true :=
    (List.pairwise_append.1 orderly.inOrder).2.2 earlier member task List.mem_cons_self
  cases here : earlier.phase <;> cases there : task.phase <;>
    simp_all [Phase.isActive, Phase.isWaiting, Phase.isSettled]

/-- The failure that is kept belongs to the first entry that fails. -/
def Earliest (t : Tree) (g : Group) : Prop :=
  ∀ entry cause, g.failure? = some (entry, cause) → ∃ before after,
    g.tasks.map Task.entry = before ++ entry :: after ∧
      ∀ earlier ∈ before, ∃ classes, ownOutcome t earlier = .ok classes

theorem Earliest.step (earliest : Earliest t g) (consistent : Consistent t g) (orderly : Orderly 1 g)
    (step : Step t 1 g g') : Earliest t g' := by
  intro entry' cause kept
  rw [step.entries_eq]
  cases step with
  | start => exact earliest entry' cause kept
  | finish => exact earliest entry' cause kept
  | settle before after entry failure? outcome =>
    cases failure? with
    | some first =>
      rw [handOver_some] at kept
      exact earliest entry' cause kept
    | none =>
      -- no load in front of this one has failed, and all of them are settled
      obtain rfl : entry = entry' := by
        cases outcome <;> simp_all [handOver]
      refine ⟨before.map Task.entry, after.map Task.entry, by simp, ?_⟩
      intro earlier listed
      obtain ⟨task, member, rfl⟩ := List.mem_map.1 listed
      have known := consistent.tasks task (List.mem_append_left _ member)
      exact ⟨_, known.own_eq (orderly.settled_before rfl task member)⟩

theorem Group.Reached.earliest (reached : Reached t 1 entries g) : Earliest t g := by
  have both : Earliest t g ∧ Reached t 1 entries g := by
    induction reached with
    | refl => exact ⟨by simp [Earliest, begin], .refl⟩
    | tail before last ih =>
      exact ⟨ih.1.step ih.2.consistent ih.2.orderly last, before.tail last⟩
  exact both.1

/-! ## The result -/

/-- The result that the entries of a class path call for. -/
structure CalledFor (t : Tree) (entries : List Bytes) (result : Except LoadError Universe) : Prop where
  /-- It is a universe if each entry loads on its own. -/
  succeeds_iff : (∃ u, result = .ok u) ↔ ∀ entry ∈ entries, ∃ classes, ownOutcome t entry = .ok classes
  /-- The universe has the classes of the entries, in the order of the entries. -/
  classes_eq : ∀ u, result = .ok u → ∃ classLists,
    List.Forall₂ (fun entry classes => ownOutcome t entry = .ok classes) entries classLists ∧
      u = Universe.ofList (classLists.flatten.map some)
  /-- A failure is the own failure of the entry that it names, which was not called off. -/
  failure_eq : ∀ e, result = .error e → ∃ entry ∈ entries, ∃ cause,
    e = .badEntry entry cause ∧ ownOutcome t entry = .error cause ∧ cause ≠ .cancelled

theorem CalledFor.of_failure {entry : Bytes} {cause : EntryError} (member : entry ∈ entries)
    (own : ownOutcome t entry = .error cause) : CalledFor t entries (.error (.badEntry entry cause)) where
  succeeds_iff := by
    constructor
    · simp
    · intro loads
      obtain ⟨classes, loaded⟩ := loads entry member
      simp [own] at loaded
  classes_eq := by simp
  failure_eq := by
    rintro e same
    refine ⟨entry, member, cause, (Except.error.inj same).symm, own, ?_⟩
    rintro rfl
    exact ownOutcome_ne_cancelled t entry own

theorem CalledFor.of_classes {classLists : List (List ClassInfo)}
    (own : List.Forall₂ (fun entry classes => ownOutcome t entry = .ok classes) entries classLists) :
    CalledFor t entries (.ok (Universe.ofList (classLists.flatten.map some))) where
  succeeds_iff := by
    refine ⟨fun _ entry member => ?_, fun _ => ⟨_, rfl⟩⟩
    obtain ⟨i, bound, rfl⟩ := List.getElem_of_mem member
    exact ⟨_, own.get bound (own.length_eq ▸ bound)⟩
  classes_eq := fun u same => ⟨classLists, own, (Except.ok.inj same).symm⟩
  failure_eq := by simp

theorem Group.Reached.calledFor {result : Except LoadError Universe} (reached : Reached t limit entries g)
    (ends : g.result? = some result) : CalledFor t entries result := by
  have consistent := reached.consistent
  have entriesEq := reached.entries_eq
  unfold result? at ends
  split at ends
  · next settled =>
    cases kept : g.failure? with
    | some first =>
      obtain ⟨member, own⟩ := consistent.failure first.1 first.2 kept
      rw [entriesEq] at member
      obtain rfl : .error (.badEntry first.1 first.2) = result := by simpa [kept] using ends
      exact .of_failure member own
    | none =>
      obtain rfl : .ok (Universe.ofList ((g.tasks.flatMap Task.classes).map some)) = result := by
        simpa [kept] using ends
      rw [List.flatMap_def]
      apply CalledFor.of_classes
      rw [← entriesEq, List.forall₂_map_left_iff, List.forall₂_map_right_iff, List.forall₂_same]
      -- nothing was called off, so every load came to its own classes
      intro task member
      have known := consistent.tasks task member
      rw [kept] at known
      exact known.own_eq (List.all_eq_true.1 settled task member)
  · simp at ends

theorem Group.failure?_of_result? {e : LoadError} (ends : g.result? = some (.error e)) :
    ∃ entry cause, g.failure? = some (entry, cause) ∧ e = .badEntry entry cause := by
  unfold result? at ends
  split at ends
  · cases kept : g.failure? with
    | some first => exact ⟨first.1, first.2, rfl, by simpa [kept] using ends.symm⟩
    | none => simp [kept] at ends
  · simp at ends

/-- With a single worker, the first entry that fails is reported. -/
theorem Group.Reached.first_failing {e : LoadError} (reached : Reached t 1 entries g)
    (ends : g.result? = some (.error e)) :
    ∃ before entry after cause, entries = before ++ entry :: after ∧ e = .badEntry entry cause ∧
      (∀ earlier ∈ before, ∃ classes, ownOutcome t earlier = .ok classes) ∧ ownOutcome t entry = .error cause := by
  obtain ⟨entry, cause, kept, rfl⟩ := failure?_of_result? ends
  obtain ⟨before, after, position, loads⟩ := reached.earliest entry cause kept
  rw [reached.entries_eq] at position
  exact ⟨before, entry, after, cause, position, rfl, loads, (reached.consistent.failure entry cause kept).2⟩

theorem Group.Reached.result_eq_load {result : Except LoadError Universe} (nonempty : entries ≠ [])
    (reached : Reached t 1 entries g) (ends : g.result? = some result) : result = (load t entries false).1 := by
  cases result with
  | ok u =>
    obtain ⟨classLists, own, rfl⟩ := (reached.calledFor ends).classes_eq u rfl
    exact (load_eq_ok nonempty own).symm
  | error e =>
    obtain ⟨before, entry, after, cause, rfl, rfl, loads, fails⟩ := reached.first_failing ends
    exact (load_eq_error loads fails).symm

theorem workerLimit_pos {processors : Nat} (positive : 0 < processors) (workers : Int) :
    0 < workerLimit processors workers := by
  unfold workerLimit
  split <;> omega

/-- Loading a class path does not depend on the schedule.  What a load comes to is as a schedule has it.  Whatever the
number of workers, no schedule goes on for ever, and none gets stuck before all loads are settled; then the result is
the one that the entries call for.  A single worker reports the first entry that fails, as `load` does. -/
theorem load_scheduleIndependent (t : Tree) (entries : List Bytes) (nonempty : entries ≠ []) (processors : Nat)
    (positive : 0 < processors) (workers : Int) :
    (∀ calledOff entry, MayReturn t calledOff entry (loadEntry t calledOff entry).outcome) ∧
    (∀ run : Nat → Group, ∃ n, ¬Step t (workerLimit processors workers) (run n) (run (n + 1))) ∧
    ∀ g, Group.Reached t (workerLimit processors workers) entries g →
      (g.result? = none → ∃ g', Step t (workerLimit processors workers) g g') ∧
      ∀ result, g.result? = some result →
        CalledFor t entries result ∧
        (workerLimit processors workers = 1 →
          result = (load t entries false).1 ∧
          ∀ e, result = .error e → ∃ before entry after cause, entries = before ++ entry :: after ∧
            e = .badEntry entry cause ∧ (∀ earlier ∈ before, ∃ classes, ownOutcome t earlier = .ok classes) ∧
            ownOutcome t entry = .error cause) := by
  refine ⟨mayReturn_loadEntry t, exists_not_step, fun g reached => ⟨exists_step (workerLimit_pos positive workers), ?_⟩⟩
  intro result ends
  refine ⟨reached.calledFor ends, fun single => ?_⟩
  rw [single] at reached
  refine ⟨reached.result_eq_load nonempty ends, ?_⟩
  rintro e rfl
  exact reached.first_failing ends

/-- A directory without files, and nothing else. -/
def emptyDirectory : Tree := { root := .directory [([0x64], .directory [])] }

/-- The failure of an entry that is not there. -/
def missingEntry : EntryError := .path ⟨"stat", [0x67], .noSuchFile⟩

/-- With two workers, the entry that is not there fails while the directory is being read, which is then called
off.  A single worker reads the directory first, and reports the same failure. -/
theorem load_emptyDirectory_calledOff :
    (∃ g, Group.Reached emptyDirectory (workerLimit 4 2) [[0x64], [0x67]] g ∧
      g.tasks.map Task.phase = [.settled (.error .cancelled), .settled (.error missingEntry)] ∧
      g.result? = some (.error (.badEntry [0x67] missingEntry)) ∧
      CalledFor emptyDirectory [[0x64], [0x67]] (.error (.badEntry [0x67] missingEntry))) ∧
    ∃ g, Group.Reached emptyDirectory (workerLimit 4 1) [[0x64], [0x67]] g ∧
      g.tasks.map Task.phase = [.settled (.ok []), .settled (.error missingEntry)] ∧
      g.result? = some (.error (.badEntry [0x67] missingEntry)) ∧
      (load emptyDirectory [[0x64], [0x67]] false).1 = .error (.badEntry [0x67] missingEntry) := by
  have missing : ownOutcome emptyDirectory [0x67] = .error missingEntry := by cbv
  have empty : ownOutcome emptyDirectory [0x64] = .ok [] := by cbv
  let failed : Except EntryError (List ClassInfo) := .error missingEntry
  let stopped : Except EntryError (List ClassInfo) := .error .cancelled
  let failure? : Option (Bytes × EntryError) := some ([0x67], missingEntry)
  constructor
  · let g : Group := ⟨[⟨[0x64], .settled stopped⟩, ⟨[0x67], .settled failed⟩], failure?⟩
    have reached : Group.Reached emptyDirectory (workerLimit 4 2) [[0x64], [0x67]] g := by
      refine .head (.start [] [⟨[0x67], .waiting⟩] [0x64] none (by simp) (by decide)) ?_
      refine .head (.start [⟨[0x64], .running⟩] [] [0x67] none (by simp [Phase.isWaiting]) (by decide)) ?_
      refine .head (.finish [⟨[0x64], .running⟩] [] [0x67] none failed (.inl missing.symm)) ?_
      refine .head (.settle [⟨[0x64], .running⟩] [] [0x67] none failed) ?_
      refine .head (.finish [] [⟨[0x67], .settled failed⟩] [0x64] failure? stopped (.inr ⟨rfl, rfl⟩)) ?_
      exact .single (.settle [] [⟨[0x67], .settled failed⟩] [0x64] failure? stopped)
    have ends : g.result? = some (.error (.badEntry [0x67] missingEntry)) := rfl
    have independent := load_scheduleIndependent emptyDirectory [[0x64], [0x67]] (by simp) 4 (by decide) 2
    exact ⟨g, reached, rfl, ends, ((independent.2.2 g reached).2 _ ends).1⟩
  · let g : Group := ⟨[⟨[0x64], .settled (.ok [])⟩, ⟨[0x67], .settled failed⟩], failure?⟩
    have reached : Group.Reached emptyDirectory (workerLimit 4 1) [[0x64], [0x67]] g := by
      refine .head (.start [] [⟨[0x67], .waiting⟩] [0x64] none (by simp) (by decide)) ?_
      refine .head (.finish [] [⟨[0x67], .waiting⟩] [0x64] none (.ok []) (.inl empty.symm)) ?_
      refine .head (.settle [] [⟨[0x67], .waiting⟩] [0x64] none (.ok [])) ?_
      refine .head (.start [⟨[0x64], .settled (.ok [])⟩] [] [0x67] none (by simp [Phase.isWaiting]) (by decide)) ?_
      refine .head (.finish [⟨[0x64], .settled (.ok [])⟩] [] [0x67] none failed (.inl missing.symm)) ?_
      exact .single (.settle [⟨[0x64], .settled (.ok [])⟩] [] [0x67] none failed)
    have ends : g.result? = some (.error (.badEntry [0x67] missingEntry)) := rfl
    have independent := load_scheduleIndependent emptyDirectory [[0x64], [0x67]] (by simp) 4 (by decide) 1
    exact ⟨g, reached, rfl, ends, (((independent.2.2 g reached).2 _ ends).2 rfl).1.symm⟩

end JvmCoupling.ClassPath
