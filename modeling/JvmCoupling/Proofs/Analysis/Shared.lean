import JvmCoupling.Scope
import JvmCoupling.Universe
import Mathlib.Data.List.Induction
import Mathlib.Data.List.Nodup

/-! # Shared facts of the analyses

Both analyses restrict themselves to a scope and list things in the order in which they were first seen.

* `Scope.InScope`, `classesInScope` — the classes that take part;
* `Universe.add_cases` — what adding a class can come to;
* `Universe.nodup_names_ofList`, `Universe.find?_eq_some` — a name stands for at most one class;
* `Universe.ofList_induction` — what holds of every universe, one class at a time;
* `Universe.prefix_ofList_append` — the classes that are there stay in front;
* `find?_map_key` — an entry of a list is found under its key;
* `foldl_flatMap` — what a loop has found at its end;
* `eraseDups_concat`, `nodup_eraseDups`, `firstSeen_eq_eraseDups` — first occurrences, one element at a time;
* `eraseDups_append_filter` — first occurrences in two lists;
* `filter_eraseDups`, `eraseDups_flatMap_blocks` — first occurrences in a part of a list, and in blocks.
-/

namespace JvmCoupling

/-! ## Scope -/

/-- A class takes part if its name starts with the package prefix, or if it is the target. -/
def Scope.InScope (s : Scope) (name : Bytes) : Prop :=
  s.packagePrefix <+: name ∨ (s.target ≠ [] ∧ name = s.target)

instance (s : Scope) (name : Bytes) : Decidable (s.InScope name) :=
  inferInstanceAs (Decidable (_ ∨ _))

@[simp] theorem Scope.includes_iff {s : Scope} {name : Bytes} : s.includes name = true ↔ s.InScope name := by
  simp [includes, hasTarget, InScope, or_comm]

/-! ## Universe -/

namespace Universe

theorem mem_names {u : Universe} {name : Bytes} : name ∈ u.names ↔ ∃ c ∈ u.classes, c.name = name :=
  List.mem_map

theorem contains_iff {u : Universe} {name : Bytes} : u.contains name = true ↔ name ∈ u.names := by
  simp [contains, find?, mem_names]

/-- A class is refused because it has no name or its name is taken; otherwise it comes last. -/
theorem add_cases (u : Universe) (class? : Option ClassInfo) :
    (u.accepts class? = false ∧ u.add class? = u ∧ ∀ c, class? = some c → c.name = [] ∨ c.name ∈ u.names) ∨
    ∃ c, class? = some c ∧ u.accepts class? = true ∧ u.add class? = ⟨u.classes ++ [c]⟩ ∧
      c.name ≠ [] ∧ c.name ∉ u.names := by
  cases class? with
  | none => exact .inl ⟨rfl, rfl, by simp⟩
  | some c =>
    have accepts : u.accepts (some c) = true ↔ c.name ≠ [] ∧ c.name ∉ u.names := by
      rw [← contains_iff]
      simp [accepts]
    by_cases accepted : u.accepts (some c) = true
    · exact .inr ⟨c, rfl, accepted, if_pos accepted, accepts.1 accepted⟩
    · refine .inl ⟨by simpa using accepted, if_neg accepted, ?_⟩
      rintro _ ⟨⟩
      rw [accepts] at accepted
      tauto

theorem nodup_names_add {u : Universe} (nodup : u.names.Nodup) (class? : Option ClassInfo) :
    (u.add class?).names.Nodup := by
  rcases u.add_cases class? with ⟨-, same, -⟩ | ⟨c, -, -, grown, -, fresh⟩
  · rwa [same]
  · rw [grown, names, List.map_append, List.map_singleton, ← List.concat_eq_append]
    exact nodup.concat fresh

/-- What an empty universe has and a further class does not take away, every universe has. -/
theorem ofList_induction {motive : Universe → Prop} (empty : motive {})
    (add : ∀ {u : Universe}, motive u → ∀ class? : Option ClassInfo, motive (u.add class?))
    (classes : List (Option ClassInfo)) : motive (ofList classes) := by
  unfold ofList
  generalize ({} : Universe) = u at empty ⊢
  induction classes generalizing u with
  | nil => exact empty
  | cons class? classes ih => exact ih _ (add empty class?)

/-- No two classes of a universe have the same name. -/
theorem nodup_names_ofList (classes : List (Option ClassInfo)) : (ofList classes).names.Nodup :=
  ofList_induction (motive := fun u => u.names.Nodup) .nil nodup_names_add classes

/-- Every class of a universe has a name. -/
theorem nil_not_mem_names_ofList (classes : List (Option ClassInfo)) : [] ∉ (ofList classes).names := by
  refine ofList_induction (motive := fun u => [] ∉ u.names) (by simp [names]) ?_ classes
  intro u named class?
  rcases u.add_cases class? with ⟨-, same, -⟩ | ⟨c, -, -, grown, name, -⟩
  · rwa [same]
  · simp only [grown, names, List.map_append, List.map_cons, List.map_nil, List.mem_append, List.mem_singleton, not_or]
    exact ⟨named, name.symm⟩

/-- Classes with names of their own are all kept. -/
theorem classes_ofList_of_nodup {classes : List ClassInfo} (distinct : (classes.map (·.name)).Nodup)
    (named : ∀ c ∈ classes, c.name ≠ []) : (ofList (classes.map some)).classes = classes := by
  induction classes using List.reverseRecOn with
  | nil => rfl
  | append_singleton classes c ih =>
    rw [List.map_append, List.nodup_append] at distinct
    obtain ⟨distinct, -, apart⟩ := distinct
    have before := ih distinct fun d member => named d (List.mem_append_left _ member)
    have fresh : (ofList (classes.map some)).contains c.name = false := by
      rw [Bool.eq_false_iff, Ne, contains_iff, names, before]
      exact fun member => apart _ member c.name (by simp) rfl
    have accepted : (ofList (classes.map some)).accepts (some c) = true := by
      simp [accepts, fresh, named c (by simp)]
    have step : ofList ((classes ++ [c]).map some) = (ofList (classes.map some)).add (some c) := by
      simp [ofList, List.foldl_append]
    rw [step, add]
    simp only [accepted, if_true, before]

theorem prefix_add (u : Universe) (class? : Option ClassInfo) : u.classes <+: (u.add class?).classes := by
  rcases u.add_cases class? with ⟨-, same, -⟩ | ⟨c, -, -, grown, -⟩
  · exact ⟨[], by rw [same, List.append_nil]⟩
  · exact ⟨[c], by rw [grown]⟩

/-- Further classes do not change those that are there. -/
theorem prefix_ofList_append (classes extra : List (Option ClassInfo)) :
    (ofList classes).classes <+: (ofList (classes ++ extra)).classes := by
  unfold ofList
  rw [List.foldl_append]
  generalize classes.foldl add {} = u
  induction extra generalizing u with
  | nil => exact List.prefix_rfl
  | cons class? extra ih => exact (prefix_add u class?).trans (ih (u.add class?))

theorem find?_eq_some {u : Universe} (nodup : u.names.Nodup) {name : Bytes} {c : ClassInfo} :
    u.find? name = some c ↔ c ∈ u.classes ∧ c.name = name := by
  constructor
  · intro found
    exact ⟨List.mem_of_find?_eq_some found, by simpa using List.find?_some found⟩
  · rintro ⟨member, rfl⟩
    obtain ⟨d, found⟩ : ∃ d, u.find? c.name = some d :=
      Option.isSome_iff_exists.1 (contains_iff.2 (mem_names.2 ⟨c, member, rfl⟩))
    have same : d.name = c.name := by simpa using List.find?_some found
    rw [found, List.inj_on_of_nodup_map nodup (List.mem_of_find?_eq_some found) member same]

theorem find?_eq_none {u : Universe} {name : Bytes} : u.find? name = none ↔ name ∉ u.names := by
  rw [← contains_iff, contains, Option.not_isSome_iff_eq_none]

end Universe

/-- The names of the classes of a universe that are in scope, in universe order. -/
def classesInScope (u : Universe) (scope : Scope) : List Bytes := u.names.filter fun name => scope.InScope name

theorem mem_classesInScope {u : Universe} {scope : Scope} {name : Bytes} :
    name ∈ classesInScope u scope ↔ name ∈ u.names ∧ scope.InScope name := by
  simp [classesInScope]

theorem nodup_classesInScope {u : Universe} (nodup : u.names.Nodup) (scope : Scope) :
    (classesInScope u scope).Nodup :=
  nodup.filter _

/-! ## Keys -/

theorem find?_map_key {α β : Type} [DecidableEq α] {key : β → α} {entry : α → β} (key_entry : ∀ x, key (entry x) = x)
    (keys : List α) (k : α) :
    (keys.map entry).find? (fun b => key b = k) = if k ∈ keys then some (entry k) else none := by
  induction keys with
  | nil => rfl
  | cons x keys ih =>
    rw [List.map_cons]
    by_cases here : x = k
    · rw [List.find?_cons_of_pos (by simpa [key_entry] using here), here, if_pos List.mem_cons_self]
    · rw [List.find?_cons_of_neg (by simpa [key_entry] using here), ih]
      simp [Ne.symm here]

/-! ## Loops -/

/-- What a loop keeps of the things that it finds.  If one round adds the finds of its element to those that an
invariant speaks of, all rounds together add the finds of all elements. -/
theorem foldl_flatMap {σ β γ : Type} {motive : List γ → σ → Prop} {step : σ → β → σ} {found : β → List γ}
    {xs : List β} (each : ∀ x ∈ xs, ∀ {done s}, motive done s → motive (done ++ found x) (step s x))
    {done : List γ} {s : σ} (start : motive done s) : motive (done ++ xs.flatMap found) (xs.foldl step s) := by
  induction xs generalizing done s with
  | nil => simpa using start
  | cons x xs ih =>
    rw [List.flatMap_cons, ← List.append_assoc]
    exact ih (fun y later => each y (List.mem_cons_of_mem x later)) (each x List.mem_cons_self start)

/-- A loop that finds the elements of one kind. -/
theorem foldl_filter {σ β : Type} {motive : List β → σ → Prop} {step : σ → β → σ} {keeps : β → Bool} {xs : List β}
    (each : ∀ x ∈ xs, ∀ {done s}, motive done s → motive (done ++ [x].filter keeps) (step s x))
    {done : List β} {s : σ} (start : motive done s) : motive (done ++ xs.filter keeps) (xs.foldl step s) := by
  have whole : motive (done ++ xs.flatMap fun x => [x].filter keeps) (xs.foldl step s) := foldl_flatMap each start
  rwa [← List.filter_flatMap, List.flatMap_singleton'] at whole

/-! ## First occurrences -/

section FirstOccurrence

variable {α : Type} [BEq α] [LawfulBEq α]

/-- An element at the end of a list counts if it is new. -/
theorem eraseDups_concat (xs : List α) (x : α) :
    (xs ++ [x]).eraseDups = if x ∈ xs then xs.eraseDups else xs.eraseDups ++ [x] := by
  rw [List.eraseDups_append]
  split
  · next seen => simp [List.removeAll, seen]
  · next fresh => simp [List.removeAll, fresh, List.eraseDups_cons]

theorem nodup_eraseDups (xs : List α) : xs.eraseDups.Nodup := by
  induction xs using List.reverseRecOn with
  | nil => simp
  | append_singleton xs x ih =>
    rw [eraseDups_concat]
    split
    · exact ih
    · next fresh =>
      rw [← List.concat_eq_append]
      exact ih.concat (by simpa using fresh)

theorem eraseDups_of_nodup {xs : List α} (nodup : xs.Nodup) : xs.eraseDups = xs := by
  induction xs using List.reverseRecOn with
  | nil => rfl
  | append_singleton xs x ih =>
    obtain ⟨nodup, -, apart⟩ := List.nodup_append.1 nodup
    have fresh : x ∉ xs := fun seen => apart x seen x List.mem_cons_self rfl
    rw [eraseDups_concat, if_neg fresh, ih nodup]

/-- Leaving elements out does not change which occurrences of the others come first. -/
theorem filter_eraseDups (keeps : α → Bool) (xs : List α) :
    xs.eraseDups.filter keeps = (xs.filter keeps).eraseDups := by
  induction xs using List.reverseRecOn with
  | nil => rfl
  | append_singleton xs x ih =>
    rw [eraseDups_concat, List.filter_append]
    by_cases kept : keeps x = true
    · have single : [x].filter keeps = [x] := List.filter_cons_of_pos kept
      rw [single, eraseDups_concat, ← ih]
      by_cases seen : x ∈ xs
      · rw [if_pos seen, if_pos (List.mem_filter.2 ⟨seen, kept⟩)]
      · rw [if_neg seen, if_neg fun member => seen (List.mem_filter.1 member).1, List.filter_append, single]
    · have none : [x].filter keeps = [] := List.filter_cons_of_neg kept
      rw [none, List.append_nil, ← ih]
      by_cases seen : x ∈ xs
      · rw [if_pos seen]
      · rw [if_neg seen, List.filter_append, none, List.append_nil]

/-- The first occurrences in two lists are those in the first, and those in the second that the first does not have. -/
theorem eraseDups_append_filter (xs ys : List α) :
    (xs ++ ys).eraseDups = xs.eraseDups ++ ys.eraseDups.filter fun y => !xs.contains y := by
  have rest : ys.removeAll xs = ys.filter fun y => !xs.contains y := rfl
  rw [List.eraseDups_append, rest, filter_eraseDups]

theorem eraseDups_append_congr {xs xs' ys ys' : List α} (left : xs.eraseDups = xs'.eraseDups)
    (right : ys.eraseDups = ys'.eraseDups) : (xs ++ ys).eraseDups = (xs' ++ ys').eraseDups := by
  have same (x : α) : xs.contains x = xs'.contains x := by
    rw [Bool.eq_iff_iff, List.contains_iff_mem, List.contains_iff_mem, ← List.mem_eraseDups, left, List.mem_eraseDups]
  simp only [eraseDups_append_filter, left, right, same]

theorem eraseDups_map_eraseDups {β : Type} [BEq β] [LawfulBEq β] (f : α → β) (xs : List α) :
    (xs.eraseDups.map f).eraseDups = (xs.map f).eraseDups := by
  induction xs using List.reverseRecOn with
  | nil => rfl
  | append_singleton xs x ih =>
    rw [eraseDups_concat, List.map_append, List.map_singleton, eraseDups_concat, ← ih]
    by_cases seen : x ∈ xs
    · rw [if_pos seen, if_pos (List.mem_map_of_mem seen)]
    · have same : f x ∈ xs.eraseDups.map f ↔ f x ∈ xs.map f := by simp
      rw [if_neg seen, List.map_append, List.map_singleton, eraseDups_concat]
      simp only [same]

/-- The first occurrences in a list that is made of one block for each key stand in the order of the keys. -/
theorem eraseDups_flatMap_blocks {β : Type} {items : List β} {key : β → α} {block : β → List α}
    (nodup : (items.map key).Nodup) (own : ∀ item, ∀ x ∈ block item, x = key item) :
    (items.flatMap block).eraseDups = (items.map key).filter fun x => (items.flatMap block).contains x := by
  induction items with
  | nil => rfl
  | cons item items ih =>
    obtain ⟨fresh, nodup⟩ := List.nodup_cons.1 nodup
    have absent : key item ∉ items.flatMap block := by
      intro member
      obtain ⟨other, later, member⟩ := List.mem_flatMap.1 member
      exact fresh (List.mem_map.2 ⟨other, later, (own other _ member).symm⟩)
    have others : ((items.map key).filter fun x => ((item :: items).flatMap block).contains x) =
        (items.map key).filter fun x => (items.flatMap block).contains x := by
      apply List.filter_congr
      intro x member
      have elsewhere : x ∉ block item := fun here => fresh (own item x here ▸ member)
      rw [Bool.eq_iff_iff, List.contains_iff_mem, List.contains_iff_mem, List.flatMap_cons, List.mem_append]
      exact or_iff_right elsewhere
    rw [List.map_cons]
    cases found : block item with
    | nil =>
      have missing : key item ∉ (item :: items).flatMap block := by simpa [found] using absent
      rw [List.filter_cons_of_neg (by simpa using missing), others, ← ih nodup, List.flatMap_cons, found,
        List.nil_append]
    | cons x block' =>
      -- the rest of the block repeats the key, which does not come back behind it
      have head : x = key item := own item x (by simp [found])
      have present : key item ∈ (item :: items).flatMap block := by simp [found, ← head]
      have rest : ((block' ++ items.flatMap block).filter fun y => !y == x) = items.flatMap block := by
        rw [List.filter_append, List.filter_eq_nil_iff.2, List.nil_append, List.filter_eq_self.2]
        · intro y member
          have different : y ≠ x := fun same => absent (by rwa [← head, ← same])
          simpa using different
        · intro y member
          have same : y = key item := own item y (by simp [found, member])
          simp [same, head]
      rw [List.filter_cons_of_pos (by simpa using present), others, ← ih nodup, List.flatMap_cons, found,
        List.cons_append, List.eraseDups_cons, rest, head]

theorem firstSeen_eq_eraseDups (xs : List α) : firstSeen xs = xs.eraseDups := by
  induction xs using List.reverseRecOn with
  | nil => rfl
  | append_singleton xs x ih =>
    have step : firstSeen (xs ++ [x]) = if (firstSeen xs).contains x then firstSeen xs else firstSeen xs ++ [x] := by
      simp [firstSeen, List.foldl_append]
    rw [step, ih, eraseDups_concat]
    simp

end FirstOccurrence

end JvmCoupling
