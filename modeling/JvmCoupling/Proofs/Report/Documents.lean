import JvmCoupling.Proofs.Report.RoundTrip
import JvmCoupling.Proofs.Yaml.Documents
import Mathlib

/-! # Reports read back from documents

A document holds the whole report: its kind, and each record with the classes it lists.  The report is read back from
it unless a class has a name of several lines that starts with a blank or a line break.

* `Report.readYaml?` — the report that a document holds;
* `Report.Held` — the reports whose names and counts a document holds;
* `Report.readYaml?_yamlText` — such a report is read back.
-/

namespace JvmCoupling.Report

open Yaml

/-! ## Reading a document -/

def textOf? : Value → Option Bytes
  | .scalar (.text s) => some s
  | _ => none

def intOf? : Value → Option Int
  | .scalar (.int n) => some n
  | _ => none

def listOf? : Value → Option (List Value)
  | .list items => some items
  | _ => none

/-- A field of a record. -/
def field? (key : String) : Value → Option Value
  | .map entries => entries.lookup (utf8 key)
  | _ => none

def coupledClassOf? (v : Value) : Option CoupledClass := do
  return ⟨← (← field? "class" v) |> textOf?, ← (← field? "calls" v) |> intOf?⟩

def callRecordOf? (v : Value) : Option CallRecord := do
  let coupled ← (← field? "coupled" v) |> listOf?
  return ⟨← (← field? "class" v) |> textOf?, ← coupled.mapM coupledClassOf?⟩

def hierarchyRecordOf? (v : Value) : Option HierarchyRecord := do
  let coupled ← (← field? "coupled" v) |> listOf?
  return ⟨← (← field? "class" v) |> textOf?, ← coupled.mapM textOf?⟩

/-- The report that a document holds. -/
def readYaml? (text : Bytes) : Option Report := do
  let document := Value.map (← Value.parseMap? text)
  let kind ← (← field? "kind" document) |> textOf?
  let records ← (← field? "records" document) |> listOf?
  if kind = utf8 (calls []).name then return calls (← records.mapM callRecordOf?)
  else if kind = utf8 (hierarchy []).name then return hierarchy (← records.mapM hierarchyRecordOf?)
  else none

/-! ## Reports that documents hold -/

/-- The names of the classes in a report. -/
def classNames : Report → List Bytes
  | calls records => records.flatMap fun r => r.owner :: r.coupled.map (·.name)
  | hierarchy records => records.flatMap fun r => r.owner :: r.coupled

/-- The counts in a report. -/
def counts : Report → List Int
  | calls records => records.flatMap fun r => r.coupled.map (·.calls)
  | hierarchy _ => []

/-- A document holds the names and the counts as they are.  Counts are numbers of 64 bits. -/
def Held (r : Report) : Prop :=
  (∀ name ∈ r.classNames, isHeld name = true) ∧ ∀ n ∈ r.counts, -2 ^ 63 ≤ n ∧ n < 2 ^ 63

instance (r : Report) : Decidable r.Held := inferInstanceAs (Decidable (_ ∧ _))

/-! ## Records of two fields -/

theorem held_pair (first second : String) (keys : isKey first = true ∧ isKey second = true) (other : first ≠ second)
    {a b : Block} (heldFirst : a.Held) (heldSecond : b.Held) : (Block.record [(first, a), (second, b)]).Held := by
  refine .record (by simp) ?_ (by simpa using other) ?_
  · simpa using keys
  · simpa using ⟨heldFirst, heldSecond⟩

theorem field?_pair (first second : String) (other : first ≠ second) (a b : Block) :
    field? first (Block.record [(first, a), (second, b)]).value = some a.value ∧
      field? second (Block.record [(first, a), (second, b)]).value = some b.value := by
  have apart : (utf8 second == utf8 first) = false := by
    rw [beq_eq_false_iff_ne]
    exact fun same => other (utf8_injective same).symm
  constructor <;> simp [Block.value, fieldValues, field?, List.lookup, apart]

/-! ## Records -/

theorem coupledClassOf?_value (c : CoupledClass) : coupledClassOf? (coupledBlock c).value = some c := by
  obtain ⟨name, calls⟩ := field?_pair "class" "calls" (by decide) (.text c.name) (.int c.calls)
  rw [coupledBlock, coupledClassOf?, name, calls]
  rfl

theorem callRecordOf?_value (r : CallRecord) : callRecordOf? (callBlock r).value = some r := by
  obtain ⟨owner, coupled⟩ :=
    field?_pair "class" "coupled" (by decide) (.text r.owner) (.list (r.coupled.map coupledBlock))
  have classes : (itemValues (r.coupled.map coupledBlock)).mapM coupledClassOf? = some r.coupled := by
    rw [itemValues_eq_map, List.map_map]
    exact mapM_map_eq_some fun c _ => coupledClassOf?_value c
  rw [callBlock, callRecordOf?, coupled, owner]
  simp only [Block.value, listOf?, textOf?, Option.bind_eq_bind, Option.bind_some, classes]
  rfl

theorem hierarchyRecordOf?_value (r : HierarchyRecord) : hierarchyRecordOf? (hierarchyBlock r).value = some r := by
  obtain ⟨owner, coupled⟩ := field?_pair "class" "coupled" (by decide) (.text r.owner) (.list (r.coupled.map .text))
  have classes : (itemValues (r.coupled.map .text)).mapM textOf? = some r.coupled := by
    rw [itemValues_eq_map, List.map_map]
    exact mapM_map_eq_some fun _ _ => rfl
  rw [hierarchyBlock, hierarchyRecordOf?, coupled, owner]
  simp only [Block.value, listOf?, textOf?, Option.bind_eq_bind, Option.bind_some, classes]
  rfl

theorem Held.blocks {r : Report} (held : r.Held) : ∀ b ∈ r.blocks, b.Held := by
  obtain ⟨names, counts⟩ := held
  have keys : isKey "class" = true ∧ isKey "coupled" = true := by decide +kernel
  cases r with
  | calls records =>
    intro b member
    obtain ⟨r, present, rfl⟩ := List.mem_map.1 member
    have owner : r.owner ∈ (calls records).classNames := List.mem_flatMap.2 ⟨r, present, List.mem_cons_self⟩
    refine held_pair "class" "coupled" keys (by decide) (.text (names _ owner)) (.list fun b member => ?_)
    obtain ⟨c, inside, rfl⟩ := List.mem_map.1 member
    have name : c.name ∈ (calls records).classNames :=
      List.mem_flatMap.2 ⟨r, present, List.mem_cons_of_mem _ (List.mem_map_of_mem inside)⟩
    have count : c.calls ∈ (calls records).counts := List.mem_flatMap.2 ⟨r, present, List.mem_map_of_mem inside⟩
    exact held_pair "class" "calls" (by decide +kernel) (by decide) (.text (names _ name))
      (.int (counts _ count).1 (counts _ count).2)
  | hierarchy records =>
    intro b member
    obtain ⟨r, present, rfl⟩ := List.mem_map.1 member
    have owner : r.owner ∈ (hierarchy records).classNames := List.mem_flatMap.2 ⟨r, present, List.mem_cons_self⟩
    refine held_pair "class" "coupled" keys (by decide) (.text (names _ owner)) (.list fun b member => ?_)
    obtain ⟨name, inside, rfl⟩ := List.mem_map.1 member
    exact .text (names _ (List.mem_flatMap.2 ⟨r, present, List.mem_cons_of_mem _ inside⟩))

theorem isHeld_name (r : Report) : isHeld (utf8 r.name) = true := by
  have names : isHeld (utf8 "method_calls") = true ∧ isHeld (utf8 "hierarchy") = true := by decide +kernel
  cases r with
  | calls => exact names.1
  | hierarchy => exact names.2

/-- A report is read back from its document. -/
theorem readYaml?_yamlText {r : Report} (held : r.Held) : readYaml? r.yamlText = some r := by
  have parsed : Value.parseMap? r.yamlText =
      some (fieldValues [("kind", .text (utf8 r.name)), ("records", .list r.blocks)]) :=
    parseMap?_renderDocument
      (held_pair "kind" "records" (by decide +kernel) (by decide) (.text r.isHeld_name) (.list held.blocks))
  obtain ⟨kind, records⟩ := field?_pair "kind" "records" (by decide) (.text (utf8 r.name)) (.list r.blocks)
  rw [readYaml?, parsed]
  rw [Block.value] at kind records
  simp only [Option.bind_eq_bind, Option.bind_some, kind, records, Block.value, textOf?, listOf?, itemValues_eq_map]
  cases r with
  | calls list =>
    have read : ((calls list).blocks.map Block.value).mapM callRecordOf? = some list := by
      rw [blocks, List.map_map]
      exact mapM_map_eq_some fun r _ => callRecordOf?_value r
    have kind : utf8 (calls list).name = utf8 (calls []).name := rfl
    rw [if_pos kind, read]
    rfl
  | hierarchy list =>
    have read : ((hierarchy list).blocks.map Block.value).mapM hierarchyRecordOf? = some list := by
      rw [blocks, List.map_map]
      exact mapM_map_eq_some fun r _ => hierarchyRecordOf?_value r
    have kind : utf8 (hierarchy list).name = utf8 (hierarchy []).name := rfl
    have other : utf8 (hierarchy []).name ≠ utf8 (calls []).name := fun same => absurd (utf8_injective same) (by decide)
    rw [kind, if_neg other, if_pos rfl, read]
    rfl

end JvmCoupling.Report
