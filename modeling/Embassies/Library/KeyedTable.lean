import Embassies.Library.Checked
import Mathlib.Data.List.Nodup

/-!
# Tables with distinct keys

A table holds entries that are told apart by a key.  Looking a key up finds
the only entry with that key; inserting an entry requires its key to be absent
and removing a key requires it to be present.  The table carries the proof that
its keys are distinct.
-/

namespace Embassies.Library

open List

universe u v w

/-- Entries with distinct keys. -/
structure KeyedTable {α : Type u} {κ : Type v} (key : α → κ) where
  entries : List α
  distinct : (entries.map key).Nodup

namespace KeyedTable

variable {α : Type u} {κ : Type v} {key : α → κ} {ε : Type w}

instance : Membership α (KeyedTable key) where
  mem table entry := entry ∈ table.entries

variable {table : KeyedTable key}

theorem mem_def {entry : α} : entry ∈ table ↔ entry ∈ table.entries := Iff.rfl

@[ext]
theorem ext {left right : KeyedTable key}
    (equal : left.entries = right.entries) : left = right := by
  cases left
  cases right
  cases equal
  rfl

/-- The table without entries. -/
def empty : KeyedTable key := ⟨[], List.nodup_nil⟩

theorem eq_of_key {left right : α} (leftIn : left ∈ table) (rightIn : right ∈ table)
    (same : key left = key right) : left = right :=
  inj_on_of_nodup_map table.distinct leftIn rightIn same

theorem key_not_mem_iff {wanted : κ} :
    wanted ∉ table.entries.map key ↔ ∀ entry ∈ table, key entry ≠ wanted := by
  simp only [mem_map, not_exists, not_and, mem_def, ne_eq]

/-- The entries that pass a test. -/
def filter (table : KeyedTable key) (keep : α → Bool) : KeyedTable key :=
  ⟨table.entries.filter keep,
    table.distinct.sublist (List.filter_sublist.map key)⟩

@[simp]
theorem mem_filter {keep : α → Bool} {entry : α} :
    entry ∈ table.filter keep ↔ entry ∈ table ∧ keep entry = true :=
  List.mem_filter

variable [DecidableEq κ]

/-- The entry with a key. -/
def lookup (table : KeyedTable key) (wanted : κ) : Option α :=
  table.entries.find? fun entry => key entry = wanted

variable {fault : ε} {table after : KeyedTable key} {entry : α} {wanted unwanted : κ}
  {change : α → α}

theorem lookup_eq_some_iff :
    table.lookup wanted = some entry ↔ entry ∈ table ∧ key entry = wanted := by
  constructor
  · intro found
    exact ⟨mem_of_find?_eq_some found, by simpa using find?_some found⟩
  · rintro ⟨member, same⟩
    cases found : table.lookup wanted with
    | none =>
      have absent := find?_eq_none.mp found entry member
      exact absurd (decide_eq_true same) absent
    | some other =>
      have otherIn : other ∈ table := mem_of_find?_eq_some found
      have otherKey : key other = wanted := by simpa using find?_some found
      rw [eq_of_key otherIn member (otherKey.trans same.symm)]

theorem lookup_eq_none_iff : table.lookup wanted = none ↔ ∀ entry ∈ table, key entry ≠ wanted := by
  rw [lookup, find?_eq_none]
  simp only [decide_eq_true_eq, mem_def, ne_eq]

theorem exists_iff_lookup {holds : α → Prop} : (∃ entry ∈ table, key entry = wanted ∧ holds entry) ↔
      ∃ entry, table.lookup wanted = some entry ∧ holds entry := by
  simp only [lookup_eq_some_iff, and_assoc]

/-- Add an entry, or fail when its key is present. -/
def insert (fault : ε) (table : KeyedTable key) (entry : α) :
    Except ε (KeyedTable key) :=
  if absent : key entry ∉ table.entries.map key then
    .ok ⟨entry :: table.entries, List.nodup_cons.mpr ⟨absent, table.distinct⟩⟩
  else
    .error fault

theorem insert_eq_ok_iff :
    table.insert fault entry = .ok after ↔ (∀ other ∈ table, key other ≠ key entry) ∧
        after.entries = entry :: table.entries := by
  rw [insert]
  split
  · rename_i absent
    rw [Except.ok.injEq]
    constructor
    · rintro rfl
      exact ⟨key_not_mem_iff.mp absent, rfl⟩
    · rintro ⟨-, same⟩
      exact ext same.symm
  · rename_i present
    simp only [reduceCtorEq, false_iff, not_and]
    exact fun absent => absurd (key_not_mem_iff.mpr absent) present

theorem mem_insert {other : α} (inserted : table.insert fault entry = .ok after) :
    other ∈ after ↔ other = entry ∨ other ∈ table := by
  rw [mem_def, (insert_eq_ok_iff.mp inserted).2, mem_cons, mem_def]

theorem exists_insert (absent : ∀ other ∈ table, key other ≠ key entry) :
    ∃ after, table.insert fault entry = .ok after := by
  rw [insert, dif_pos (key_not_mem_iff.mpr absent)]
  exact ⟨_, rfl⟩

/-- Remove the entry with a key, or fail when there is none. -/
def remove (fault : ε) (table : KeyedTable key) (unwanted : κ) :
    Except ε (KeyedTable key) :=
  match table.lookup unwanted with
  | some _ => .ok (table.filter fun entry => key entry ≠ unwanted)
  | none => .error fault

theorem remove_eq_ok_iff :
    table.remove fault unwanted = .ok after ↔ (∃ entry ∈ table, key entry = unwanted) ∧
        (table.filter fun entry => key entry ≠ unwanted) = after := by
  rw [remove]
  cases found : table.lookup unwanted with
  | some entry =>
    rw [Except.ok.injEq]
    exact ⟨fun same => ⟨⟨entry, lookup_eq_some_iff.mp found⟩, same⟩, fun both => both.2⟩
  | none =>
    simp only [reduceCtorEq, false_iff, not_and]
    rintro ⟨entry, member, same⟩
    exact absurd same (lookup_eq_none_iff.mp found entry member)

/-- Change the entry with a key, which it keeps. -/
def modify (table : KeyedTable key) (wanted : κ) (change : α → α)
    (keeps : ∀ entry, key (change entry) = key entry) : KeyedTable key where
  entries := table.entries.map fun entry =>
    if key entry = wanted then change entry else entry
  distinct := by
    have same : (key ∘ fun entry =>
        if key entry = wanted then change entry else entry) = key := by
      funext entry
      by_cases equal : key entry = wanted
      · simp [equal, keeps]
      · simp [equal]
    rw [List.map_map, same]
    exact table.distinct

theorem mem_modify (keeps : ∀ entry, key (change entry) = key entry) :
    entry ∈ table.modify wanted change keeps ↔
      ∃ before ∈ table, (if key before = wanted then change before else before) = entry :=
  mem_map

/-! ## Counting -/

theorem perm_cons_filter (member : entry ∈ table) :
    table.entries.Perm (entry :: (table.filter fun other => key other ≠ key entry).entries) := by
  classical
  have alone : (table.entries.filter fun other => key other = key entry) = [entry] := by
    have same : ∀ other ∈ table.entries,
        decide (key other = key entry) = decide (other = entry) := by
      intro other otherIn
      apply decide_eq_decide.mpr
      exact ⟨eq_of_key otherIn member, congrArg key⟩
    rw [filter_congr same, filter_eq, count_eq_one_of_mem table.distinct.of_map member]
    rfl
  have split := filter_append_perm (fun other => decide (key other = key entry)) table.entries
  rw [alone] at split
  simpa only [filter, ne_eq, decide_not, singleton_append] using split.symm

/-! ## Tables as maps -/

theorem lookup_insert (inserted : table.insert fault entry = .ok after) (wanted : κ) :
    after.lookup wanted =
      if key entry = wanted then some entry else table.lookup wanted := by
  rw [lookup, (insert_eq_ok_iff.mp inserted).2, find?_cons]
  by_cases same : key entry = wanted
  · simp [same]
  · simp [same, lookup]

theorem lookup_modify {changed : κ} (keeps : ∀ entry, key (change entry) = key entry) (wanted : κ) :
    (table.modify changed change keeps).lookup wanted =
      if wanted = changed then (table.lookup wanted).map change
      else table.lookup wanted := by
  rw [lookup, modify, find?_map]
  have sameKey : ((fun entry => decide (key entry = wanted)) ∘ fun entry =>
      if key entry = changed then change entry else entry) =
      fun entry => decide (key entry = wanted) := by
    funext entry
    by_cases equal : key entry = changed
    · simp [equal, keeps]
    · simp [equal]
  rw [sameKey]
  cases found : table.entries.find? fun entry => decide (key entry = wanted) with
  | none => simp [lookup, found]
  | some entry =>
    have place : key entry = wanted := by simpa using find?_some found
    by_cases equal : wanted = changed
    · subst equal
      simp [lookup, found, place]
    · simp [lookup, found, place, equal]

theorem lookup_remove (removed : table.remove fault unwanted = .ok after) (wanted : κ) :
    after.lookup wanted =
      if wanted = unwanted then none else table.lookup wanted := by
  obtain ⟨-, rfl⟩ := remove_eq_ok_iff.mp removed
  by_cases same : wanted = unwanted
  · rw [if_pos same, lookup_eq_none_iff]
    intro entry member equal
    obtain ⟨-, apart⟩ := mem_filter.mp member
    exact of_decide_eq_true apart (equal.trans same)
  · rw [if_neg same]
    cases found : table.lookup wanted with
    | none =>
      rw [lookup_eq_none_iff] at found ⊢
      intro entry member
      exact found entry (mem_filter.mp member).1
    | some entry =>
      obtain ⟨member, equal⟩ := lookup_eq_some_iff.mp found
      refine lookup_eq_some_iff.mpr ⟨mem_filter.mpr ⟨member, ?_⟩, equal⟩
      exact decide_eq_true (equal ▸ same)

theorem exists_remove (present : (table.lookup unwanted).isSome = true) :
    ∃ after, table.remove fault unwanted = .ok after := by
  obtain ⟨entry, found⟩ := Option.isSome_iff_exists.mp present
  rw [remove, found]
  exact ⟨_, rfl⟩

end KeyedTable

end Embassies.Library
