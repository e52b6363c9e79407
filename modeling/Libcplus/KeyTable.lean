import Mathlib.Data.List.Basic
import Mathlib.Data.List.Nodup

universe u v

-- Items under keys, no key twice, in the order in which they came.
structure KeyTable (α : Type u) (κ : Type v) where
  entries : List (α × κ)
  unique : (entries.map Prod.snd).Nodup

namespace KeyTable
variable {α : Type u} {κ : Type v} {table : KeyTable α κ} {a : α} {key other : κ}

def empty : KeyTable α κ := ⟨[],List.nodup_nil⟩

def items (table : KeyTable α κ) : List α := table.entries.map Prod.fst

def Has (table : KeyTable α κ) (key : κ) : Prop := key ∈ table.entries.map Prod.snd

def insert (table : KeyTable α κ) (a : α) (key : κ) (absent : ¬ table.Has key) : KeyTable α κ :=
  ⟨table.entries ++ [(a,key)],by
    rw [List.map_append,List.nodup_append]
    refine ⟨table.unique,List.nodup_singleton _,?_⟩
    rintro other there _ (new : _ ∈ [key]) rfl
    rw [List.mem_singleton] at new
    exact absent (new ▸ there)⟩

theorem insert_items (absent : ¬ table.Has key) : (table.insert a key absent).items = table.items ++ [a] := by
  rw [items,insert,List.map_append]
  rfl

theorem has_insert (absent : ¬ table.Has key) :
    (table.insert a key absent).Has other ↔ table.Has other ∨ other = key := by
  simp only [Has,insert,List.map_append,List.mem_append,List.map_cons,List.map_nil,List.mem_singleton]

theorem not_has_empty : ¬ (empty : KeyTable α κ).Has key := List.not_mem_nil

theorem has_entry (there : (a,key) ∈ table.entries) : table.Has key := List.mem_map_of_mem (f := Prod.snd) there

variable [DecidableEq κ]

def erase (table : KeyTable α κ) (key : κ) : KeyTable α κ :=
  ⟨table.entries.eraseP (·.2 = key),(List.eraseP_sublist.map _).nodup table.unique⟩

theorem eraseP_items {entries : List (α × κ)} {found : α → Bool}
    (finds : ∀ a other, (a,other) ∈ entries → (found a = true ↔ other = key)) :
    (entries.eraseP (·.2 = key)).map Prod.fst = (entries.map Prod.fst).eraseP found := by
  rw [List.eraseP_map]
  apply congrArg
  induction entries with
  | nil => rfl
  | cons entry rest ih =>
    have first : (found ∘ Prod.fst) entry = true ↔ entry.2 = key := finds entry.1 entry.2 List.mem_cons_self
    by_cases same : entry.2 = key
    · rw [List.eraseP_cons_of_pos (by simpa using same),List.eraseP_cons_of_pos (first.mpr same)]
    · rw [List.eraseP_cons_of_neg (by simpa using same),List.eraseP_cons_of_neg (mt first.mp same)]
      exact congrArg _ (ih fun a other there => finds a other (List.mem_cons_of_mem _ there))

-- An erasure from the items that finds an item by its key.
theorem erase_items {found : α → Bool} (finds : ∀ a other, (a,other) ∈ table.entries → (found a = true ↔ other = key)) :
    (table.erase key).items = table.items.eraseP found := eraseP_items finds

-- The first entry of a key is its only one.
theorem has_erase : (table.erase key).Has other ↔ table.Has other ∧ other ≠ key := by
  have keys : (table.erase key).entries.map Prod.snd = (table.entries.map Prod.snd).erase key := by
    rw [List.erase_eq_eraseP',List.eraseP_map]
    rfl
  rw [Has,keys,table.unique.mem_erase_iff]
  exact And.comm

theorem key_once (table : KeyTable α κ) (key : κ) : table.entries.countP (·.2 = key) ≤ 1 := by
  have once := List.nodup_iff_count_le_one.mp table.unique key
  rw [List.count_eq_countP,List.countP_map] at once
  exact once

end KeyTable
