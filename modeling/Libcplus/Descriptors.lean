import Mathlib.Data.List.Basic

namespace Descriptors
universe u
variable {α : Type u}

-- A process's table of descriptors: a number is open for somebody, or free.
abbrev Table (α : Type u) := List (Option α)

def holder (table : Table α) (n : Nat) : Option α := table[n]?.join

-- The number that the next open gets.
def lowest (table : Table α) : Nat := table.findIdx Option.isNone

def take (table : Table α) (owner : α) : Table α :=
  if lowest table < table.length then table.set (lowest table) (some owner) else table ++ [some owner]

-- A close of a number that is not open changes nothing.
def close (table : Table α) (n : Nat) : Table α := table.set n none

variable {table : Table α} {owner other : α} {n m : Nat}

theorem holder_some : holder table n = some owner ↔ table[n]? = some (some owner) := by
  unfold holder
  exact Option.join_eq_some_iff

theorem lowest_free (table : Table α) : holder table (lowest table) = none := by
  unfold holder
  by_cases inside : lowest table < table.length
  · have free : (table[lowest table]).isNone = true := List.findIdx_getElem
    rw [List.getElem?_eq_getElem inside,Option.isNone_iff_eq_none.mp free]
    rfl
  · rw [List.getElem?_eq_none (by omega)]
    rfl

theorem holder_take (table : Table α) (owner : α) (n : Nat) :
    holder (take table owner) n = if n = lowest table then some owner else holder table n := by
  unfold take holder
  by_cases inside : lowest table < table.length
  · rw [if_pos inside,List.getElem?_set]
    by_cases same : lowest table = n
    · subst same
      rw [if_pos rfl,if_pos inside,if_pos rfl]
      rfl
    · rw [if_neg same,if_neg (Ne.symm same)]
  · have last : lowest table = table.length := by
      have : table.findIdx Option.isNone ≤ table.length := List.findIdx_le_length
      unfold lowest at inside ⊢
      omega
    rw [if_neg inside,last]
    by_cases same : n = table.length
    · subst same
      rw [if_pos rfl,List.getElem?_concat_length]
      rfl
    · rw [if_neg same]
      by_cases before : n < table.length
      · rw [List.getElem?_append_left before]
      · rw [List.getElem?_eq_none (by rw [List.length_append,List.length_singleton]; omega),
          List.getElem?_eq_none (by omega)]

theorem holder_close (table : Table α) (n m : Nat) :
    holder (close table n) m = if m = n then none else holder table m := by
  unfold close holder
  rw [List.getElem?_set]
  by_cases same : n = m
  · subst same
    rw [if_pos rfl,if_pos rfl]
    split <;> rfl
  · rw [if_neg same,if_neg (Ne.symm same)]

theorem close_free (free : holder table n = none) : close table n = table := by
  unfold close
  by_cases inside : n < table.length
  · have here : table[n] = none := by
      unfold holder at free
      rw [List.getElem?_eq_getElem inside] at free
      exact free
    rw [← here,List.set_getElem_self]
  · exact List.set_eq_of_length_le (by omega)

variable [DecidableEq α]

-- How many numbers are open for somebody.
def held (table : Table α) (owner : α) : Nat := table.count (some owner)

theorem held_take (table : Table α) (owner other : α) :
    held (take table owner) other = held table other + if owner = other then 1 else 0 := by
  unfold take held
  by_cases inside : lowest table < table.length
  · have free : table[lowest table] = none := by
      have there := lowest_free table
      unfold holder at there
      rw [List.getElem?_eq_getElem inside] at there
      exact there
    rw [if_pos inside,List.count_set inside,free]
    simp
  · rw [if_neg inside,List.count_append,List.count_singleton]
    simp

theorem held_close (there : holder table n = some owner) (other : α) :
    held (close table n) other + (if owner = other then 1 else 0) = held table other := by
  obtain ⟨inside,here⟩ := List.getElem?_eq_some_iff.mp (holder_some.mp there)
  unfold close held
  rw [List.count_set inside,here]
  by_cases same : owner = other
  · subst same
    have positive : 0 < table.count (some owner) :=
      List.count_pos_iff.mpr (here ▸ List.getElem_mem inside)
    simp
    omega
  · simp [same]

end Descriptors
