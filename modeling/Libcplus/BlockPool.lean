import Mathlib.Algebra.BigOperators.Group.Finset.Basic
import Mathlib.Data.Finset.Card
import Mathlib.Data.List.Perm.Basic
import Mathlib.Order.Interval.Finset.Nat

namespace BlockPool
universe u
variable {α : Type u} [DecidableEq α]

-- A pool seen from outside: it hands out any block of its own that is not live,
-- and refuses when there is none.
def Grants (blocks live : Finset α) : Option α → Prop
  | some b => b ∈ blocks ∧ b ∉ live
  | none => blocks ⊆ live

instance (blocks live : Finset α) (answer : Option α) : Decidable (Grants blocks live answer) := by
  cases answer <;> unfold Grants <;> infer_instance

-- The blocks held somewhere, each in one place, are the live ones.
structure Balanced (blocks live : Finset α) (held : List α) : Prop where
  nodup : held.Nodup
  same : live = held.toFinset
  within : live ⊆ blocks

variable {blocks live : Finset α} {held other front rest : List α} {b : α}

theorem balanced_nil : Balanced blocks ∅ [] := ⟨List.nodup_nil,rfl,Finset.empty_subset _⟩

theorem Balanced.live_iff (balanced : Balanced blocks live held) : b ∈ live ↔ b ∈ held := by
  rw [balanced.same,List.mem_toFinset]

theorem Balanced.card (balanced : Balanced blocks live held) : live.card = held.length := by
  rw [balanced.same,List.toFinset_card_of_nodup balanced.nodup]

theorem Balanced.bound (balanced : Balanced blocks live held) : held.length ≤ blocks.card := by
  rw [← balanced.card]
  exact Finset.card_le_card balanced.within

theorem Balanced.perm (balanced : Balanced blocks live held) (same : held.Perm other) :
    Balanced blocks live other where
  nodup := same.nodup_iff.mp balanced.nodup
  same := balanced.same.trans (List.toFinset_eq_of_perm _ _ same)
  within := balanced.within

theorem Balanced.alloc (balanced : Balanced blocks live held) (granted : Grants blocks live (some b)) :
    Balanced blocks (insert b live) (b :: held) where
  nodup := by
    apply List.nodup_cons.mpr
    exact ⟨fun member => granted.2 (balanced.live_iff.mpr member),balanced.nodup⟩
  same := by rw [List.toFinset_cons,balanced.same]
  within := Finset.insert_subset granted.1 balanced.within

theorem Balanced.free (balanced : Balanced blocks live (b :: held)) :
    Balanced blocks (live.erase b) held where
  nodup := (List.nodup_cons.mp balanced.nodup).2
  same := by
    obtain ⟨outside,_⟩ := List.nodup_cons.mp balanced.nodup
    rw [balanced.same,List.toFinset_cons,Finset.erase_insert]
    simpa using outside
  within := (Finset.erase_subset _ _).trans balanced.within

theorem Balanced.free_between (balanced : Balanced blocks live (front ++ b :: rest)) :
    Balanced blocks (live.erase b) (front ++ rest) :=
  (balanced.perm List.perm_middle).free

-- A refusal means that all blocks are held.
theorem Balanced.refused (balanced : Balanced blocks live held) (refused : Grants blocks live none) :
    held.length = blocks.card := by
  rw [← balanced.card]
  exact congrArg Finset.card (Finset.Subset.antisymm balanced.within refused)

theorem Balanced.room (balanced : Balanced blocks live held) (granted : Grants blocks live (some b)) :
    held.length < blocks.card := (balanced.alloc granted).bound

-- What each place holds, gathered; one place gives some of it away.
theorem gathered_exchange {β : Type*} {f g : α → List β} {extra : List β} {places : List α} {a : α}
    (nodup : places.Nodup) (member : a ∈ places) (same : (extra ++ g a).Perm (f a))
    (others : ∀ c, c ≠ a → g c = f c) : (extra ++ places.flatMap g).Perm (places.flatMap f) := by
  induction places with
  | nil => cases member
  | cons c rest ih =>
    obtain ⟨outside,nodup⟩ := List.nodup_cons.mp nodup
    rw [List.flatMap_cons,List.flatMap_cons,← List.append_assoc]
    by_cases here : c = a
    · subst here
      have apart : rest.flatMap g = rest.flatMap f := by
        apply List.flatMap_congr
        intro d inside
        exact others d fun equal => outside (equal ▸ inside)
      rw [apart]
      exact same.append_right _
    · rw [others c here]
      have deeper : a ∈ rest := (List.mem_cons.mp member).resolve_left fun equal => here equal.symm
      have swap : (extra ++ f c ++ rest.flatMap g).Perm (f c ++ (extra ++ rest.flatMap g)) := by
        rw [← List.append_assoc]
        exact List.perm_append_comm.append_right _
      exact swap.trans ((ih nodup deeper).append_left _)

-- Blocks of one size that are apart and inside a region do not have more bytes
-- than the region.
theorem packed {ι : Type*} {places : Finset ι} {start : ι → Nat} {size length : Nat}
    (inside : ∀ i ∈ places, start i + size ≤ length)
    (apart : ∀ i ∈ places, ∀ j ∈ places, i ≠ j → start i + size ≤ start j ∨ start j + size ≤ start i) :
    places.card * size ≤ length := by
  have disjoint : (places : Set ι).PairwiseDisjoint fun i => Finset.Ico (start i) (start i + size) := by
    intro i here j there differ
    apply Finset.disjoint_left.mpr
    intro byte one two
    have bounds := Finset.mem_Ico.mp one
    have others := Finset.mem_Ico.mp two
    rcases apart i here j there differ with below | above
    · omega
    · omega
  have bytes : (places.biUnion fun i => Finset.Ico (start i) (start i + size)).card = places.card * size := by
    rw [Finset.card_biUnion disjoint]
    apply Finset.sum_const_nat
    intro i _
    rw [Nat.card_Ico,Nat.add_sub_cancel_left]
  have within : (places.biUnion fun i => Finset.Ico (start i) (start i + size)) ⊆ Finset.range length := by
    intro byte member
    obtain ⟨i,here,between⟩ := Finset.mem_biUnion.mp member
    have bounds := Finset.mem_Ico.mp between
    have limit := inside i here
    exact Finset.mem_range.mpr (by omega)
  calc places.card * size
      = (places.biUnion fun i => Finset.Ico (start i) (start i + size)).card := bytes.symm
    _ ≤ (Finset.range length).card := Finset.card_le_card within
    _ = length := Finset.card_range length

end BlockPool
