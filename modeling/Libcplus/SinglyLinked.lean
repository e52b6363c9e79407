import Libcplus.DoublyLinked

namespace SinglyLinked
open DoublyLinked (addresses first last first_append)
universe u v
variable {A : Type u} {D : Type v}

structure Node (A : Type u) (D : Type v) where
  data : D
  next : Option A
  deriving DecidableEq

abbrev Heap (A : Type u) (D : Type v) := A → Option (Node A D)

-- A run of cells as in a doubly linked list, with the links forward only.
def Linked (heap : Heap A D) : List (A × D) → Option A → Prop
  | [],_ => True
  | cell :: rest,behind => heap cell.1 = some ⟨cell.2,first rest behind⟩ ∧ Linked heap rest behind

variable {heap other : Heap A D} {behind after : Option A} {cells left right : List (A × D)}
  {cell : A × D} {a : A}

theorem linked_append : Linked heap (left ++ right) behind ↔
    Linked heap left (first right behind) ∧ Linked heap right behind := by
  induction left with
  | nil => simp [Linked]
  | cons cell rest ih => simp only [List.cons_append,Linked,first_append,ih,and_assoc]

theorem linked_congr (same : ∀ a ∈ addresses cells, other a = heap a) (linked : Linked heap cells behind) :
    Linked other cells behind := by
  induction cells with
  | nil => trivial
  | cons cell rest ih =>
    obtain ⟨here,later⟩ := linked
    refine ⟨(same cell.1 (by simp)).trans here,ih (fun a member => same a ?_) later⟩
    exact List.mem_cons_of_mem _ member

theorem linked_cell (linked : Linked heap (left ++ cell :: right) behind) :
    heap cell.1 = some ⟨cell.2,first right behind⟩ := (linked_append.mp linked).2.1

theorem linked_there (linked : Linked heap cells behind) (member : a ∈ addresses cells) : heap a ≠ none := by
  induction cells with
  | nil => cases member
  | cons cell rest ih =>
    obtain ⟨here,later⟩ := linked
    rcases List.mem_cons.mp member with rfl | further
    · simp [here]
    · exact ih later further

variable [DecidableEq A]

theorem linked_update (linked : Linked heap cells behind) (outside : a ∉ addresses cells)
    (node : Option (Node A D)) : Linked (Function.update heap a node) cells behind := by
  apply linked_congr _ linked
  intro b member
  apply Function.update_of_ne
  rintro rfl
  exact outside member

-- The last cell of a run is made to point elsewhere.
theorem linked_relink (linked : Linked heap (left ++ [cell]) behind)
    (nodup : (addresses (left ++ [cell])).Nodup) (after : Option A) :
    Linked (Function.update heap cell.1 (some ⟨cell.2,after⟩)) (left ++ [cell]) after := by
  obtain ⟨front,_⟩ := linked_append.mp linked
  obtain ⟨_,_,apart⟩ := DoublyLinked.nodup_parts nodup
  have outside : cell.1 ∉ addresses left := fun member => apart _ member (by simp)
  apply linked_append.mpr
  exact ⟨linked_update front outside _,Function.update_self _ _ _,trivial⟩

end SinglyLinked
