import Mathlib.Data.List.Induction
import Mathlib.Data.List.Nodup
import Mathlib.Logic.Function.Basic

namespace DoublyLinked
universe u v
variable {A : Type u} {D : Type v}

structure Node (A : Type u) (D : Type v) where
  data : D
  prev : Option A
  next : Option A
  deriving DecidableEq, Repr

-- Memory as far as nodes go: `none` is an address that holds no node.
abbrev Heap (A : Type u) (D : Type v) := A → Option (Node A D)

-- A run of nodes is the list of its cells, an address with the data there. The
-- address in front of a run, and the one behind it, may be NULL.
def first : List (A × D) → Option A → Option A
  | [],behind => behind
  | cell :: _,_ => some cell.1

def last (front : Option A) : List (A × D) → Option A
  | [] => front
  | cell :: rest => last (some cell.1) rest

def Linked (heap : Heap A D) : Option A → List (A × D) → Option A → Prop
  | _,[],_ => True
  | front,cell :: rest,behind =>
    heap cell.1 = some ⟨cell.2,front,first rest behind⟩ ∧ Linked heap (some cell.1) rest behind

def addresses (cells : List (A × D)) : List A := cells.map Prod.fst

variable {heap other : Heap A D} {front behind : Option A} {cells left right : List (A × D)}
  {cell : A × D}

@[simp] theorem addresses_append : addresses (left ++ right) = addresses left ++ addresses right :=
  List.map_append

@[simp] theorem addresses_cons : addresses (cell :: cells) = cell.1 :: addresses cells := rfl

theorem first_append : first (left ++ right) behind = first left (first right behind) := by
  cases left <;> rfl

theorem last_append : last front (left ++ right) = last (last front left) right := by
  induction left generalizing front with
  | nil => rfl
  | cons cell rest ih => exact ih

theorem last_concat : last front (left ++ [cell]) = some cell.1 := by
  rw [last_append]
  rfl

-- What is around a run shows at its ends only when it has no node.
theorem first_behind (more : cells ≠ []) (other : Option A) : first cells behind = first cells other := by
  cases cells with
  | nil => exact absurd rfl more
  | cons cell rest => rfl

theorem last_front (more : cells ≠ []) (other : Option A) : last front cells = last other cells := by
  cases cells with
  | nil => exact absurd rfl more
  | cons cell rest => rfl

theorem linked_append : Linked heap front (left ++ right) behind ↔
    Linked heap front left (first right behind) ∧ Linked heap (last front left) right behind := by
  induction left generalizing front with
  | nil => simp [Linked,last]
  | cons cell rest ih =>
    simp only [List.cons_append,Linked,last,first_append,ih,and_assoc]

-- A run depends on its own cells only.
theorem linked_congr (same : ∀ a ∈ addresses cells, other a = heap a)
    (linked : Linked heap front cells behind) : Linked other front cells behind := by
  induction cells generalizing front with
  | nil => trivial
  | cons cell rest ih =>
    obtain ⟨here,later⟩ := linked
    refine ⟨(same cell.1 (by simp)).trans here,ih (fun a member => same a ?_) later⟩
    exact List.mem_cons_of_mem _ member

theorem linked_cell (linked : Linked heap front (left ++ cell :: right) behind) :
    heap cell.1 = some ⟨cell.2,last front left,first right behind⟩ :=
  (linked_append.mp linked).2.1

theorem linked_there {a : A} (linked : Linked heap front cells behind) (member : a ∈ addresses cells) :
    heap a ≠ none := by
  induction cells generalizing front with
  | nil => cases member
  | cons cell rest ih =>
    obtain ⟨here,later⟩ := linked
    rcases List.mem_cons.mp member with rfl | further
    · simp [here]
    · exact ih later further

theorem last_member {a : A} (there : last none cells = some a) : a ∈ addresses cells := by
  rcases List.eq_nil_or_concat cells with rfl | ⟨before,cell,rfl⟩
  · cases there
  · rw [List.concat_eq_append,last_concat] at there
    cases there
    simp

theorem first_member {a : A} (there : first cells none = some a) : a ∈ addresses cells := by
  cases cells with
  | nil => cases there
  | cons cell rest =>
    cases there
    simp

theorem nodup_parts (nodup : (addresses (left ++ right)).Nodup) :
    (addresses left).Nodup ∧ (addresses right).Nodup ∧
      ∀ a, a ∈ addresses left → a ∉ addresses right := by
  rw [addresses_append] at nodup
  obtain ⟨first,second,apart⟩ := List.nodup_append.mp nodup
  exact ⟨first,second,fun a here there => apart a here a there rfl⟩

-- The addresses of a chain by position, and what the node at a position points to.
def address (cells : List (A × D)) (i : Nat) : Option A := cells[i]?.map Prod.fst

def address_before (cells : List (A × D)) : Nat → Option A
  | 0 => none
  | i+1 => address cells i

theorem first_drop (cells : List (A × D)) (i : Nat) :
    first (cells.drop i) none = address cells i := by
  unfold address
  rw [← List.head?_drop]
  cases cells.drop i <;> rfl

theorem last_take {i : Nat} (within : i ≤ cells.length) :
    last none (cells.take i) = address_before cells i := by
  cases i with
  | zero => rfl
  | succ i =>
    rw [List.take_add_one,List.getElem?_eq_getElem (by omega),Option.toList_some,last_concat,
      address_before,address,List.getElem?_eq_getElem (by omega)]
    rfl

theorem split_at {i : Nat} (there : cells[i]? = some cell) :
    cells = cells.take i ++ cell :: cells.drop (i + 1) := by
  obtain ⟨within,rfl⟩ := List.getElem?_eq_some_iff.mp there
  rw [← List.drop_eq_getElem_cons within,List.take_append_drop]

theorem node_at {i : Nat} (linked : Linked heap none cells none) (there : cells[i]? = some cell) :
    heap cell.1 = some ⟨cell.2,address_before cells i,address cells (i + 1)⟩ := by
  have within := (List.getElem?_eq_some_iff.mp there).1
  rw [split_at there] at linked
  have node := linked_cell linked
  rwa [last_take (by omega),first_drop] at node

-- The nodes met along one of the two links, up to NULL.
def trace (heap : Heap A D) (link : Node A D → Option A) : Nat → Option A → List (A × D)
  | fuel+1,some a =>
    match heap a with
    | none => []
    | some node => (a,node.data) :: trace heap link fuel (link node)
  | _,_ => []

theorem trace_next (linked : Linked heap front cells none) {fuel : Nat}
    (enough : cells.length ≤ fuel) : trace heap Node.next fuel (first cells none) = cells := by
  induction cells generalizing front fuel with
  | nil => cases fuel <;> rfl
  | cons cell rest ih =>
    obtain ⟨here,later⟩ := linked
    cases fuel with
    | zero => cases enough
    | succ fuel =>
      have tail := ih later (Nat.le_of_succ_le_succ enough)
      show trace heap Node.next (fuel + 1) (some cell.1) = cell :: rest
      simp only [trace,here,tail]

theorem trace_prev (linked : Linked heap none cells behind) {fuel : Nat}
    (enough : cells.length ≤ fuel) :
    trace heap Node.prev fuel (last none cells) = cells.reverse := by
  induction cells using List.reverseRecOn generalizing behind fuel with
  | nil => cases fuel <;> rfl
  | append_singleton before cell ih =>
    have here := linked_cell linked
    obtain ⟨earlier,_⟩ := linked_append.mp linked
    rw [List.length_append] at enough
    cases fuel with
    | zero => cases enough
    | succ fuel =>
      have tail := ih earlier (Nat.le_of_succ_le_succ enough)
      rw [last_concat]
      simp only [trace,here,tail,List.reverse_append,List.reverse_cons,List.reverse_nil,
        List.nil_append,List.singleton_append]

-- Writes to a node, where the pointer is not NULL.
section Writes
variable [DecidableEq A]

def set_next (heap : Heap A D) : Option A → Option A → Heap A D
  | none,_ => heap
  | some a,next => Function.update heap a ((heap a).map fun node => {node with next := next})

def set_prev (heap : Heap A D) : Option A → Option A → Heap A D
  | none,_ => heap
  | some a,prev => Function.update heap a ((heap a).map fun node => {node with prev := prev})

def set_data (heap : Heap A D) (a : A) (data : D) : Heap A D :=
  Function.update heap a ((heap a).map fun node => {node with data := data})

variable {a b : A} {target value : Option A}

theorem set_next_other (apart : target ≠ some b) : set_next heap target value b = heap b := by
  cases target with
  | none => rfl
  | some a => exact Function.update_of_ne (fun same => apart (congrArg some same.symm)) _ _

theorem set_prev_other (apart : target ≠ some b) : set_prev heap target value b = heap b := by
  cases target with
  | none => rfl
  | some a => exact Function.update_of_ne (fun same => apart (congrArg some same.symm)) _ _

theorem set_next_here : set_next heap (some a) value a =
    (heap a).map fun node => {node with next := value} := Function.update_self _ _ _

theorem set_prev_here : set_prev heap (some a) value a =
    (heap a).map fun node => {node with prev := value} := Function.update_self _ _ _

-- The node at an address depends on what was there only.
theorem set_next_congr (same : other b = heap b) :
    set_next other target value b = set_next heap target value b := by
  by_cases here : target = some b
  · subst here
    rw [set_next_here,set_next_here,same]
  · rw [set_next_other here,set_next_other here,same]

theorem set_prev_congr (same : other b = heap b) :
    set_prev other target value b = set_prev heap target value b := by
  by_cases here : target = some b
  · subst here
    rw [set_prev_here,set_prev_here,same]
  · rw [set_prev_other here,set_prev_other here,same]

-- Writing a link changes no data, and no node comes or goes.
theorem set_next_data : (set_next heap target value b).map Node.data = (heap b).map Node.data := by
  by_cases same : target = some b
  · subst same
    rw [set_next_here,Option.map_map]
    rfl
  · rw [set_next_other same]

theorem set_prev_data : (set_prev heap target value b).map Node.data = (heap b).map Node.data := by
  by_cases same : target = some b
  · subst same
    rw [set_prev_here,Option.map_map]
    rfl
  · rw [set_prev_other same]

-- What comes behind a run only its last node knows, and what comes in front of
-- it only its first.
theorem linked_set_next (linked : Linked heap front cells behind) (nodup : (addresses cells).Nodup) :
    Linked (set_next heap (last front cells) value) front cells value := by
  rcases List.eq_nil_or_concat cells with rfl | ⟨before,cell,rfl⟩
  · trivial
  · rw [List.concat_eq_append] at linked nodup ⊢
    rw [last_concat]
    obtain ⟨earlier,here,_⟩ := linked_append.mp linked
    rw [addresses_append] at nodup
    have apart := (List.nodup_append.mp nodup).2.2
    refine linked_append.mpr ⟨linked_congr (fun a member => ?_) earlier,?_,trivial⟩
    · refine set_next_other fun same => ?_
      exact apart a member cell.1 (by simp) (Option.some.inj same).symm
    · rw [set_next_here,here]
      rfl

theorem linked_set_prev (linked : Linked heap front cells behind) (nodup : (addresses cells).Nodup) :
    Linked (set_prev heap (first cells behind) value) value cells behind := by
  cases cells with
  | nil => trivial
  | cons cell rest =>
    obtain ⟨here,later⟩ := linked
    obtain ⟨apart,_⟩ := List.nodup_cons.mp nodup
    refine ⟨?_,linked_congr (fun a member => ?_) later⟩
    · rw [first,set_prev_here,here]
      rfl
    · refine set_prev_other fun same => apart ?_
      obtain rfl : cell.1 = a := Option.some.inj same
      exact member

-- A cell between two parts of a chain, once it has its links and its neighbours
-- point to it.
theorem linked_insertion (linked : Linked heap none (left ++ right) none)
    (nodup : (addresses (left ++ right)).Nodup) (fresh : cell.1 ∉ addresses (left ++ right))
    (here : other cell.1 = some ⟨cell.2,last none left,first right none⟩)
    (around : ∀ a, a ≠ cell.1 → other a =
      set_prev (set_next heap (last none left) (some cell.1)) (first right none) (some cell.1) a) :
    Linked other none (left ++ cell :: right) none := by
  obtain ⟨before,after⟩ := linked_append.mp linked
  obtain ⟨left_nodup,right_nodup,apart⟩ := nodup_parts nodup
  rw [addresses_append,List.mem_append,not_or] at fresh
  refine linked_append.mpr ⟨?_,here,?_⟩
  · refine linked_congr (fun a member => ?_) (linked_set_next before left_nodup)
    rw [around a fun same => fresh.1 (same ▸ member)]
    exact set_prev_other fun same => apart a member (first_member same)
  · refine linked_congr (fun a member => ?_) (linked_set_prev after right_nodup)
    rw [around a fun same => fresh.2 (same ▸ member)]
    exact set_prev_congr (set_next_other fun same => apart a (last_member same) member)

-- The neighbours of a cell linked to each other.
def removal (heap : Heap A D) (left right : List (A × D)) : Heap A D :=
  set_prev (set_next heap (last none left) (first right none)) (first right none) (last none left)

theorem linked_removal (linked : Linked heap none (left ++ cell :: right) none)
    (nodup : (addresses (left ++ cell :: right)).Nodup) :
    Linked (removal heap left right) none (left ++ right) none := by
  obtain ⟨before,_,after⟩ := linked_append.mp linked
  obtain ⟨left_nodup,cell_right,apart⟩ := nodup_parts nodup
  have right_nodup := (List.nodup_cons.mp cell_right).2
  have right_apart : ∀ a ∈ addresses left, a ∉ addresses right :=
    fun a here there => apart a here (List.mem_cons_of_mem _ there)
  refine linked_append.mpr ⟨?_,?_⟩
  · refine linked_congr (fun a member => set_prev_other fun same => ?_)
      (linked_set_next before left_nodup)
    exact right_apart a member (first_member same)
  · refine linked_set_prev (linked_congr (fun a member => set_next_other fun same => ?_) after)
      right_nodup
    exact right_apart a (last_member same) member

-- Two neighbours with their data exchanged.
theorem linked_swap {a b : A} {c d : D}
    (linked : Linked heap front (left ++ (a,c) :: (b,d) :: right) behind)
    (nodup : (addresses (left ++ (a,c) :: (b,d) :: right)).Nodup) :
    Linked (set_data (set_data heap a d) b c) front (left ++ (a,d) :: (b,c) :: right) behind := by
  obtain ⟨before,here,there,after⟩ := linked_append.mp linked
  obtain ⟨_,others,apart⟩ := nodup_parts nodup
  simp only [addresses_cons,List.nodup_cons,List.mem_cons,not_or] at others apart
  obtain ⟨⟨differ,fresh⟩,other,_⟩ := others
  have outside : ∀ x, x ≠ a → x ≠ b → set_data (set_data heap a d) b c x = heap x := by
    intro x first second
    unfold set_data
    rw [Function.update_of_ne second,Function.update_of_ne first]
  refine linked_append.mpr ⟨linked_congr (fun x member => ?_) before,?_,?_,?_⟩
  · obtain ⟨not_first,not_second,_⟩ := apart x member
    exact outside x not_first not_second
  · show set_data (set_data heap a d) b c a = _
    unfold set_data
    rw [Function.update_of_ne differ,Function.update_self,here]
    rfl
  · show set_data (set_data heap a d) b c b = _
    unfold set_data
    rw [Function.update_self,Function.update_of_ne (Ne.symm differ),there]
    rfl
  · refine linked_congr (fun x member => outside x ?_ ?_) after
    · rintro rfl
      exact fresh member
    · rintro rfl
      exact other member

end Writes

end DoublyLinked
