import Mathlib.Data.List.Basic
import Mathlib.Data.List.Rotate

universe u

-- A finite sequence with a position in it, which is 0 when there are no items.
@[ext] structure Sequence (D : Type u) where
  items : List D
  cursor : Nat
  within : cursor < items.length ∨ cursor = 0

namespace Sequence
variable {D : Type u}

def start (items : List D) : Sequence D := ⟨items,0,.inr rfl⟩

def visit (s : Sequence D) (i : Nat) : Sequence D :=
  if inside : i < s.items.length then ⟨s.items,i,.inl inside⟩ else s

-- An edit between two items leaves the position there, one at an end goes back
-- to the start.
def insert (s : Sequence D) (i : Nat) (item : D) : Sequence D :=
  if inside : 0 < i ∧ i < s.items.length then
    ⟨s.items.insertIdx i item,i,.inl (by rw [List.length_insertIdx_of_le_length (by omega)]; omega)⟩
  else start (s.items.insertIdx i item)

-- The last item is removed by the index behind it.
def slot (s : Sequence D) (i : Nat) : Nat := if i = s.items.length then i - 1 else i

def remove (s : Sequence D) (i : Nat) : Sequence D :=
  if inside : 0 < i ∧ i + 1 < s.items.length then
    ⟨s.items.eraseIdx i,i,.inl (by rw [List.length_eraseIdx_of_lt (by omega)]; omega)⟩
  else start (s.items.eraseIdx (s.slot i))

-- A search stops at the first item it accepts, or at the last item.
def stop (found : D → Bool) (items : List D) : Nat := min (items.findIdx found) (items.length - 1)

theorem stop_within (found : D → Bool) (items : List D) :
    stop found items < items.length ∨ stop found items = 0 := by
  unfold stop
  omega

def search (s : Sequence D) (found : D → Bool) : Sequence D :=
  ⟨s.items,stop found s.items,stop_within found s.items⟩

-- The first item accepted is removed, where there is one.
def discard (s : Sequence D) (found : D → Bool) : Sequence D :=
  if s.items.any found then start (s.items.eraseP found) else s.search found

def arrange (s : Sequence D) (items : List D) (same : items.length = s.items.length) : Sequence D :=
  ⟨items,s.cursor,same ▸ s.within⟩

def here (s : Sequence D) : Option D := s.items[s.cursor]?

def forward (s : Sequence D) : Sequence D := s.visit (s.cursor + 1)

def backward (s : Sequence D) : Sequence D := s.visit (s.cursor - 1)

def turn (s : Sequence D) : Sequence D :=
  if s.cursor + 1 < s.items.length then s.forward else start s.items

-- Chosen items go to a list made for the first of them, as far as there is room:
-- `granted k` is the answer to the k-th request.
def pick (granted : Nat → Bool) (k : Nat) (chosen : List D) : List D :=
  ((chosen.zipIdx k).filter fun numbered => granted numbered.2).map Prod.fst

def gather (granted : Nat → Bool) (k : Nat) (got : Option (List D)) (chosen : List D) :
    Option (List D) := if chosen.isEmpty then got else some (got.getD [] ++ pick granted k chosen)

def select (s : Sequence D) (found : D → Bool) (granted : Nat → Bool) : Option (List D) :=
  gather granted 0 none (s.items.filter found)

@[simp] theorem start_items (items : List D) : (start items).items = items := rfl
@[simp] theorem start_cursor (items : List D) : (start items).cursor = 0 := rfl

-- What each of them leaves of the items, wherever the position is.
theorem visit_items (s : Sequence D) (i : Nat) : (s.visit i).items = s.items := by
  unfold visit
  split <;> rfl

theorem insert_items (s : Sequence D) (i : Nat) (item : D) :
    (s.insert i item).items = s.items.insertIdx i item := by
  unfold insert
  split <;> rfl

theorem remove_items (s : Sequence D) (i : Nat) : (s.remove i).items = s.items.eraseIdx (s.slot i) := by
  unfold remove
  split
  · rename_i inside
    rw [slot,if_neg (by omega)]
  · rfl

theorem discard_items (s : Sequence D) (found : D → Bool) :
    (s.discard found).items = s.items.eraseP found := by
  unfold discard
  split
  · rfl
  · rename_i nowhere
    refine (List.eraseP_of_forall_not fun d member accepted => nowhere ?_).symm
    exact List.any_eq_true.mpr ⟨d,member,accepted⟩

-- The items met by turning on and on, and their positions.
def turns (s : Sequence D) : Nat → List (Option D)
  | 0 => []
  | m+1 => s.here :: s.turn.turns m

def rounds (n c m : Nat) : List Nat := (List.range m).map fun k => (c + k) % n

theorem turn_items (s : Sequence D) : s.turn.items = s.items := by
  unfold turn forward
  split
  · exact visit_items s _
  · rfl

theorem turn_cursor (s : Sequence D) (more : s.items ≠ []) :
    s.turn.cursor = (s.cursor + 1) % s.items.length := by
  have positive := List.length_pos_iff.mpr more
  have within : s.cursor < s.items.length := by
    rcases s.within with inside | zero
    · exact inside
    · rwa [zero]
  unfold turn forward visit
  by_cases further : s.cursor + 1 < s.items.length
  · rw [if_pos further,dif_pos further,Nat.mod_eq_of_lt further]
  · have last : s.cursor + 1 = s.items.length := by omega
    rw [if_neg further,start_cursor,last,Nat.mod_self]

theorem rounds_succ {n c : Nat} (within : c < n) (m : Nat) :
    rounds n c (m + 1) = c :: rounds n ((c + 1) % n) m := by
  unfold rounds
  rw [List.range_succ_eq_map,List.map_cons,List.map_map,Nat.add_zero,Nat.mod_eq_of_lt within]
  congr 1
  apply List.map_congr_left
  intro k _
  show (c + (k + 1)) % n = ((c + 1) % n + k) % n
  rw [Nat.mod_add_mod]
  congr 1
  omega

theorem turns_spec (s : Sequence D) (more : s.items ≠ []) (m : Nat) :
    s.turns m = (rounds s.items.length s.cursor m).map (s.items[·]?) := by
  induction m generalizing s with
  | zero => rfl
  | succ m ih =>
    have within : s.cursor < s.items.length := by
      rcases s.within with inside | zero
      · exact inside
      · rw [zero]
        exact List.length_pos_iff.mpr more
    have later := ih s.turn (by rwa [s.turn_items])
    rw [s.turn_items,s.turn_cursor more] at later
    rw [turns,later,rounds_succ within]
    rfl

-- As many turns as there are positions come to each of them once.
theorem rounds_window {n c m j : Nat} (inside : j + n ≤ m) :
    (((rounds n c m).drop j).take n).Perm (List.range n) := by
  have turned : ((rounds n c m).drop j).take n = (List.range n).rotate (c + j) := by
    apply List.ext_getElem
    · simp only [rounds,List.length_take,List.length_drop,List.length_map,List.length_range,
        List.length_rotate]
      omega
    · intro k before after
      simp only [rounds,List.getElem_take,List.getElem_drop,List.getElem_map,List.getElem_range,
        List.getElem_rotate,List.length_range]
      congr 1
      omega
  rw [turned]
  exact List.rotate_perm _ _

variable {found : D → Bool} {a b : D} {left right items : List D}

theorem gather_granted {granted : Nat → Bool} {k : Nat} {got : Option (List D)} (grant : granted k = true) :
    gather granted k got (a :: items) = gather granted (k + 1) (some (got.getD [] ++ [a])) items := by
  cases items with
  | nil => simp [gather,pick,grant]
  | cons b rest => simp [gather,pick,grant]

theorem gather_refused {granted : Nat → Bool} {k : Nat} {got : Option (List D)}
    (refuse : granted k = false) :
    gather granted k got (a :: items) = gather granted (k + 1) (some (got.getD [])) items := by
  cases items with
  | nil => simp [gather,pick,refuse]
  | cons b rest => simp [gather,pick,refuse]

theorem stop_accepted (accepted : found a = true) : stop found (a :: items) = 0 := by
  simp [stop,List.findIdx_cons,accepted]

theorem stop_single : stop found [a] = 0 := by simp [stop]

theorem stop_refused (refused : found a = false) :
    stop found (a :: b :: items) = stop found (b :: items) + 1 := by
  have further : (a :: b :: items).findIdx found = (b :: items).findIdx found + 1 := by
    rw [List.findIdx_cons,refused]
    rfl
  unfold stop
  rw [further,List.length_cons,List.length_cons]
  omega

theorem insertIdx_between : (left ++ right).insertIdx left.length a = left ++ a :: right := by
  induction left with
  | nil => rfl
  | cons b rest ih => exact congrArg (b :: ·) ih

theorem eraseIdx_between : (left ++ a :: right).eraseIdx left.length = left ++ right := by
  induction left with
  | nil => rfl
  | cons b rest ih => exact congrArg (b :: ·) ih

-- The first item accepted, with those in front of it.
theorem findIdx_between (refused : ∀ d ∈ left, found d = false) (accepted : found a = true) :
    (left ++ a :: right).findIdx found = left.length := by
  induction left with
  | nil => simp [List.findIdx_cons,accepted]
  | cons b rest ih =>
    have further := ih fun d member => refused d (List.mem_cons_of_mem _ member)
    rw [List.cons_append,List.findIdx_cons,refused b List.mem_cons_self,further]
    rfl

theorem eraseP_between (refused : ∀ d ∈ left, found d = false) (accepted : found a = true) :
    (left ++ a :: right).eraseP found = left ++ right := by
  rw [List.eraseP_append_right _ fun d member => by simp [refused d member],
    List.eraseP_cons_of_pos accepted]

end Sequence
