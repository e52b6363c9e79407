import Libcplus.Llist.Lookups

namespace Libcplus
open DoublyLinked Transition

variable {D : Type}

-- The two loops of get_node_of.
inductive Way where
  | next
  | prev
  deriving DecidableEq, Repr

namespace Way

def link (node : Addr) : Way → Link
  | .next => .next node
  | .prev => .prev node

def change : Way → Int
  | .next => 1
  | .prev => -1

-- There is something to walk from k to the index.
def Ahead (k index : Int) : Way → Prop
  | .next => k < index
  | .prev => index < k

end Way

-- Where a call of cplus_llist_get_of is: in front of CHECK_IN_INTERVAL, with the lock in
-- front of the test for equality, of the comparison, of a loop's test, of its two
-- statements, of the return of get_node_of and of get_data.
inductive Getter (D : Type) where
  | calling
  | locked
  | comparing
  | testing (way : Way)
  | assigning (way : Way)
  | counting (way : Way)
  | reading
  | fetching (node : Option Addr)
  | returned (target : Option D)
  deriving DecidableEq, Repr

namespace Getter

-- Between the first test of cur_index and the last read of *(list->current).
def engaged : Getter D → Bool
  | .comparing | .testing _ | .assigning _ | .counting _ | .reading => true
  | _ => false

-- Between the two statements of a loop.
def midway : Getter D → Bool
  | .counting _ => true
  | _ => false

def done : Getter D → Bool
  | .returned _ => true
  | _ => false

end Getter

namespace LinkedList

-- list->current = &((*(list->current))->next), or ->prev.
def assign_current (list : LinkedList D) (way : Way) : Option (LinkedList D) := do
  let node ← (← list.get_current)
  return {list with current := way.link node}

-- list->cur_index ++, or --.
def change_index (list : LinkedList D) (way : Way) : LinkedList D :=
  {list with cur_index := list.cur_index + way.change}

-- CHECK_IN_INTERVAL lets the index pass.
def Within (list : LinkedList D) (index : Int) : Prop := ¬ (0 > index ∨ index > (list.count : Int) - 1)

instance (list : LinkedList D) (index : Int) : Decidable (list.Within index) :=
  inferInstanceAs (Decidable (¬ _))

-- One step of a call, with what it does to the list; none is a fault.
def get_of_step (list : LinkedList D) (index : Int) : Getter D → Option (LinkedList D × Getter D)
  | .calling => some (list,if list.Within index then .locked else .returned none)
  | .locked => some (list,if index = list.cur_index then .reading else .comparing)
  | .comparing => some (list,.testing (if index > list.cur_index then .next else .prev))
  | .testing way => some (list,if index ≠ list.cur_index then .assigning way else .reading)
  | .assigning way => (list.assign_current way).map fun list => (list,.counting way)
  | .counting way => some (list.change_index way,.testing way)
  | .reading => list.get_current.map fun node => (list,.fetching node)
  | .fetching node => (answer (list,node)).map fun result => (list,.returned result.2)
  | .returned target => some (list,.returned target)

end LinkedList

open LinkedList

-- A list and the calls that have its lock together, each with its index. `list` is none
-- after a fault.
structure Readers (ι D : Type) where
  list : Option (LinkedList D)
  index : ι → Int
  readers : ι → Getter D

namespace Readers
variable {ι : Type} [DecidableEq ι]

def start (list : LinkedList D) (index : ι → Int) : Readers ι D := ⟨some list,index,fun _ => .calling⟩

def put (s : Readers ι D) (i : ι) (list : LinkedList D) (reader : Getter D) : Readers ι D :=
  {s with list := some list,readers := Function.update s.readers i reader}

-- The next step of one of the calls; a call that has returned has none.
def advance (s : Readers ι D) (i : ι) : Option (Readers ι D) :=
  s.list.bind fun list =>
    if (s.readers i).done then none
    else
      match list.get_of_step (s.index i) (s.readers i) with
      | some (list,reader) => some (s.put i list reader)
      | none => some {s with list := none}

-- The element of the list at an index, its node and its data.
def element (cells : List (Addr × D)) (index : Int) : Option (Addr × D) :=
  if 0 > index then none else cells[index.toNat]?

def Given (cells : List (Addr × D)) (index : Int) : Getter D → Prop
  | .fetching node => node = (element cells index).map Prod.fst
  | .returned target => target = (element cells index).map Prod.snd
  | _ => True

-- No step has gone through NULL, and what a call has got is the element at its own index.
structure Right (cells : List (Addr × D)) (s : Readers ι D) : Prop where
  list : s.list ≠ none
  given : ∀ i, Given cells (s.index i) (s.readers i)

-- Each call has returned, or it can take a step and has not taken all that it may need.
def Returns (cells : List (Addr × D)) (moves : List (Move (Readers ι D) ι)) (s : Readers ι D) : Prop :=
  ∀ i, (s.readers i).done ∨
    (moves.map Move.action).count i < 3 * cells.length + 3 ∧ (advance s i).isSome

-- `current` is assigned while no other call stands between its first test of cur_index
-- and its last read of the cursor, and no first test is made between the assignment of
-- another call and its change of cur_index.
def Undisturbed (s : Readers ι D) (i : ι) : Prop :=
  match s.readers i with
  | .locked => ∀ j, ¬ (s.readers j).midway
  | .assigning _ => ∀ j, j ≠ i → ¬ (s.readers j).engaged
  | _ => True

instance [Fintype ι] (s : Readers ι D) (i : ι) : Decidable (s.Undisturbed i) := by
  unfold Undisturbed
  split <;> infer_instance

-- The calls that get past CHECK_IN_INTERVAL are one, or all want what the cursor is at.
def Harmless (list : LinkedList D) (index : ι → Int) : Prop :=
  ∀ i j, list.Within (index i) → list.Within (index j) →
    i = j ∨ index i = list.cur_index ∧ index j = list.cur_index

variable {s t : Readers ι D} {list after : LinkedList D} {cells : List (Addr × D)} {index : ι → Int}
  {reader : Getter D} {way : Way} {i j : ι} {p k : Nat}

@[simp] theorem put_self : (s.put i list reader).readers i = reader := Function.update_self _ _ _
@[simp] theorem put_index : (s.put i list reader).index = s.index := rfl

theorem put_other (apart : j ≠ i) : (s.put i list reader).readers j = s.readers j :=
  Function.update_of_ne apart _ _

theorem advance_put (here : s.list = some list) (undone : (s.readers i).done = false)
    (read : list.get_of_step (s.index i) (s.readers i) = some (after,reader)) :
    advance s i = some (s.put i after reader) := by
  unfold advance
  rw [here,Option.bind_some,undone,if_neg Bool.false_ne_true,read]

theorem advance_undone (taken : advance s i = some t) : (s.readers i).done = false := by
  obtain ⟨list,_,taken⟩ := Option.bind_eq_some_iff.mp taken
  split at taken
  · cases taken
  · rename_i undone
    exact Bool.eq_false_iff.mpr undone

theorem step_same {old new : Getter D} (same : old = new) : some (list,old) = some (list,new) := by rw [same]

-- The two statements of a loop, one after the other, are a step of the walk.
theorem loop_steps : (list.assign_current .next).map (change_index · .next) = list.step_next ∧
    (list.assign_current .prev).map (change_index · .prev) = list.step_prev := by
  unfold assign_current step_next step_prev
  cases list.get_current with
  | none => exact ⟨rfl,rfl⟩
  | some node =>
    cases node with
    | none => exact ⟨rfl,rfl⟩
    | some node => exact ⟨rfl,rfl⟩

section Invariant

def Inside (cells : List (Addr × D)) (index : Int) : Prop := 0 ≤ index ∧ index < cells.length

theorem within_inside (represents : Represents list cells) {index : Int} :
    list.Within index ↔ Inside cells index := by
  unfold Within Inside
  rw [represents.count]
  omega

theorem element_outside {index : Int} (outside : ¬ Inside cells index) : element cells index = none := by
  unfold element
  split
  · rfl
  · apply List.getElem?_eq_none
    unfold Inside at outside
    omega

theorem element_at {i : Nat} : element cells i = cells[i]? := if_neg (by omega)

-- Where a call stands, for a cursor that leads to p while cur_index is k.
def Placed (cells : List (Addr × D)) (p k : Nat) (index : Int) : Getter D → Prop
  | .locked => Inside cells index
  | .comparing => Inside cells index ∧ p = k ∧ index ≠ k
  | .testing way => Inside cells index ∧ p = k ∧ (index = k ∨ way.Ahead k index)
  | .assigning way => Inside cells index ∧ p = k ∧ way.Ahead k index
  | .counting way => Inside cells index ∧ (p : Int) = k + way.change ∧ way.Ahead k index
  | .reading => Inside cells index ∧ p = k ∧ index = k
  | reader => Given cells index reader

-- How many steps a call has left when nobody else moves the cursor.
def steps_left (n k : Nat) (index : Int) : Getter D → Nat
  | .calling => 3 * n + 3
  | .locked => 3 * n + 2
  | .comparing => 3 * (index - k).natAbs + 4
  | .testing _ => 3 * (index - k).natAbs + 3
  | .assigning _ => 3 * (index - k).natAbs + 2
  | .counting _ => 3 * (index - k).natAbs + 1
  | .reading => 2
  | .fetching _ => 1
  | .returned _ => 0

-- Only the call between the two statements of its loop has the cursor out of step.
structure Valid (cells : List (Addr × D)) (s : Readers ι D) (list : LinkedList D) (p k : Nat) : Prop where
  here : s.list = some list
  represents : Represents list cells
  leads : LeadsTo cells list.current p
  index : list.cur_index = k
  within : k < cells.length ∨ k = 0
  level : (∀ i, (s.readers i).midway = false) → p = k
  alone : ∀ i j, (s.readers i).midway → (s.readers j).midway → i = j
  placed : ∀ i, Placed cells p k (s.index i) (s.readers i)

omit [DecidableEq ι] in
theorem start_valid (represents : Represents list cells) (points : Points list cells k) :
    Valid cells (start list index) list k k :=
  ⟨rfl,represents,points.link,points.index,points.within,fun _ => rfl,nofun,fun _ => trivial⟩

-- A call that is not engaged does not depend on the cursor.
theorem placed_aside {q m : Nat} {index : Int} (aside : reader.engaged = false)
    (placed : Placed cells p k index reader) : Placed cells q m index reader := by
  cases reader with
  | calling => exact trivial
  | locked => exact placed
  | fetching node => exact placed
  | returned target => exact placed
  | _ => cases aside

theorem left_aside {n m : Nat} {index : Int} (aside : reader.engaged = false) :
    steps_left n k index reader = steps_left n m index reader := by
  cases reader with
  | calling => rfl
  | locked => rfl
  | fetching node => rfl
  | returned target => rfl
  | _ => cases aside

theorem midway_engaged (aside : reader.engaged = false) : reader.midway = false := by
  cases reader with
  | counting way => cases aside
  | _ => rfl

theorem engaged_inside {index : Int} (placed : Placed cells p k index reader) (engaged : reader.engaged) :
    Inside cells index := by
  cases reader with
  | comparing => exact placed.1
  | testing way => exact placed.1
  | assigning way => exact placed.1
  | counting way => exact placed.1
  | reading => exact placed.1
  | _ => cases engaged

theorem assign_here (represents : Represents list cells) (leads : LeadsTo cells list.current p) {node : Addr}
    (there : address cells p = some node) :
    list.assign_current way = some (list.moved (way.link node) list.cur_index) := by
  unfold assign_current get_current
  rw [reads_link represents leads,there]
  rfl

theorem assign_spec (represents : Represents list cells) (leads : LeadsTo cells list.current p) {index : Int}
    (inside : Inside cells index) (ahead : way.Ahead p index) (within : p < cells.length ∨ p = 0) :
    ∃ node q, list.assign_current way = some (list.moved (way.link node) list.cur_index) ∧
      LeadsTo cells (way.link node) q ∧ (q : Int) = p + way.change := by
  have here : p < cells.length := by
    obtain ⟨nonneg,below⟩ := inside
    rcases within with here | zero
    · exact here
    · omega
  obtain ⟨cell,_,there⟩ := address_some here
  have assigned : list.assign_current way = some (list.moved (way.link cell.1) list.cur_index) :=
    assign_here represents leads there
  cases way with
  | next => exact ⟨cell.1,p + 1,assigned,⟨p,there,rfl⟩,rfl⟩
  | prev =>
    have some_before : 0 < p := by
      have ahead : index < (p : Int) := ahead
      have nonneg := inside.1
      omega
    refine ⟨cell.1,p - 1,assigned,?_,?_⟩
    · show address cells (p - 1 + 1) = some cell.1
      rwa [Nat.sub_add_cancel some_before]
    · show ((p - 1 : Nat) : Int) = p + -1
      omega

theorem assign_step {index : Int} (assigned : list.assign_current way = some after) :
    list.get_of_step index (.assigning way) = some (after,.counting way) := by
  show (list.assign_current way).map _ = _
  rw [assigned]
  rfl

-- The place after a step of the walk is inside the list, and not past the index.
theorem walk_within {q : Nat} {index : Int} (inside : Inside cells index) (moved : (q : Int) = p + way.change)
    (ahead : way.Ahead p index) (within : p < cells.length ∨ p = 0) : q < cells.length := by
  obtain ⟨nonneg,below⟩ := inside
  cases way with
  | next =>
    have moved : (q : Int) = p + 1 := moved
    have ahead : (p : Int) < index := ahead
    omega
  | prev =>
    have moved : (q : Int) = p + -1 := moved
    omega

theorem walk_nearer {q : Nat} {index : Int} (moved : (q : Int) = p + way.change) (ahead : way.Ahead p index) :
    index = q ∨ way.Ahead q index := by
  cases way with
  | next =>
    have moved : (q : Int) = p + 1 := moved
    have ahead : (p : Int) < index := ahead
    show index = q ∨ (q : Int) < index
    omega
  | prev =>
    have moved : (q : Int) = p + -1 := moved
    have ahead : index < p := ahead
    show index = q ∨ index < (q : Int)
    omega

-- A step that leaves the cursor alone.
theorem Valid.stays (valid : Valid cells s list p k) (level : (s.readers i).midway = false)
    (placed : Placed cells p k (s.index i) reader) (steady : reader.midway = false) :
    Valid cells (s.put i list reader) list p k := by
  have others : ∀ j, ((s.put i list reader).readers j).midway = (s.readers j).midway := by
    intro j
    by_cases same : j = i
    · subst same
      rw [put_self,steady,level]
    · rw [put_other same]
  refine ⟨rfl,valid.represents,valid.leads,valid.index,valid.within,?_,?_,?_⟩
  · intro none
    apply valid.level
    intro j
    rw [← others j]
    exact none j
  · intro j l first second
    rw [others] at first second
    exact valid.alone j l first second
  · intro j
    by_cases same : j = i
    · subst same
      rw [put_self]
      exact placed
    · rw [put_other same]
      exact valid.placed j

theorem Valid.assigns (valid : Valid cells s list p k) (here : s.readers i = .assigning way)
    (aside : ∀ j, j ≠ i → (s.readers j).engaged = false) : ∃ after q,
    list.assign_current way = some after ∧ Valid cells (s.put i after (.counting way)) after q k := by
  have placed := valid.placed i
  rw [here] at placed
  obtain ⟨inside,rfl,ahead⟩ := placed
  obtain ⟨node,q,assigned,leads,moved⟩ := assign_spec valid.represents valid.leads inside ahead valid.within
  have steady : ∀ j, j ≠ i → ¬ ((s.put i (list.moved (way.link node) list.cur_index)
      (.counting way)).readers j).midway := by
    intro j apart
    rw [put_other apart,midway_engaged (aside j apart)]
    exact Bool.false_ne_true
  refine ⟨_,q,assigned,rfl,moved_represents valid.represents,leads,valid.index,valid.within,?_,?_,?_⟩
  · intro none
    have none := none i
    rw [put_self] at none
    cases none
  · intro j l first second
    have at_j : j = i := not_not.mp fun apart => steady j apart first
    have at_l : l = i := not_not.mp fun apart => steady l apart second
    rw [at_j,at_l]
  · intro j
    by_cases same : j = i
    · subst same
      rw [put_self]
      exact ⟨inside,moved,ahead⟩
    · rw [put_other same]
      exact placed_aside (aside j same) (valid.placed j)

-- The others are not engaged, for the cursor is out of step.
omit [DecidableEq ι] in
theorem Valid.aside (valid : Valid cells s list p k) (here : s.readers i = .counting way) (apart : j ≠ i) :
    (s.readers j).engaged = false := by
  have counting := valid.placed i
  rw [here] at counting
  obtain ⟨_,moved,_⟩ := counting
  have off : p ≠ k := by
    rintro rfl
    cases way with
    | next =>
      have moved : (p : Int) = p + 1 := moved
      omega
    | prev =>
      have moved : (p : Int) = p + -1 := moved
      omega
  have placed := valid.placed j
  cases there : s.readers j with
  | comparing =>
    rw [there] at placed
    exact absurd placed.2.1 off
  | testing way =>
    rw [there] at placed
    exact absurd placed.2.1 off
  | assigning way =>
    rw [there] at placed
    exact absurd placed.2.1 off
  | reading =>
    rw [there] at placed
    exact absurd placed.2.1 off
  | counting way =>
    exact absurd (valid.alone j i (by rw [there]; rfl) (by rw [here]; rfl)) apart
  | _ => rfl

theorem Valid.counts (valid : Valid cells s list p k) (here : s.readers i = .counting way) :
    Valid cells (s.put i (list.change_index way) (.testing way)) (list.change_index way) p p := by
  have placed := valid.placed i
  rw [here] at placed
  obtain ⟨inside,moved,ahead⟩ := placed
  have steady : ∀ j, ((s.put i (list.change_index way) (.testing way)).readers j).midway = false := by
    intro j
    by_cases same : j = i
    · subst same
      rw [put_self]
      rfl
    · rw [put_other same]
      exact midway_engaged (valid.aside here same)
  have index : (list.change_index way).cur_index = p := by
    show list.cur_index + way.change = p
    rw [valid.index,moved]
  have within := walk_within inside moved ahead valid.within
  refine ⟨rfl,moved_represents valid.represents,valid.leads,index,.inl within,fun _ => rfl,?_,?_⟩
  · intro j l first
    rw [steady] at first
    cases first
  · intro j
    by_cases same : j = i
    · subst same
      rw [put_self]
      exact ⟨inside,rfl,walk_nearer moved ahead⟩
    · rw [put_other same]
      exact placed_aside (valid.aside here same) (valid.placed j)

-- What a step does under the condition: it is no fault, the call has fewer steps left,
-- the others as many as before, and only a change of cur_index changes cur_index.
structure Steps (cells : List (Addr × D)) (s : Readers ι D) (i : ι) (k : Nat) (t : Readers ι D)
    (list : LinkedList D) (p m : Nat) : Prop where
  valid : Valid cells t list p m
  index : t.index = s.index
  fewer : steps_left cells.length m (s.index i) (t.readers i) <
    steps_left cells.length k (s.index i) (s.readers i)
  others : ∀ j, j ≠ i → steps_left cells.length m (s.index j) (t.readers j) =
    steps_left cells.length k (s.index j) (s.readers j)
  same : (s.readers i).midway = false → m = k

theorem Valid.step_stays (valid : Valid cells s list p k) (i : ι) (reader : Getter D) (level : (s.readers i).midway = false)
    (placed : Placed cells p k (s.index i) reader) (steady : reader.midway = false)
    (fewer : steps_left cells.length k (s.index i) reader <
      steps_left cells.length k (s.index i) (s.readers i)) :
    Steps cells s i k (s.put i list reader) list p k := by
  refine ⟨valid.stays level placed steady,rfl,?_,fun j apart => ?_,fun _ => rfl⟩
  · rw [put_self]
    exact fewer
  · rw [put_other apart]

-- The answer of a call is the data of the node that it has.
theorem fetch_spec (represents : Represents list cells) {index : Int} {node : Option Addr}
    (given : node = (element cells index).map Prod.fst) :
    answer (list,node) = some (list,(element cells index).map Prod.snd) := by
  subst given
  unfold element
  split
  · rfl
  · rw [← items_get]
    exact answer_at represents index.toNat

theorem left_nearer {n : Nat} {index : Int} (moved : (p : Int) = k + way.change) (ahead : way.Ahead k index) :
    steps_left n p index (.testing way : Getter D) < steps_left n k index (.counting way : Getter D) := by
  have nearer : (index - p).natAbs < (index - k).natAbs := by
    cases way with
    | next =>
      have moved : (p : Int) = k + 1 := moved
      have ahead : (k : Int) < index := ahead
      omega
    | prev =>
      have moved : (p : Int) = k + -1 := moved
      have ahead : index < k := ahead
      omega
  show 3 * (index - p).natAbs + 3 < 3 * (index - k).natAbs + 1
  omega

theorem step_spec (valid : Valid cells s list p k) (undone : (s.readers i).done = false)
    (undisturbed : s.Undisturbed i) : ∃ after reader q m,
      list.get_of_step (s.index i) (s.readers i) = some (after,reader) ∧
      Steps cells s i k (s.put i after reader) after q m := by
  have placed := valid.placed i
  have stays := valid.step_stays i
  unfold Undisturbed at undisturbed
  cases here : s.readers i with
  | calling =>
    rw [here] at stays
    by_cases within : list.Within (s.index i)
    · refine ⟨list,.locked,p,k,step_same (if_pos within),?_⟩
      exact stays _ rfl ((within_inside valid.represents).mp within) rfl (Nat.lt_succ_self _)
    · refine ⟨list,.returned none,p,k,step_same (if_neg within),?_⟩
      have outside := element_outside fun inside => within ((within_inside valid.represents).mpr inside)
      exact stays _ rfl (congrArg (Option.map Prod.snd) outside).symm rfl (Nat.succ_pos _)
  | locked =>
    simp only [here] at undisturbed placed stays
    have level : p = k := valid.level fun j => Bool.eq_false_iff.mpr (undisturbed j)
    obtain ⟨nonneg,below⟩ := placed
    have within := valid.within
    by_cases hit : s.index i = list.cur_index
    · refine ⟨list,.reading,p,k,step_same (if_pos hit),?_⟩
      have fewer : 2 < 3 * cells.length + 2 := by omega
      exact stays _ rfl ⟨⟨nonneg,below⟩,level,hit.trans valid.index⟩ rfl fewer
    · refine ⟨list,.comparing,p,k,step_same (if_neg hit),?_⟩
      rw [valid.index] at hit
      have fewer : 3 * (s.index i - k).natAbs + 4 < 3 * cells.length + 2 := by omega
      exact stays _ rfl ⟨⟨nonneg,below⟩,level,hit⟩ rfl fewer
  | comparing =>
    simp only [here] at placed stays
    obtain ⟨inside,level,miss⟩ := placed
    by_cases forwards : s.index i > list.cur_index
    · refine ⟨list,.testing .next,p,k,step_same (congrArg Getter.testing (if_pos forwards)),?_⟩
      rw [valid.index] at forwards
      exact stays _ rfl ⟨inside,level,.inr forwards⟩ rfl (Nat.lt_succ_self _)
    · refine ⟨list,.testing .prev,p,k,step_same (congrArg Getter.testing (if_neg forwards)),?_⟩
      rw [valid.index] at forwards
      have backwards : s.index i < k := by omega
      exact stays _ rfl ⟨inside,level,.inr backwards⟩ rfl (Nat.lt_succ_self _)
  | testing way =>
    simp only [here] at placed stays
    obtain ⟨inside,level,there⟩ := placed
    by_cases miss : s.index i ≠ list.cur_index
    · refine ⟨list,.assigning way,p,k,step_same (if_pos miss),?_⟩
      rw [valid.index] at miss
      exact stays _ rfl ⟨inside,level,there.resolve_left miss⟩ rfl (Nat.lt_succ_self _)
    · refine ⟨list,.reading,p,k,step_same (if_neg miss),?_⟩
      rw [valid.index,not_not] at miss
      have fewer : 2 < 3 * (s.index i - k).natAbs + 3 := by omega
      exact stays _ rfl ⟨inside,level,miss⟩ rfl fewer
  | assigning way =>
    simp only [here] at undisturbed
    have aside : ∀ j, j ≠ i → (s.readers j).engaged = false :=
      fun j apart => Bool.eq_false_iff.mpr (undisturbed j apart)
    obtain ⟨after,q,assigned,next⟩ := valid.assigns here aside
    refine ⟨after,.counting way,q,k,assign_step assigned,next,rfl,?_,fun j apart => ?_,fun _ => rfl⟩
    · rw [put_self,here]
      exact Nat.lt_succ_self _
    · rw [put_other apart]
  | counting way =>
    simp only [here] at placed
    refine ⟨list.change_index way,.testing way,p,p,rfl,valid.counts here,rfl,?_,fun j apart => ?_,?_⟩
    · rw [put_self,here]
      obtain ⟨_,moved,ahead⟩ := placed
      exact left_nearer moved ahead
    · rw [put_other apart]
      exact left_aside (valid.aside here apart)
    · intro level
      rw [here] at level
      cases level
  | reading =>
    simp only [here] at placed stays
    obtain ⟨inside,rfl,at_index⟩ := placed
    have found : list.get_current = some (address cells p) := reads_link valid.represents valid.leads
    refine ⟨list,.fetching (address cells p),p,p,?_,stays _ rfl ?_ rfl (Nat.lt_succ_self _)⟩
    · show list.get_current.map _ = _
      rw [found]
      rfl
    · show address cells p = (element cells (s.index i)).map Prod.fst
      rw [at_index,element_at]
      rfl
  | fetching node =>
    simp only [here] at placed stays
    refine ⟨list,.returned ((element cells (s.index i)).map Prod.snd),p,k,?_,stays _ rfl rfl rfl (Nat.succ_pos _)⟩
    show (answer (list,node)).map _ = _
    rw [fetch_spec valid.represents placed]
    rfl
  | returned target =>
    rw [here] at undone
    cases undone

theorem step_taken (valid : Valid cells s list p k) (undisturbed : s.Undisturbed i)
    (taken : advance s i = some t) : ∃ after q m, Steps cells s i k t after q m := by
  obtain ⟨after,reader,q,m,read,steps⟩ := step_spec valid (advance_undone taken) undisturbed
  rw [advance_put valid.here (advance_undone taken) read] at taken
  cases taken
  exact ⟨after,q,m,steps⟩

omit [DecidableEq ι] in
theorem Valid.right (valid : Valid cells s list p k) : Right cells s := by
  refine ⟨?_,fun i => ?_⟩
  · rw [valid.here]
    exact Option.some_ne_none _
  · have placed := valid.placed i
    cases here : s.readers i with
    | fetching node =>
      rw [here] at placed
      exact placed
    | returned target =>
      rw [here] at placed
      exact placed
    | _ => exact trivial

-- A call that is not disturbed can always take its next step.
theorem Valid.enabled (valid : Valid cells s list p k) (undone : (s.readers i).done = false) :
    (advance s i).isSome := by
  unfold advance
  rw [valid.here,Option.bind_some,undone,if_neg Bool.false_ne_true]
  split <;> rfl

-- What a call has taken and has left is no more than what it began with.
theorem run_spec {moves : List (Move (Readers ι D) ι)} (represents : Represents list cells)
    (points : Points list cells k) (run : Run (Follows advance) (start list index) moves s)
    (met : Meets Undisturbed moves) :
    Throughout (Right cells) moves ∧ ∃ after p m, Valid cells s after p m ∧
      ∀ i, (moves.map Move.action).count i + steps_left cells.length m (s.index i) (s.readers i) ≤
        3 * cells.length + 3 := by
  induction run with
  | nil =>
    refine ⟨throughout_nil,list,k,k,start_valid represents points,fun i => ?_⟩
    exact Nat.le_of_eq (Nat.zero_add _)
  | @snoc moves s i t prior taken ih =>
    obtain ⟨earlier,undisturbed⟩ := meets_snoc.mp met
    obtain ⟨all,middle,p,m,valid,bounded⟩ := ih earlier
    obtain ⟨after,q,l,steps⟩ : ∃ after q l, Steps cells s i m t after q l := step_taken valid undisturbed taken
    refine ⟨throughout_snoc.mpr ⟨all,steps.valid.right⟩,after,q,l,steps.valid,fun j => ?_⟩
    have bound := bounded j
    rw [List.map_append,List.count_append,steps.index]
    by_cases same : j = i
    · subst same
      have fewer := steps.fewer
      have once : ([(⟨s,j,t⟩ : Move (Readers ι D) ι)].map Move.action).count j = 1 := List.count_singleton_self
      omega
    · have none : ([(⟨s,i,t⟩ : Move (Readers ι D) ι)].map Move.action).count j = 0 :=
        List.count_eq_zero.mpr fun member => same (List.mem_singleton.mp member)
      rw [steps.others j same]
      omega

theorem Valid.returns {moves : List (Move (Readers ι D) ι)} (valid : Valid cells s list p k)
    (bounded : ∀ i, (moves.map Move.action).count i + steps_left cells.length k (s.index i) (s.readers i) ≤
      3 * cells.length + 3) : Returns cells moves s := by
  intro i
  cases undone : (s.readers i).done with
  | true => exact .inl rfl
  | false =>
    have some_left : 0 < steps_left cells.length k (s.index i) (s.readers i) := by
      cases here : s.readers i with
      | returned target =>
        rw [here] at undone
        cases undone
      | reading => exact Nat.succ_pos _
      | fetching node => exact Nat.succ_pos _
      | _ => exact Nat.succ_pos _
    have bound := bounded i
    exact .inr ⟨by omega,valid.enabled undone⟩

-- Harmless, over the cells: one call at most gets past CHECK_IN_INTERVAL, or all such
-- calls have the index of the cursor.
def Lone (cells : List (Addr × D)) (index : ι → Int) (k : Nat) : Prop :=
  (∃ i, ∀ j, Inside cells (index j) → j = i) ∨ ∀ j, Inside cells (index j) → index j = k

omit [DecidableEq ι] in
theorem harmless_lone (represents : Represents list cells) (points : Points list cells k)
    (harmless : Harmless list index) : Lone cells index k := by
  by_cases hits : ∀ j, Inside cells (index j) → index j = k
  · exact .inr hits
  · obtain ⟨i,miss⟩ := not_forall.mp hits
    obtain ⟨inside,miss⟩ := Classical.not_imp.mp miss
    refine .inl ⟨i,fun j there => ?_⟩
    rcases harmless j i ((within_inside represents).mpr there) ((within_inside represents).mpr inside) with
      same | ⟨_,hit⟩
    · exact same
    · exact absurd (hit.trans points.index) miss

theorem ahead_irrefl {index : Int} : ¬ way.Ahead index index := by
  cases way with
  | next => exact Int.lt_irrefl index
  | prev => exact Int.lt_irrefl index

omit [DecidableEq ι] in
theorem Valid.midway_index (valid : Valid cells s list p k) (midway : (s.readers i).midway) :
    Inside cells (s.index i) ∧ s.index i ≠ k := by
  have placed := valid.placed i
  cases here : s.readers i with
  | counting way =>
    rw [here] at placed
    obtain ⟨inside,_,ahead⟩ := placed
    refine ⟨inside,fun hit => ?_⟩
    rw [hit] at ahead
    exact ahead_irrefl ahead
  | _ =>
    rw [here] at midway
    cases midway

omit [DecidableEq ι] in
theorem Valid.lone_undisturbed (valid : Valid cells s list p k) (lone : Lone cells s.index k) (i : ι) :
    s.Undisturbed i := by
  have placed := valid.placed i
  unfold Undisturbed
  split
  · rename_i here
    rw [here] at placed
    intro j midway
    obtain ⟨inside,miss⟩ := valid.midway_index midway
    rcases lone with ⟨l,only⟩ | hits
    · rw [only j inside,← only i placed,here] at midway
      cases midway
    · exact miss (hits j inside)
  · rename_i way here
    rw [here] at placed
    obtain ⟨inside,_,ahead⟩ := placed
    intro j apart engaged
    rcases lone with ⟨l,only⟩ | hits
    · have there := only j (engaged_inside (valid.placed j) engaged)
      exact apart (there.trans (only i inside).symm)
    · rw [hits i inside] at ahead
      exact ahead_irrefl ahead
  · trivial

-- The index of the cursor stays where all the calls want it.
omit [DecidableEq ι] in
theorem Steps.lone {q m : Nat} (steps : Steps cells s i k t list q m) (valid : Valid cells s after p k)
    (lone : Lone cells s.index k) : Lone cells t.index m := by
  rw [steps.index]
  rcases lone with only | hits
  · exact .inl only
  · have level : (s.readers i).midway = false := by
      apply Bool.eq_false_iff.mpr
      intro midway
      obtain ⟨inside,miss⟩ := valid.midway_index midway
      exact miss (hits i inside)
    rw [steps.same level]
    exact .inr hits

theorem lone_met {moves : List (Move (Readers ι D) ι)} (represents : Represents list cells)
    (points : Points list cells k) (lone : Lone cells index k)
    (run : Run (Follows advance) (start list index) moves s) :
    Meets Undisturbed moves ∧ ∃ after p m, Valid cells s after p m ∧ Lone cells s.index m := by
  induction run with
  | nil => exact ⟨meets_nil,list,k,k,start_valid represents points,lone⟩
  | @snoc moves s i t prior taken ih =>
    obtain ⟨met,middle,p,m,valid,lone⟩ := ih
    have undisturbed := valid.lone_undisturbed lone i
    obtain ⟨after,q,l,steps⟩ := step_taken valid undisturbed taken
    exact ⟨meets_snoc.mpr ⟨met,undisturbed⟩,after,q,l,steps.valid,steps.lone valid lone⟩

end Invariant

section Clash

-- Some way on from here goes wrong.
def Lost (cells : List (Addr × D)) (s : Readers ι D) : Prop :=
  ∃ moves t, Run (Follows advance) s moves t ∧ ¬ Right cells t

@[simp] theorem put_put {other : Getter D} :
    (s.put i list reader).put i after other = s.put i after other := by
  unfold put
  rw [Function.update_idem]

theorem Lost.before {other : Getter D} (here : s.list = some list) (place : s.readers i = reader)
    (undone : reader.done = false) (read : list.get_of_step (s.index i) reader = some (after,other))
    (lost : Lost cells (s.put i after other)) : Lost cells s := by
  obtain ⟨moves,t,run,wrong⟩ := lost
  subst place
  exact ⟨_,t,run.cons (advance_put here undone read),wrong⟩

theorem Lost.then {other : Getter D} (undone : reader.done = false)
    (read : list.get_of_step (s.index i) reader = some (after,other)) (lost : Lost cells (s.put i after other)) :
    Lost cells (s.put i list reader) := by
  refine Lost.before rfl put_self undone read ?_
  rw [put_put]
  exact lost

-- A link of a node leads to another place.
theorem beside (represents : Represents list cells) {cell : Addr × D} (there : cells[p]? = some cell)
    (way : Way) : ∃ other, list.read_link (way.link cell.1) = some other ∧ other ≠ address cells p := by
  have node := node_at represents.linked there
  have within := (List.getElem?_eq_some_iff.mp there).1
  have place : ∀ q, address cells q = (addresses cells)[q]? := fun q => List.getElem?_map.symm
  have apart : ∀ q, q ≠ p → address cells q ≠ address cells p := by
    intro q different same
    rw [place,place] at same
    have length : p < (addresses cells).length := by
      rw [addresses,List.length_map]
      exact within
    exact different ((List.getElem?_inj length represents.nodup).mp same.symm).symm
  cases way with
  | next =>
    refine ⟨address cells (p + 1),?_,apart _ (Nat.succ_ne_self p)⟩
    show (list.nodes cell.1).map Node.next = _
    rw [node]
    rfl
  | prev =>
    refine ⟨address_before cells p,?_,?_⟩
    · show (list.nodes cell.1).map Node.prev = _
      rw [node]
      rfl
    · cases p with
      | zero =>
        rw [address,there]
        exact (Option.some_ne_none cell.1).symm
      | succ q => exact apart q (Nat.succ_ne_self q).symm

-- Call j stands in front of an assignment, while call i has its way with the cursor.
structure Poised (cells : List (Addr × D)) (s : Readers ι D) (i j : ι) (list : LinkedList D) (p : Nat) :
    Prop where
  here : s.list = some list
  represents : Represents list cells
  leads : LeadsTo cells list.current p
  index : list.cur_index = p
  within : p < cells.length ∨ p = 0
  inside : Inside cells (s.index i)
  apart : j ≠ i
  assigning : ∃ way, s.readers j = .assigning way

theorem Poised.moves {q : Nat} (poised : Poised cells s i j list p) (represents : Represents after cells)
    (leads : LeadsTo cells after.current q) (index : after.cur_index = q)
    (within : q < cells.length ∨ q = 0) (reader : Getter D) :
    Poised cells (s.put i after reader) i j after q := by
  refine ⟨rfl,represents,leads,index,within,poised.inside,poised.apart,?_⟩
  obtain ⟨way,assigning⟩ := poised.assigning
  exact ⟨way,(put_other poised.apart).trans assigning⟩

theorem Poised.stays (poised : Poised cells s i j list p) (reader : Getter D) :
    Poised cells (s.put i list reader) i j list p :=
  poised.moves poised.represents poised.leads poised.index poised.within reader

-- The cursor is where i wants it, but j moves it before i reads.
theorem Poised.reading (poised : Poised cells s i j list p) (reading : s.readers i = .reading)
    (hit : s.index i = p) : Lost cells s := by
  obtain ⟨way,assigning⟩ := poised.assigning
  have inside := poised.inside
  obtain ⟨_,below⟩ := inside
  obtain ⟨cell,same,there⟩ := address_some (show p < cells.length by omega)
  obtain ⟨other,beside,wrong⟩ := beside poised.represents same way
  have assigned : list.assign_current way = some (list.moved (way.link cell.1) list.cur_index) :=
    assign_here poised.represents poised.leads there
  have still : (s.put j (list.moved (way.link cell.1) list.cur_index) (.counting way)).readers i = .reading :=
    (put_other poised.apart.symm).trans reading
  have read : (list.moved (way.link cell.1) list.cur_index).get_of_step (s.index i) .reading =
      some (list.moved (way.link cell.1) list.cur_index,.fetching other) := by
    show (list.read_link (way.link cell.1)).map _ = _
    rw [beside]
    rfl
  apply Lost.before poised.here assigning rfl (assign_step assigned)
  apply Lost.before rfl still rfl read
  refine ⟨[],_,.nil,fun right => ?_⟩
  have given := right.given i
  rw [put_self,put_index,put_index,hit,Given,element_at] at given
  exact wrong given

-- One round of i's loop, with j standing by.
theorem Poised.round (poised : Poised cells s i j list p) (testing : s.readers i = .testing way)
    (ahead : way.Ahead p (s.index i)) : ∃ after, ∃ q : Nat, (q : Int) = p + way.change ∧
      Poised cells (s.put i after (.testing way)) i j after q ∧
      (Lost cells (s.put i after (.testing way)) → Lost cells s) := by
  have miss : s.index i ≠ list.cur_index := by
    intro hit
    rw [hit,poised.index] at ahead
    exact ahead_irrefl ahead
  have tested : list.get_of_step (s.index i) (.testing way) = some (list,.assigning way) := step_same (if_pos miss)
  obtain ⟨node,q,assigned,leads,moved⟩ :=
    assign_spec poised.represents poised.leads poised.inside ahead poised.within
  have index : ((list.moved (way.link node) list.cur_index).change_index way).cur_index = q := by
    show list.cur_index + way.change = q
    rw [poised.index,moved]
  have within := walk_within poised.inside moved ahead poised.within
  refine ⟨_,q,moved,poised.moves (moved_represents poised.represents) leads index (.inl within) _,?_⟩
  intro lost
  apply Lost.before poised.here testing rfl tested
  apply Lost.then rfl (assign_step assigned)
  exact Lost.then rfl rfl lost

-- The walk is lost from any distance.
theorem Poised.testing (d : Nat) (poised : Poised cells s i j list p) (testing : s.readers i = .testing way)
    (distance : s.index i = p + d * way.change) : Lost cells s := by
  induction d generalizing s list p with
  | zero =>
    have hit : s.index i = p := by
      rw [distance]
      simp
    have read : list.get_of_step (s.index i) (.testing way) = some (list,.reading) :=
      step_same (if_neg (not_not.mpr (hit.trans poised.index.symm)))
    refine Lost.before poised.here testing rfl read ?_
    exact (poised.stays .reading).reading put_self hit
  | succ d ih =>
    rw [Int.natCast_succ,Int.add_mul,Int.one_mul] at distance
    have ahead : way.Ahead p (s.index i) := by
      rw [distance]
      cases way with
      | next =>
        show (p : Int) < p + (d * 1 + 1)
        omega
      | prev =>
        show (p : Int) + (d * -1 + -1) < p
        omega
    obtain ⟨after,q,moved,next,lost⟩ := poised.round testing ahead
    have nearer : s.index i = q + d * way.change := by
      rw [distance,moved]
      omega
    exact lost (ih next put_self nearer)

theorem Poised.locked (poised : Poised cells s i j list p) (locked : s.readers i = .locked) : Lost cells s := by
  by_cases hit : s.index i = list.cur_index
  · refine Lost.before poised.here locked rfl (step_same (if_pos hit)) ?_
    exact (poised.stays .reading).reading put_self (hit.trans poised.index)
  · apply Lost.before poised.here locked rfl (step_same (if_neg hit))
    apply Lost.then rfl rfl
    apply (poised.stays _).testing (s.index i - p).natAbs put_self
    rw [poised.index] at hit ⊢
    by_cases forwards : s.index i > p
    · have way : (if s.index i > p then Way.next else .prev) = .next := if_pos forwards
      show s.index i = p + _ * (if s.index i > p then Way.next else .prev).change
      rw [way]
      show s.index i = p + ((s.index i - p).natAbs : Int) * 1
      omega
    · have way : (if s.index i > p then Way.next else .prev) = .prev := if_neg forwards
      show s.index i = p + _ * (if s.index i > p then Way.next else .prev).change
      rw [way]
      show s.index i = p + ((s.index i - p).natAbs : Int) * -1
      omega

-- A call whose index is not the cursor's gets in front of an assignment.
theorem calling_poised (here : s.list = some list) (calling : s.readers j = .calling)
    (within : list.Within (s.index j)) (miss : s.index j ≠ list.cur_index)
    (lost : ∀ way, Lost cells (s.put j list (.assigning way))) : Lost cells s := by
  refine Lost.before here calling rfl (step_same (if_pos within)) ?_
  refine Lost.then rfl (step_same (if_neg miss)) ?_
  refine Lost.then rfl rfl ?_
  refine Lost.then rfl (step_same (if_pos miss)) ?_
  exact lost _

theorem clash (represents : Represents list cells) (points : Points list cells k) (apart : j ≠ i)
    (first : list.Within (index i)) (second : list.Within (index j)) (miss : index j ≠ list.cur_index) :
    Lost cells (start list index) := by
  refine calling_poised rfl rfl second miss fun way => ?_
  have calling : ((start list index).put j list (.assigning way)).readers i = .calling := put_other apart.symm
  have poised : Poised cells ((start list index).put j list (.assigning way)) i j list k :=
    ⟨rfl,represents,points.link,points.index,points.within,(within_inside represents).mp first,apart,way,put_self⟩
  refine Lost.before rfl calling rfl (step_same (if_pos first)) ?_
  exact (poised.stays .locked).locked put_self

end Clash

-- The element at an index is what a call gets that has the list for itself.
theorem element_alone (represents : Represents list cells) (points : Points list cells k) (index : Int) :
    ∃ after, list.cplus_llist_get_of index = some (after,(element cells index).map Prod.snd) := by
  by_cases inside : Inside cells index
  · obtain ⟨i,rfl⟩ := Int.eq_ofNat_of_zero_le inside.1
    have below : i < (items cells).length := by
      rw [items_length]
      exact Int.ofNat_lt.mp inside.2
    have here : k < (items cells).length ∨ k = 0 := by
      rw [items_length]
      exact points.within
    have refines : Refines list ⟨items cells,k,here⟩ := ⟨cells,represents,points,rfl⟩
    obtain ⟨after,called,_⟩ := get_of_spec refines below
    refine ⟨after,called.trans ?_⟩
    rw [element_at,← items_get]
  · have refused : ¬ list.Within index := fun within => inside ((within_inside represents).mp within)
    rw [element_outside inside]
    exact ⟨list,if_pos (not_not.mp refused)⟩

-- In a run whose steps all meet the condition nothing goes wrong, and every call returns;
-- and nothing goes wrong in any run exactly when the calls are harmless by their indices.
theorem readers_exact (represents : Represents list cells) (points : Points list cells k) (index : ι → Int) :
    (∀ moves s, Run (Follows advance) (start list index) moves s → Meets Undisturbed moves →
      Throughout (Right cells) moves ∧ Right cells s ∧ Returns cells moves s) ∧
    ((∀ moves s, Run (Follows advance) (start list index) moves s → Right cells s ∧ Returns cells moves s) ↔
      Harmless list index) := by
  have undisturbed : ∀ moves s, Run (Follows advance) (start list index) moves s → Meets Undisturbed moves →
      Throughout (Right cells) moves ∧ Right cells s ∧ Returns cells moves s := by
    intro moves s run met
    obtain ⟨all,after,p,m,valid,bounded⟩ := run_spec represents points run met
    exact ⟨all,valid.right,valid.returns bounded⟩
  refine ⟨undisturbed,?_,?_⟩
  · intro all i j first second
    by_contra harmful
    obtain ⟨apart,miss⟩ := not_or.mp harmful
    have lost : Lost cells (start list index) := by
      by_cases hit : index j = list.cur_index
      · exact clash represents points apart second first fun other => miss ⟨other,hit⟩
      · exact clash represents points (Ne.symm apart) first second hit
    obtain ⟨moves,s,run,wrong⟩ := lost
    exact wrong (all moves s run).1
  · intro harmless moves s run
    have met := (lone_met represents points (harmless_lone represents points harmless) run).1
    exact (undisturbed moves s run met).2

section Runs

theorem three_points : Points three_list [(0,5),(1,7),(2,5)] 2 := ⟨rfl,⟨1,rfl,rfl⟩,.inl (by decide)⟩

-- Two calls want what the cursor is at, one is refused, and one waits with its walk
-- until the first two have read.
def patient_index (i : Fin 4) : Int := if i = 1 then 3 else if i = 2 then 0 else 2

def patient_actions : List (Fin 4) := [0,2,3,0,3,2,1,2,2,0,3,2,2,2,0,3,2,2,2,2,2]

theorem patient_right : ∃ moves s, Run (Follows advance) (start three_list patient_index) moves s ∧
    moves.map Move.action = patient_actions ∧ Right [(0,5),(1,7),(2,5)] s ∧
    Returns [(0,5),(1,7),(2,5)] moves s ∧ s.readers 2 = .returned (some 5) ∧
    ¬ ∀ moves s, Run (Follows advance) (start three_list patient_index) moves s →
      Right [(0,5),(1,7),(2,5)] s ∧ Returns [(0,5),(1,7),(2,5)] moves s := by
  obtain ⟨moves,s,run,same,checked⟩ := Run.of_check advance (start three_list patient_index) patient_actions
    (fun result => decide (Meets Undisturbed result.1 ∧ result.2.readers 2 = .returned (some 5)))
    (by decide +kernel)
  obtain ⟨met,returned⟩ := of_decide_eq_true checked
  obtain ⟨undisturbed,exact_when⟩ := readers_exact three_represents three_points patient_index
  obtain ⟨_,right,returns⟩ := undisturbed moves s run met
  refine ⟨moves,s,run,same,right,returns,returned,fun all => ?_⟩
  rcases exact_when.mp all 0 2 (by decide) (by decide) with same | ⟨_,hit⟩
  · cases same
  · cases hit

-- Call 0 has found that 1 is in front of the cursor, when call 1 takes the cursor to 0
-- and returns; call 0 goes over the head of the list and on.
def overtaken_index (i : Fin 2) : Int := if i = 0 then 1 else 0

def overtaken_actions : List (Fin 2) := [0,0,0,0,1,1,1,1,1,1,1,1,1,1,1,1,0,0,0,0]

theorem overtaken_faults : ∃ moves s, Run (Follows advance) (start three_list overtaken_index) moves s ∧
    moves.map Move.action = overtaken_actions ∧ s.list.isNone ∧ ¬ Right [(0,5),(1,7),(2,5)] s := by
  obtain ⟨moves,s,run,same,checked⟩ := Run.of_check advance (start three_list overtaken_index) overtaken_actions
    (fun result => result.2.list.isNone) (by decide +kernel)
  exact ⟨moves,s,run,same,checked,fun right => right.list (Option.isNone_iff_eq_none.mp checked)⟩

end Runs

end Readers

end Libcplus
