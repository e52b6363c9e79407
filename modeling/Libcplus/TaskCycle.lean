import Libcplus.TaskPool
import Mathlib.Data.List.Rotate

-- A task pool whose tasks stay in the list: get_task_cycling.
namespace Libcplus.TaskPool
open Transition

section
variable {α : Type} {items : List α}

-- k items from the one at `from_` on, back to the first after the last.
def rounds (items : List α) (from_ k : Nat) : List α :=
  (List.replicate (k / items.length) (items.rotate from_)).flatten ++ (items.rotate from_).take (k % items.length)

theorem rounds_zero (items : List α) (from_ : Nat) : rounds items from_ 0 = [] := by simp [rounds]

theorem rounds_succ (some_items : items ≠ []) (from_ k : Nat) :
    rounds items from_ (k + 1) = rounds items from_ k ++ (items[(from_ + k) % items.length]?).toList := by
  have positive := List.length_pos_of_ne_nil some_items
  have inside := Nat.mod_lt k positive
  have here : (items.rotate from_)[k % items.length]? = items[(from_ + k) % items.length]? := by
    rw [List.getElem?_rotate inside,Nat.mod_add_mod,Nat.add_comm]
  have longer : (items.rotate from_).take (k % items.length + 1) =
      (items.rotate from_).take (k % items.length) ++ (items[(from_ + k) % items.length]?).toList := by
    rw [List.take_add_one,here]
  unfold rounds
  by_cases last : k % items.length + 1 = items.length
  · have remainder : (k + 1) % items.length = 0 := by rw [← Nat.mod_add_mod,last,Nat.mod_self]
    have quotient : (k + 1) / items.length = k / items.length + 1 := by
      rw [Nat.succ_div,if_pos (Nat.dvd_of_mod_eq_zero remainder)]
    have whole : (items.rotate from_).take items.length = items.rotate from_ := by
      rw [← List.length_rotate items from_,List.take_length]
    rw [last,whole] at longer
    rw [quotient,remainder,List.replicate_succ',List.flatten_append,List.append_assoc,List.append_assoc,← longer]
    simp
  · have remainder : (k + 1) % items.length = k % items.length + 1 := by
      rw [← Nat.mod_add_mod,Nat.mod_eq_of_lt (by omega)]
    have quotient : (k + 1) / items.length = k / items.length := by
      rw [Nat.succ_div,if_neg]
      · simp
      intro divides
      rw [Nat.mod_eq_zero_of_dvd divides] at remainder
      omega
    rw [quotient,remainder,longer,List.append_assoc]

end

section
variable {Adder Worker Task : Type} [DecidableEq Adder] [DecidableEq Worker]
variable {cfg : Config} {s t next : State Adder Worker Task} {action : Action Adder Worker Task}
variable {earlier later : List (Move (State Adder Worker Task) (Action Adder Worker Task))}

-- Nothing comes into the list and nothing is taken out of it.
def Quiet (cfg : Config) (s : State Adder Worker Task) : Action Adder Worker Task → Prop
  | .add_section _ task block => (add_task cfg s task block).1 = false
  | .remove_task _ => False
  | .clear_task => False
  | _ => True

instance (cfg : Config) (s : State Adder Worker Task) (action : Action Adder Worker Task) : Decidable (Quiet cfg s action) := by
  cases action <;> unfold Quiet <;> infer_instance

def fetches (m : Move (State Adder Worker Task) (Action Adder Worker Task)) : Bool :=
  match m.action with
  | .fetch_section _ => true
  | _ => false

-- The cursor is on a task of the list.
def InRange (s : State Adder Worker Task) : Prop := s.task_list ≠ [] → s.cur_index < s.task_list.length

theorem add_section_cycling (cycling : cfg.get_task_cycling = true) {a : Adder} {task : Task} {block : Option Nat}
    (taken : Step cfg s (.add_section a task block) next) : next = (add_task cfg s task block).2 := by
  simp only [Step,Follows,advance,cycling] at taken
  split at taken
  · simpa using taken.symm
  · cases taken

-- A worker gets the task under the cursor, which goes on.
theorem fetch_section_cycling (cycling : cfg.get_task_cycling = true) {w : Worker} (range : InRange s)
    (taken : Step cfg s (.fetch_section w) next) : next.task_list = s.task_list ∧ (s.task_list ≠ [] →
      next.cur_index = (s.cur_index + 1) % s.task_list.length ∧
        dequeued cfg ⟨s,.fetch_section w,next⟩ = (s.queue[s.cur_index]?).toList) := by
  have fetched : dequeued cfg ⟨s,.fetch_section w,next⟩ = (s.queue[s.cur_index]?).toList := by
    simp [dequeued,fetch_task,cycling,State.queue]
  simp only [Step,Follows,advance] at taken
  split at taken
  · split at taken
    · rename_i positive
      have here := range (List.ne_nil_of_length_pos positive)
      have turned : (if s.cur_index + 1 < s.task_list.length then s.cur_index + 1 else 0) =
          (s.cur_index + 1) % s.task_list.length := by
        split
        · exact (Nat.mod_eq_of_lt ‹_›).symm
        · have last : s.cur_index + 1 = s.task_list.length := by omega
          rw [last,Nat.mod_self]
      simp only [fetch_task,cycling,if_true,List.getElem?_eq_getElem here] at taken
      cases taken
      exact ⟨rfl,fun _ => ⟨turned,fetched⟩⟩
    · rename_i empty
      cases taken
      refine ⟨rfl,fun some_tasks => ?_⟩
      exact (empty (List.length_pos_of_ne_nil some_tasks)).elim
  · cases taken

-- The steps that only the workers and the semaphore take part in.
theorem step_apart (taken : Step cfg s action next) (other : match action with
      | .add_section _ _ _ | .fetch_section _ | .remove_task _ | .clear_task => False
      | _ => True) : next.task_list = s.task_list ∧ next.cur_index = s.cur_index := by
  cases action with
  | semaphore_push a =>
    obtain ⟨_,rfl⟩ := semaphore_push_parts taken
    exact ⟨rfl,rfl⟩
  | semaphore_wait w =>
    simp only [Step,Follows,advance] at taken
    split at taken
    · split at taken
      · cases taken
        exact ⟨rfl,rfl⟩
      · split at taken
        · cases taken
          exact ⟨rfl,rfl⟩
        · cases taken
    · cases taken
  | wait_timeout w =>
    rw [wait_timeout_parts taken]
    exact ⟨rfl,rfl⟩
  | run_task w =>
    obtain ⟨_,rfl⟩ := run_task_parts taken
    exact ⟨rfl,rfl⟩
  | _ => exact other.elim

theorem step_in_range (cycling : cfg.get_task_cycling = true) (range : InRange s) (taken : Step cfg s action next) :
    InRange next := by
  have apart (other : next.task_list = s.task_list ∧ next.cur_index = s.cur_index) : InRange next := by
    rwa [InRange,other.1,other.2]
  cases action with
  | add_section a task block =>
    rw [add_section_cycling cycling taken]
    obtain ⟨b,_,after⟩ | ⟨_,pool,after⟩ := add_task_cases cfg s task block
    · rw [after]
      exact fun _ => Nat.succ_pos _
    · rw [after]
      exact range
  | fetch_section w =>
    obtain ⟨same,moved⟩ := fetch_section_cycling cycling range taken
    intro some_tasks
    rw [same] at some_tasks ⊢
    rw [(moved some_tasks).1]
    exact Nat.mod_lt _ (List.length_pos_of_ne_nil some_tasks)
  | remove_task comparator =>
    cases taken
    unfold remove_task
    split
    · intro some_tasks
      have positive := List.length_pos_of_ne_nil some_tasks
      exact Nat.sub_lt positive Nat.one_pos
    · exact List.length_pos_of_ne_nil
  | clear_task =>
    cases taken
    exact fun some_tasks => (some_tasks rfl).elim
  | _ => exact apart (step_apart taken trivial)

-- As long as the list stays as it is, the workers get its tasks in turn, whichever of
-- them fetches: each once in every round.
theorem cycled_in_rounds (cycling : cfg.get_task_cycling = true) (before : Run (Step cfg) initial earlier s)
    (some_tasks : s.task_list ≠ []) (run : Run (Step cfg) s later t) (quiet : Meets (Quiet cfg) later) :
    t.task_list = s.task_list ∧ later.flatMap (dequeued cfg) = rounds s.queue s.cur_index (later.countP fetches) := by
  have start : InRange (initial : State Adder Worker Task) := fun some_tasks => (some_tasks rfl).elim
  have range := (before.invariant start fun range taken => step_in_range cycling range taken).1
  have queued : s.queue ≠ [] := by simpa [State.queue] using some_tasks
  have length : s.queue.length = s.task_list.length := List.length_map _
  suffices turns : t.task_list = s.task_list ∧ t.cur_index = (s.cur_index + later.countP fetches) % s.task_list.length ∧
      later.flatMap (dequeued cfg) = rounds s.queue s.cur_index (later.countP fetches) from ⟨turns.1,turns.2.2⟩
  induction run with
  | nil => exact ⟨rfl,(Nat.mod_eq_of_lt (range some_tasks)).symm,(rounds_zero _ _).symm⟩
  | @snoc moves u action next prior taken ih =>
    obtain ⟨calm,here⟩ := meets_snoc.mp quiet
    obtain ⟨same,cursor,handed⟩ := ih calm
    have ranged := (prior.invariant range fun range taken => step_in_range cycling range taken).1
    rw [List.flatMap_append,List.countP_append,handed]
    have apart (other : next.task_list = u.task_list ∧ next.cur_index = u.cur_index)
        (nothing : dequeued cfg ⟨u,action,next⟩ = []) (none : fetches ⟨u,action,next⟩ = false) :
        next.task_list = s.task_list ∧
          next.cur_index = (s.cur_index + (moves.countP fetches + [(⟨u,action,next⟩ : Move _ _)].countP fetches)) %
            s.task_list.length ∧
          rounds s.queue s.cur_index (moves.countP fetches) ++ [(⟨u,action,next⟩ : Move _ _)].flatMap (dequeued cfg) =
            rounds s.queue s.cur_index (moves.countP fetches + [(⟨u,action,next⟩ : Move _ _)].countP fetches) := by
      simp [nothing,none,other.1,other.2,same,cursor]
    cases action with
    | add_section a task block =>
      refine apart ?_ (by simp [dequeued]) rfl
      rw [add_section_cycling cycling taken]
      obtain ⟨b,added,_⟩ | ⟨_,pool,after⟩ := add_task_cases cfg u task block
      · simp [Quiet,added] at here
      · rw [after]
        exact ⟨rfl,rfl⟩
    | fetch_section w =>
      obtain ⟨kept,moved⟩ := fetch_section_cycling cycling ranged taken
      obtain ⟨turned,fetched⟩ := moved (by rwa [same])
      have one : [(⟨u,.fetch_section w,next⟩ : Move (State Adder Worker Task) (Action Adder Worker Task))].countP fetches = 1 := rfl
      have queue : u.queue = s.queue := by simp [State.queue,same]
      rw [one,List.flatMap_singleton,fetched,rounds_succ queued,length,queue,cursor,kept,turned,same,cursor]
      refine ⟨rfl,?_,rfl⟩
      rw [Nat.mod_add_mod,Nat.add_assoc]
    | remove_task comparator => exact here.elim
    | clear_task => exact here.elim
    | _ => exact apart (step_apart taken trivial) rfl rfl

end

-- Two tasks, and two workers that fetch in turns.
def filling : List (Action Unit Bool Nat) := [.add_section () 7 (some 0),.add_section () 8 (some 1)]

def working : List (Action Unit Bool Nat) :=
  [.semaphore_wait true,.semaphore_wait false,.fetch_section true,.fetch_section false,.run_task true,.semaphore_wait true,
   .fetch_section true]

def filled : State Unit Bool Nat := ⟨[⟨1,8⟩,⟨0,7⟩],0,insert 1 (insert 0 ∅),0,fun _ => .free,fun _ => .idle⟩

theorem taken_in_turns : ∃ earlier later t, Run (Step ⟨2,true⟩) (initial : State Unit Bool Nat) earlier filled ∧
    Run (Step ⟨2,true⟩) filled later t ∧ later.map Move.action = working ∧ later.flatMap (dequeued ⟨2,true⟩) = [8,7,8] := by
  obtain ⟨before,_⟩ : Run (Step ⟨2,true⟩) (initial : State Unit Bool Nat) _ filled ∧ _ :=
    Run.of_execute (advance ⟨2,true⟩) initial filling rfl
  obtain ⟨later,t,run,same,checked⟩ := Run.of_check (advance ⟨2,true⟩) filled working
    (fun result => decide (Meets (Quiet ⟨2,true⟩) result.1 ∧ result.1.countP fetches = 3)) (by decide +kernel)
  obtain ⟨quiet,three⟩ := of_decide_eq_true checked
  have turns := (cycled_in_rounds rfl before (List.cons_ne_nil _ _) run quiet).2
  rw [three] at turns
  exact ⟨_,later,t,before,run,same,turns⟩

end Libcplus.TaskPool
