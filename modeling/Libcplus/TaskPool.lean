import Mathlib.Data.Finset.Basic
import Mathlib.Data.List.Perm.Basic
import Libcplus.Transition

namespace Libcplus.TaskPool
open Transition

def MAX_TASK_COUNT : Nat := 255
def SEMAPHORE_MAX_VALUE : Nat := 32767

structure Config where
  max_task_count : Nat
  get_task_cycling : Bool

-- A list node: the block of task_pool it points to and the task copied there.
structure Entry (Task : Type) where
  block : Nat
  task : Task
  deriving DecidableEq

-- Inside cplus_taskpool_add_task_ex between the section and the semaphore push.
inductive AdderPc where
  | free
  | pushed
  deriving DecidableEq

-- task_worker: before the wait, past it but not yet in the section, and running
-- the copied task (none when the list was empty and task_t.proc stays NULL).
inductive WorkerPc (Task : Type) where
  | idle
  | waited
  | running (task_t : Option Task)
  deriving DecidableEq

-- task_list is kept head first; remain_taskpool is the semaphore's value and
-- cur_index the list's cursor, which only the cycling fetch reads.
structure State (Adder Worker Task : Type) where
  task_list : List (Entry Task)
  cur_index : Nat
  task_pool : Finset Nat
  remain_taskpool : Nat
  adder : Adder → AdderPc
  worker : Worker → WorkerPc Task

inductive Action (Adder Worker Task : Type) where
  | add_section (a : Adder) (task : Task) (block : Option Nat)
  | semaphore_push (a : Adder)
  | semaphore_wait (w : Worker)
  | wait_timeout (w : Worker)
  | fetch_section (w : Worker)
  | run_task (w : Worker)
  | remove_task (comparator : Task → Bool)
  | clear_task

section
variable {Adder Worker Task : Type}

def initial : State Adder Worker Task :=
  ⟨[],0,∅,0,fun _ => .free,fun _ => .idle⟩

variable (cfg : Config)

-- cplus_mempool_alloc hands out some free block, or NULL when all are live.
def allocates (s : State Adder Worker Task) : Option Nat → Bool
  | some b => b ∉ s.task_pool ∧ b < cfg.max_task_count
  | none => cfg.max_task_count ≤ s.task_pool.card

-- The section of cplus_taskpool_add_task_ex. The flag is res = CPLUS_SUCCESS;
-- the list has max_task_count nodes of its own, so the push can fail as well.
def add_task (s : State Adder Worker Task) (task : Task) (block : Option Nat) :
    Bool × State Adder Worker Task :=
  if s.task_list.length < MAX_TASK_COUNT then
    match block with
    | none => (false,s)
    | some b =>
      let s := {s with task_pool := insert b s.task_pool}
      if s.task_list.length < cfg.max_task_count then
        (true,{s with task_list := ⟨b,task⟩ :: s.task_list,cur_index := 0})
      else (false,s)
  else (false,s)

-- cplus_llist_pop_back, or cplus_llist_get_cycling_next which leaves the entry
-- in the list and moves the cursor, back to the head after the last node.
def fetch_task (s : State Adder Worker Task) : Option (Entry Task) × State Adder Worker Task :=
  if cfg.get_task_cycling then
    (s.task_list[s.cur_index]?,
      {s with cur_index := if s.cur_index + 1 < s.task_list.length then s.cur_index + 1 else 0})
  else
    match s.task_list.getLast? with
    | none => (none,s)
    | some entry => (some entry,{s with
        task_list := s.task_list.dropLast
        cur_index := 0
        task_pool := s.task_pool.erase entry.block})

-- cplus_llist_pop_if takes the first entry the comparator accepts; a search that
-- finds none leaves the cursor on the last node.
def remove_task (s : State Adder Worker Task) (comparator : Task → Bool) :
    Option (Entry Task) × State Adder Worker Task :=
  match s.task_list.find? (comparator ∘ Entry.task) with
  | none => (none,{s with cur_index := s.task_list.length - 1})
  | some entry => (some entry,{s with
      task_list := s.task_list.eraseP (comparator ∘ Entry.task)
      cur_index := 0
      task_pool := s.task_pool.erase entry.block})

def clear_task (s : State Adder Worker Task) : State Adder Worker Task :=
  {s with
    task_list := []
    cur_index := 0
    task_pool := s.task_pool \ (s.task_list.map Entry.block).toFinset}

-- cplus_semaphore_push(sema, 1) refuses when no room is left below the maximum.
def semaphore_push (value : Nat) : Nat :=
  if SEMAPHORE_MAX_VALUE - value < 1 then value else value + 1

def advance [DecidableEq Adder] [DecidableEq Worker] (s : State Adder Worker Task) :
    Action Adder Worker Task → Option (State Adder Worker Task)
  | .add_section a task block =>
    if s.adder a = .free ∧ allocates cfg s block then
      let (res,s) := add_task cfg s task block
      if cfg.get_task_cycling = false ∧ res = true then
        some {s with adder := Function.update s.adder a .pushed}
      else some s
    else none
  | .semaphore_push a =>
    if s.adder a = .pushed then
      some {s with
        remain_taskpool := semaphore_push s.remain_taskpool
        adder := Function.update s.adder a .free}
    else none
  | .semaphore_wait w =>
    match s.worker w with
    | .idle =>
      if cfg.get_task_cycling then some {s with worker := Function.update s.worker w .waited}
      else if 0 < s.remain_taskpool then
        some {s with
          remain_taskpool := s.remain_taskpool - 1
          worker := Function.update s.worker w .waited}
      else none
    | _ => none
  | .wait_timeout w =>
    match s.worker w with
    | .idle => if cfg.get_task_cycling then none else some s
    | _ => none
  | .fetch_section w =>
    match s.worker w with
    | .waited =>
      if 0 < s.task_list.length then
        match fetch_task cfg s with
        | (none,s) => some {s with worker := Function.update s.worker w .idle}
        | (some entry,s) =>
          some {s with worker := Function.update s.worker w (.running (some entry.task))}
      else some {s with worker := Function.update s.worker w (.running none)}
    | _ => none
  | .run_task w =>
    match s.worker w with
    | .running _ => some {s with worker := Function.update s.worker w .idle}
    | _ => none
  | .remove_task comparator => some (remove_task s comparator).2
  | .clear_task => some (clear_task s)

abbrev Step [DecidableEq Adder] [DecidableEq Worker] :
    State Adder Worker Task → Action Adder Worker Task → State Adder Worker Task → Prop :=
  Follows (advance cfg)

def State.queue (s : State Adder Worker Task) : List Task := s.task_list.map Entry.task

-- What one step adds to the queue, hands to a worker, and throws away.
def added (m : Move (State Adder Worker Task) (Action Adder Worker Task)) : List Task :=
  match m.action with
  | .add_section _ task block => if (add_task cfg m.before task block).1 then [task] else []
  | _ => []

def dequeued (m : Move (State Adder Worker Task) (Action Adder Worker Task)) : List Task :=
  match m.action with
  | .fetch_section _ => ((fetch_task cfg m.before).1.map Entry.task).toList
  | _ => []

def dropped (m : Move (State Adder Worker Task) (Action Adder Worker Task)) : List Task :=
  match m.action with
  | .remove_task comparator => ((remove_task m.before comparator).1.map Entry.task).toList
  | .clear_task => m.before.queue
  | _ => []

def WorkerPc.isWaited : WorkerPc Task → Bool
  | .waited => true
  | _ => false

@[simp] theorem isWaited_idle : (WorkerPc.idle : WorkerPc Task).isWaited = false := rfl
@[simp] theorem isWaited_waited : (WorkerPc.waited : WorkerPc Task).isWaited = true := rfl
@[simp] theorem isWaited_running (task_t : Option Task) : (WorkerPc.running task_t).isWaited = false :=
  rfl

def pushedAdders [Fintype Adder] (s : State Adder Worker Task) : Nat :=
  count (fun pc => pc = .pushed) s.adder
def waitedWorkers [Fintype Worker] (s : State Adder Worker Task) : Nat :=
  count (fun pc => pc.isWaited = true) s.worker

-- Every queued task has a token in the semaphore, one an adder is about to post,
-- or one taken by a worker that has not reached the list yet.
def Covered [Fintype Adder] [Fintype Worker] (s : State Adder Worker Task) : Prop :=
  s.task_list.length ≤ s.remain_taskpool + pushedAdders s + waitedWorkers s

-- The semaphore stays below its maximum: no push is refused.
def Room (s : State Adder Worker Task) : Action Adder Worker Task → Prop
  | .semaphore_push _ => s.remain_taskpool < SEMAPHORE_MAX_VALUE
  | _ => True

variable {cfg : Config} {s : State Adder Worker Task} {comparator : Task → Bool}

-- No queued task is left with every worker asleep on an empty semaphore.
theorem Covered.awake [Fintype Adder] [Fintype Worker] (covered : Covered s) (queued : s.task_list ≠ [])
    (posted : ∀ a, s.adder a ≠ .pushed) (asleep : ∀ w, (s.worker w).isWaited = false) :
    0 < s.remain_taskpool := by
  have pending : pushedAdders s = 0 := count_eq_zero _ posted
  have waking : waitedWorkers s = 0 := count_eq_zero _ fun w => by simp [asleep w]
  have length := List.length_pos_of_ne_nil queued
  unfold Covered at covered
  omega

theorem add_task_cases (cfg : Config) (s : State Adder Worker Task) (task : Task) (block : Option Nat) :
    (∃ b, (add_task cfg s task block).1 = true ∧ (add_task cfg s task block).2 =
      {s with task_list := ⟨b,task⟩ :: s.task_list,cur_index := 0,task_pool := insert b s.task_pool}) ∨
    ((add_task cfg s task block).1 = false ∧
      ∃ pool, (add_task cfg s task block).2 = {s with task_pool := pool}) := by
  unfold add_task
  split
  · cases block with
    | none => exact .inr ⟨rfl,_,rfl⟩
    | some b =>
      simp only
      split
      · exact .inl ⟨b,rfl,rfl⟩
      · exact .inr ⟨rfl,_,rfl⟩
  · exact .inr ⟨rfl,_,rfl⟩

theorem fetch_task_cases (noncycling : cfg.get_task_cycling = false) :
    (s.task_list = [] ∧ fetch_task cfg s = (none,s)) ∨
    ∃ front entry, s.task_list = front ++ [entry] ∧ fetch_task cfg s =
      (some entry,{s with
        task_list := front,cur_index := 0,task_pool := s.task_pool.erase entry.block}) := by
  unfold fetch_task
  rcases List.eq_nil_or_concat s.task_list with empty | ⟨front,entry,split⟩
  · exact .inl ⟨empty,by simp [noncycling,empty]⟩
  · rw [List.concat_eq_append] at split
    exact .inr ⟨front,entry,split,by simp [noncycling,split]⟩

theorem remove_task_cases (s : State Adder Worker Task) (comparator : Task → Bool) :
    ((remove_task s comparator).1 = none ∧
      (remove_task s comparator).2.task_list = s.task_list) ∨
    ∃ front entry rest, s.task_list = front ++ entry :: rest ∧
      (remove_task s comparator).1 = some entry ∧
      (remove_task s comparator).2.task_list = front ++ rest := by
  unfold remove_task
  cases found : s.task_list.find? (comparator ∘ Entry.task) with
  | none => exact .inl ⟨rfl,rfl⟩
  | some entry =>
    obtain ⟨accepted,front,rest,split,refused⟩ := List.find?_eq_some_iff_append.mp found
    refine .inr ⟨front,entry,rest,split,rfl,?_⟩
    have passed : ∀ e ∈ front, ¬ (comparator ∘ Entry.task) e = true := fun e member => by
      simpa using refused e member
    simp only [split]
    rw [List.eraseP_append_right _ (by simpa using passed),List.eraseP_cons_of_pos accepted]

end

section
variable {Adder Worker Task : Type} [DecidableEq Adder] [DecidableEq Worker]
variable {cfg : Config} {s next : State Adder Worker Task} {action : Action Adder Worker Task}

theorem add_section_parts (noncycling : cfg.get_task_cycling = false)
    (taken : Step cfg s (.add_section a task block) next) :
    s.adder a = .free ∧ next = {(add_task cfg s task block).2 with
        adder := if (add_task cfg s task block).1 then Function.update s.adder a .pushed
          else s.adder} := by
  simp only [Step,Follows,advance] at taken
  split at taken
  · rename_i guard
    refine ⟨guard.1,?_⟩
    obtain ⟨b,res,after⟩ | ⟨res,pool,after⟩ := add_task_cases cfg s task block
    · simpa [res,after,noncycling] using taken.symm
    · simpa [res,after,noncycling] using taken.symm
  · cases taken

theorem semaphore_push_parts (taken : Step cfg s (.semaphore_push a) next) :
    s.adder a = .pushed ∧ next = {s with
      remain_taskpool := semaphore_push s.remain_taskpool
      adder := Function.update s.adder a .free} := by
  simp only [Step,Follows,advance] at taken
  split at taken
  · rename_i guard; cases taken; exact ⟨guard,rfl⟩
  · cases taken

theorem semaphore_wait_parts (noncycling : cfg.get_task_cycling = false)
    (taken : Step cfg s (.semaphore_wait w) next) :
    s.worker w = .idle ∧ 0 < s.remain_taskpool ∧ next = {s with
      remain_taskpool := s.remain_taskpool - 1
      worker := Function.update s.worker w .waited} := by
  simp only [Step,Follows,advance,noncycling,Bool.false_eq_true,if_false] at taken
  split at taken
  · rename_i guard
    split at taken
    · rename_i token; cases taken; exact ⟨guard,token,rfl⟩
    · cases taken
  · cases taken

theorem fetch_section_parts (noncycling : cfg.get_task_cycling = false)
    (taken : Step cfg s (.fetch_section w) next) :
    s.worker w = .waited ∧
      ((s.task_list = [] ∧ next = {s with worker := Function.update s.worker w (.running none)}) ∨
       ∃ front entry, s.task_list = front ++ [entry] ∧ next = {s with
          task_list := front
          cur_index := 0
          task_pool := s.task_pool.erase entry.block
          worker := Function.update s.worker w (.running (some entry.task))}) := by
  simp only [Step,Follows,advance] at taken
  split at taken
  · rename_i guard
    refine ⟨guard,?_⟩
    obtain ⟨empty,fetched⟩ | ⟨front,entry,split,fetched⟩ := fetch_task_cases (s := s) noncycling
    · have none_left : ¬ 0 < s.task_list.length := by simp [empty]
      rw [if_neg none_left] at taken
      exact .inl ⟨empty,(Option.some.inj taken).symm⟩
    · refine .inr ⟨front,entry,split,?_⟩
      have nonempty : 0 < s.task_list.length := by simp [split]
      simp only [fetched,nonempty,if_true] at taken
      exact (Option.some.inj taken).symm
  · cases taken

theorem run_task_parts (taken : Step cfg s (.run_task w) next) :
    (∃ task_t, s.worker w = .running task_t) ∧
      next = {s with worker := Function.update s.worker w .idle} := by
  simp only [Step,Follows,advance] at taken
  split at taken
  · rename_i task_t guard; cases taken; exact ⟨⟨task_t,guard⟩,rfl⟩
  · cases taken

theorem wait_timeout_parts (taken : Step cfg s (.wait_timeout w) next) : next = s := by
  simp only [Step,Follows,advance] at taken
  split at taken
  · split at taken
    · cases taken
    · cases taken; rfl
  · cases taken

-- The queue is first in, first out, and loses a task only to a fetch, a removal
-- or a clear.
theorem step_queue (noncycling : cfg.get_task_cycling = false) (taken : Step cfg s action next) :
    (dequeued cfg ⟨s,action,next⟩ ++ next.queue.reverse).Sublist
      (s.queue.reverse ++ added cfg ⟨s,action,next⟩) ∧
    (s.queue ++ added cfg ⟨s,action,next⟩).Perm
      (dequeued cfg ⟨s,action,next⟩ ++ dropped ⟨s,action,next⟩ ++ next.queue) := by
  cases action with
  | add_section a task block =>
    obtain ⟨_,rfl⟩ := add_section_parts noncycling taken
    simp only [added,dequeued,dropped,List.nil_append]
    obtain ⟨b,res,after⟩ | ⟨res,pool,after⟩ := add_task_cases cfg s task block
    · simp only [res,after,State.queue,if_true,List.map_cons,List.reverse_cons]
      exact ⟨List.Sublist.refl _,List.perm_append_singleton _ _⟩
    · simp only [res,after,State.queue,Bool.false_eq_true,if_false,List.append_nil]
      exact ⟨List.Sublist.refl _,List.Perm.refl _⟩
  | semaphore_push a =>
    obtain ⟨_,rfl⟩ := semaphore_push_parts taken
    simp [added,dequeued,dropped,State.queue]
  | semaphore_wait w =>
    obtain ⟨_,_,rfl⟩ := semaphore_wait_parts noncycling taken
    simp [added,dequeued,dropped,State.queue]
  | wait_timeout w =>
    obtain rfl := wait_timeout_parts taken
    simp [added,dequeued,dropped]
  | run_task w =>
    obtain ⟨_,rfl⟩ := run_task_parts taken
    simp [added,dequeued,dropped,State.queue]
  | fetch_section w =>
    obtain ⟨_,⟨empty,rfl⟩ | ⟨front,entry,split,rfl⟩⟩ := fetch_section_parts noncycling taken
    · simp [added,dequeued,dropped,State.queue,fetch_task,noncycling,empty]
    · have oldest : s.queue = front.map Entry.task ++ [entry.task] := by simp [State.queue,split]
      have fetched : (fetch_task cfg s).1 = some entry := by simp [fetch_task,noncycling,split]
      rw [oldest]
      simp only [added,dequeued,dropped,fetched,Option.map_some,Option.toList_some,State.queue,List.append_nil,List.reverse_append,List.reverse_singleton]
      exact ⟨List.Sublist.refl _,List.perm_append_comm⟩
  | remove_task comparator =>
    obtain rfl : (remove_task s comparator).2 = next := by simpa [Step,Follows,advance] using taken
    simp only [added,dequeued,dropped,State.queue,List.append_nil,List.nil_append]
    obtain ⟨res,same⟩ | ⟨front,entry,rest,split,res,after⟩ := remove_task_cases s comparator
    · simp [res,same]
    · simp only [res,after,split,List.map_append,List.map_cons,List.reverse_append,
        List.reverse_cons,Option.map_some,Option.toList_some,List.singleton_append]
      refine ⟨?_,List.perm_middle⟩
      exact List.Sublist.append (List.sublist_append_left _ _) (List.Sublist.refl _)
  | clear_task =>
    obtain rfl : clear_task s = next := by simpa [Step,Follows,advance] using taken
    simp [added,dequeued,dropped,State.queue,clear_task]

theorem run_order (noncycling : cfg.get_task_cycling = false)
    {moves : List (Move (State Adder Worker Task) (Action Adder Worker Task))}
    (run : Run (Step cfg) initial moves s) :
    (moves.flatMap (dequeued cfg) ++ s.queue.reverse).Sublist (moves.flatMap (added cfg)) := by
  induction run with
  | nil => simp [initial,State.queue]
  | @snoc moves s action next prior taken ih =>
    obtain ⟨order,_⟩ := step_queue noncycling taken
    simp only [List.flatMap_append,List.flatMap_singleton]
    rw [List.append_assoc]
    refine (List.Sublist.append (List.Sublist.refl _) order).trans ?_
    rw [← List.append_assoc]
    exact List.Sublist.append ih (List.Sublist.refl _)

theorem run_balance (noncycling : cfg.get_task_cycling = false)
    {moves : List (Move (State Adder Worker Task) (Action Adder Worker Task))}
    (run : Run (Step cfg) initial moves s) :
    (moves.flatMap (added cfg)).Perm
      (moves.flatMap (dequeued cfg) ++ moves.flatMap dropped ++ s.queue) := by
  induction run with
  | nil => simp [initial,State.queue]
  | @snoc moves s action next prior taken ih =>
    obtain ⟨_,balance⟩ := step_queue noncycling taken
    have grown := ih.append_right (added cfg ⟨s,action,next⟩)
    rw [List.append_assoc] at grown
    have moved := grown.trans (balance.append_left _)
    simp only [List.flatMap_append,List.flatMap_singleton]
    refine moved.trans ?_
    simp only [List.append_assoc]
    exact List.Perm.append_left _ (List.perm_append_comm_assoc _ _ _)

variable [Fintype Adder] [Fintype Worker]

theorem step_covered (noncycling : cfg.get_task_cycling = false) (covered : Covered s)
    (taken : Step cfg s action next) (room : Room s action) : Covered next := by
  unfold Covered at *
  cases action with
  | add_section a task block =>
    obtain ⟨free,rfl⟩ := add_section_parts noncycling taken
    obtain ⟨b,res,after⟩ | ⟨res,pool,after⟩ := add_task_cases cfg s task block
    · have moved := count_update (fun pc => pc = AdderPc.pushed) s.adder a .pushed
      simp only [free,reduceCtorEq,if_false,if_true] at moved
      simp only [res,after,if_true,List.length_cons,pushedAdders,waitedWorkers] at covered ⊢
      omega
    · simpa [res,after,pushedAdders,waitedWorkers] using covered
  | semaphore_push a =>
    obtain ⟨pushed,rfl⟩ := semaphore_push_parts taken
    have moved := count_update (fun pc => pc = AdderPc.pushed) s.adder a .free
    simp only [pushed,reduceCtorEq,if_false,if_true] at moved
    have posted : semaphore_push s.remain_taskpool = s.remain_taskpool + 1 := by
      unfold semaphore_push
      rw [if_neg]
      have below : s.remain_taskpool < SEMAPHORE_MAX_VALUE := room
      omega
    simp only [posted,pushedAdders,waitedWorkers] at covered ⊢
    omega
  | semaphore_wait w =>
    obtain ⟨idle,token,rfl⟩ := semaphore_wait_parts noncycling taken
    have moved := count_update (fun pc : WorkerPc Task => pc.isWaited = true) s.worker w .waited
    simp only [idle,isWaited_idle,isWaited_waited,Bool.false_eq_true,if_false,if_true] at moved
    simp only [pushedAdders,waitedWorkers] at covered ⊢
    omega
  | wait_timeout w =>
    obtain rfl := wait_timeout_parts taken
    exact covered
  | fetch_section w =>
    obtain ⟨waited,⟨empty,rfl⟩ | ⟨front,entry,split,rfl⟩⟩ := fetch_section_parts noncycling taken
    · simp [empty]
    · have moved := count_update (fun pc : WorkerPc Task => pc.isWaited = true) s.worker w
        (.running (some entry.task))
      simp only [waited,isWaited_waited,isWaited_running,Bool.false_eq_true,if_false,if_true] at moved
      simp only [split,List.length_append,List.length_singleton,pushedAdders,waitedWorkers]
        at covered ⊢
      omega
  | run_task w =>
    obtain ⟨⟨task_t,running⟩,rfl⟩ := run_task_parts taken
    have moved := count_update (fun pc : WorkerPc Task => pc.isWaited = true) s.worker w .idle
    simp only [running,isWaited_idle,isWaited_running,Bool.false_eq_true,if_false] at moved
    simp only [pushedAdders,waitedWorkers] at covered ⊢
    omega
  | remove_task comparator =>
    obtain rfl : (remove_task s comparator).2 = next := by simpa [Step,Follows,advance] using taken
    have frame : (remove_task s comparator).2.remain_taskpool = s.remain_taskpool ∧
        (remove_task s comparator).2.adder = s.adder ∧
        (remove_task s comparator).2.worker = s.worker := by
      unfold remove_task
      split <;> exact ⟨rfl,rfl,rfl⟩
    simp only [pushedAdders,waitedWorkers,frame] at covered ⊢
    refine Nat.le_trans ?_ covered
    obtain ⟨_,same⟩ | ⟨front,entry,rest,split,_,after⟩ := remove_task_cases s comparator
    · rw [same]
    · rw [after,split]
      simp
  | clear_task =>
    obtain rfl : clear_task s = next := by simpa [Step,Follows,advance] using taken
    simp [clear_task]

theorem delivery (noncycling : cfg.get_task_cycling = false)
    {moves : List (Move (State Adder Worker Task) (Action Adder Worker Task))}
    (run : Run (Step cfg) initial moves s) (room : Meets Room moves) :
    (Covered s ∧ Throughout Covered moves) ∧
    (s.task_list ≠ [] → (∀ a, s.adder a ≠ .pushed) → (∀ w, (s.worker w).isWaited = false) →
      0 < s.remain_taskpool) ∧
    (moves.flatMap (dequeued cfg) ++ s.queue.reverse).Sublist (moves.flatMap (added cfg)) ∧
    (moves.flatMap (added cfg)).Perm
      (moves.flatMap (dequeued cfg) ++ moves.flatMap dropped ++ s.queue) := by
  have start : Covered (initial : State Adder Worker Task) := by simp [Covered,initial]
  have covered := run.keeps Room start
    (fun valid taken room => step_covered noncycling valid taken room) room
  exact ⟨covered,covered.1.awake,run_order noncycling run,run_balance noncycling run⟩

end

-- Two adders and two workers. A task is removed when both workers have woken up for one,
-- so that a token is left over, and the worker that takes it finds nothing.
def deliveries : List (Action Bool Bool Nat) :=
  [.add_section true 7 (some 0),.add_section false 8 (some 1),.semaphore_push false,.semaphore_push true,
   .semaphore_wait true,.semaphore_wait false,.remove_task (· == 8),.fetch_section true,
   .add_section false 9 (some 1),.semaphore_push false,.fetch_section false,.run_task true,.run_task false,
   .semaphore_wait true,.fetch_section true,.add_section true 10 (some 0),.semaphore_push true]

theorem two_tasks_delivered :
    let cfg : Config := ⟨3,false⟩
    ∃ moves, ∃ s : State Bool Bool Nat, Run (Step cfg) initial moves s ∧ moves.map Move.action = deliveries ∧
      moves.flatMap (dequeued cfg) = [7,9] ∧ moves.flatMap dropped = [8] ∧ s.queue = [10] ∧
      (Covered s ∧ Throughout Covered moves) ∧ 0 < s.remain_taskpool ∧
      (moves.flatMap (dequeued cfg) ++ s.queue.reverse).Sublist (moves.flatMap (added cfg)) ∧
      (moves.flatMap (added cfg)).Perm (moves.flatMap (dequeued cfg) ++ moves.flatMap dropped ++ s.queue) := by
  intro cfg
  obtain ⟨moves,s,run,same,checked⟩ := Run.of_check (advance cfg) (initial : State Bool Bool Nat) deliveries
    (fun result => decide ((∀ m ∈ result.1, m.before.remain_taskpool < SEMAPHORE_MAX_VALUE) ∧
      result.1.flatMap (dequeued cfg) = [7,9] ∧ result.1.flatMap dropped = [8] ∧ result.2.queue = [10] ∧
      (∀ a, result.2.adder a ≠ .pushed) ∧ ∀ w, (result.2.worker w).isWaited = false)) (by decide +kernel)
  obtain ⟨below,taken,thrown,queued,posted,asleep⟩ := of_decide_eq_true checked
  have room : Meets Room moves := by
    intro m member
    unfold Room
    split
    · exact below m member
    · trivial
  have nonempty : s.task_list ≠ [] := by
    intro empty
    simp [State.queue,empty] at queued
  obtain ⟨covered,awake,order,balance⟩ := delivery rfl run room
  exact ⟨moves,s,run,same,taken,thrown,queued,covered,awake nonempty posted asleep,order,balance⟩

end Libcplus.TaskPool
