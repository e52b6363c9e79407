import Mathlib.Data.Finset.Range
import Libcplus.BlockPool
import Libcplus.Sequence
import Libcplus.TaskPool

-- The task pool again, with each call on the list and on the block pool a step of its own.
namespace Libcplus.TaskBlocks
open Transition BlockPool TaskPool

-- A node of task_list: its block in the list's own pool, and the block of task_pool
-- it points to, with the task copied there.
structure Node (Task : Type) where
  node : Nat
  block : Nat
  task : Task
  deriving DecidableEq

inductive Request (Task : Type) where
  | add_task (task : Task)
  | remove_task (comparator : Task → Bool)
  | clear_task
  | task_worker

-- The answer of cplus_taskpool_add_task_ex, with the size it read first.
structure Added where
  task_count : Nat
  res : Bool
  deriving DecidableEq

-- Where the thread inside the section stands.
inductive Inside (Task : Type) where
  | entered (request : Request Task)
  | pushing (task : Task) (task_count t : Nat)
  | freeing (task : Nat) (request : Request Task)
  | leaving (answer : Option Added)

-- What the section protects: the list, and which blocks of the two pools are live.
structure Guarded (Task : Type) where
  task_list : Sequence (Node Task)
  node_pool : Finset Nat
  task_pool : Finset Nat

-- Between calls, in one but not in the section yet, in the section, or past it and
-- about to post the semaphore.
inductive Pc (Task : Type) where
  | idle
  | called (request : Request Task)
  | inside
  | posting

structure State (Thread Task : Type) where
  guarded : Guarded Task
  task_access_sect : Option (Thread × Inside Task)
  remain_taskpool : Nat
  pc : Thread → Pc Task

inductive Work where
  | alloc (t : Option Nat)
  | push_front (node : Option Nat)
  | take
  | free

inductive Action (Thread Task : Type) where
  | call (t : Thread) (request : Request Task)
  | enter (t : Thread)
  | work (t : Thread) (work : Work)
  | exit (t : Thread)
  | post (t : Thread)

section
variable {Thread Task : Type}

variable (cfg : Config)

abbrev blocks : Finset Nat := Finset.range cfg.max_task_count

-- A pop gives the node back to the list's pool at once; the block is freed next.
def Guarded.pop (g : Guarded Task) (request : Request Task) (popped : Option (Node Task))
    (task_list : Sequence (Node Task)) : Guarded Task × Inside Task :=
  match popped with
  | none => ({g with task_list := task_list},.leaving none)
  | some n => ({g with task_list := task_list,node_pool := g.node_pool.erase n.node},
      .freeing n.block request)

def Guarded.pop_back (g : Guarded Task) (request : Request Task) : Guarded Task × Inside Task :=
  g.pop request g.task_list.items.getLast? (.start g.task_list.items.dropLast)

def Guarded.pop_if (g : Guarded Task) (comparator : Task → Bool) : Guarded Task × Inside Task :=
  g.pop (.remove_task comparator) (g.task_list.items.find? (comparator ∘ Node.task))
    (g.task_list.discard (comparator ∘ Node.task))

def work (g : Guarded Task) : Inside Task → Work → Option (Guarded Task × Inside Task)
  | .entered (.add_task task),.alloc t =>
    let task_count := g.task_list.items.length
    if MAX_TASK_COUNT > task_count then
      if Grants (blocks cfg) g.task_pool t then
        match t with
        | some t => some ({g with task_pool := insert t g.task_pool},.pushing task task_count t)
        | none => some (g,.leaving (some ⟨task_count,false⟩))
      else none
    else some (g,.leaving (some ⟨task_count,false⟩))
  -- The block t stays live when the push is refused.
  | .pushing task task_count t,.push_front node =>
    if Grants (blocks cfg) g.node_pool node then
      match node with
      | some node => some ({g with
          task_list := g.task_list.insert 0 ⟨node,t,task⟩
          node_pool := insert node g.node_pool},.leaving (some ⟨task_count,true⟩))
      | none => some (g,.leaving (some ⟨task_count,false⟩))
    else none
  | .entered .task_worker,.take =>
    if 0 < g.task_list.items.length then
      if cfg.get_task_cycling then some ({g with task_list := g.task_list.turn},.leaving none)
      else some (g.pop_back .task_worker)
    else some (g,.leaving none)
  | .entered (.remove_task comparator),.take => some (g.pop_if comparator)
  | .entered .clear_task,.take => some (g.pop_back .clear_task)
  | .freeing task request,.free =>
    some ({g with task_pool := g.task_pool.erase task},
      match request with
      | .clear_task => .entered .clear_task
      | _ => .leaving none)
  | _,_ => none

-- What a call waits for or checks before it enters the section.
def admits (s : State Thread Task) : Request Task → Bool
  | .remove_task _ => 0 < s.guarded.task_list.items.length
  | .task_worker => cfg.get_task_cycling || 0 < s.remain_taskpool
  | _ => true

def waited (s : State Thread Task) : Request Task → Nat
  | .task_worker => if cfg.get_task_cycling then s.remain_taskpool else s.remain_taskpool - 1
  | _ => s.remain_taskpool

def posts (answer : Option Added) : Bool := !cfg.get_task_cycling && answer.any Added.res

def advance [DecidableEq Thread] (s : State Thread Task) :
    Action Thread Task → Option (State Thread Task)
  | .call t request =>
    match s.pc t with
    | .idle =>
      if admits cfg s request then
        some {s with
          remain_taskpool := waited cfg s request
          pc := Function.update s.pc t (.called request)}
      else none
    | _ => none
  | .enter t =>
    match s.pc t,s.task_access_sect with
    | .called request,none => some {s with
        task_access_sect := some (t,.entered request)
        pc := Function.update s.pc t .inside}
    | _,_ => none
  | .work t step =>
    match s.task_access_sect with
    | some (u,inside) =>
      if u = t then
        (work cfg s.guarded inside step).map fun done =>
          {s with guarded := done.1,task_access_sect := some (t,done.2)}
      else none
    | none => none
  | .exit t =>
    match s.task_access_sect with
    | some (u,.leaving answer) =>
      if u = t then
        some {s with
          task_access_sect := none
          pc := Function.update s.pc t (if posts cfg answer then .posting else .idle)}
      else none
    | _ => none
  | .post t =>
    match s.pc t with
    | .posting => some {s with
        remain_taskpool := semaphore_push s.remain_taskpool
        pc := Function.update s.pc t .idle}
    | _ => none

abbrev Step [DecidableEq Thread] : State Thread Task → Action Thread Task → State Thread Task → Prop :=
  Follows (advance cfg)

-- The block a thread in the section holds, which is on neither list.
def carried : Option (Inside Task) → List Nat
  | some (.pushing _ _ t) => [t]
  | some (.freeing task _) => [task]
  | _ => []

def Agrees (g : Guarded Task) : Inside Task → Prop
  | .pushing _ task_count _ => task_count = g.task_list.items.length
  | .leaving (some answer) => (answer.res = false ↔ answer.task_count = cfg.max_task_count)
  | _ => True

structure Accounts (g : Guarded Task) (inside : Option (Inside Task)) : Prop where
  task_blocks : Balanced (blocks cfg) g.task_pool (carried inside ++ g.task_list.items.map Node.block)
  node_blocks : Balanced (blocks cfg) g.node_pool (g.task_list.items.map Node.node)
  agrees : ∀ i ∈ inside, Agrees cfg g i

def Invariant (s : State Thread Task) : Prop :=
  Accounts cfg s.guarded (s.task_access_sect.map Prod.snd)

-- What the clients see: nothing is leaked or freed twice, and an add fails when the
-- list is full only.
structure Accounted (s : State Thread Task) : Prop where
  blocks : s.task_access_sect = none → (s.guarded.task_list.items.map Node.block).Nodup ∧
    s.guarded.task_pool = (s.guarded.task_list.items.map Node.block).toFinset
  frees : ∀ t task request, s.task_access_sect = some (t,.freeing task request) →
    task ∈ s.guarded.task_pool
  answers : ∀ t answer, s.task_access_sect = some (t,.leaving (some answer)) →
    (answer.res = false ↔ answer.task_count = cfg.max_task_count)

variable {cfg : Config} {g after : Guarded Task} {inside next : Inside Task}
  {request : Request Task} {popped : Option (Node Task)} {task_list : Sequence (Node Task)}

theorem length_le (accounts : Accounts cfg g (some inside)) :
    g.task_list.items.length ≤ cfg.max_task_count := by
  have bound := accounts.node_blocks.bound
  rwa [List.length_map,Finset.card_range] at bound

theorem Accounts.moved (accounts : Accounts cfg g (some inside)) (same : carried (some next) = carried (some inside))
    (agrees : Agrees cfg g next) : Accounts cfg g (some next) where
  task_blocks := same ▸ accounts.task_blocks
  node_blocks := accounts.node_blocks
  agrees _ member := Option.some.inj member ▸ agrees

-- A pop takes one node out of the list, or finds none and leaves the items there.
def Pops (s : Sequence (Node Task)) (popped : Option (Node Task)) (task_list : Sequence (Node Task)) : Prop :=
  (popped = none ∧ task_list.items = s.items) ∨
  ∃ n front rest, popped = some n ∧ s.items = front ++ n :: rest ∧ task_list.items = front ++ rest

theorem pop_back_pops (s : Sequence (Node Task)) : Pops s s.items.getLast? (.start s.items.dropLast) := by
  rcases List.eq_nil_or_concat s.items with empty | ⟨front,n,split⟩
  · exact .inl ⟨by rw [empty]; rfl,by rw [empty]; rfl⟩
  · rw [List.concat_eq_append] at split
    exact .inr ⟨n,front,[],by rw [split,List.getLast?_concat],split,by simp [split]⟩

theorem discard_pops (s : Sequence (Node Task)) (found : Node Task → Bool) :
    Pops s (s.items.find? found) (s.discard found) := by
  cases search : s.items.find? found with
  | none =>
    have absent : s.items.any found = false := by
      simpa [List.find?_eq_none] using search
    refine .inl ⟨rfl,?_⟩
    rw [Sequence.discard,if_neg (by simp [absent])]
    rfl
  | some n =>
    obtain ⟨accepted,front,rest,split,refused⟩ := List.find?_eq_some_iff_append.mp search
    have present : s.items.any found = true := by simp [split,accepted]
    refine .inr ⟨n,front,rest,rfl,split,?_⟩
    rw [Sequence.discard,if_pos present,Sequence.start_items,split]
    exact Sequence.eraseP_between (fun d member => by simpa using refused d member) accepted

theorem pop_keeps (accounts : Accounts cfg g (some inside)) (idle : carried (some inside) = [])
    (pops : Pops g.task_list popped task_list) (done : g.pop request popped task_list = (after,next)) :
    Accounts cfg after (some next) := by
  have task_blocks := accounts.task_blocks
  have node_blocks := accounts.node_blocks
  rw [idle,List.nil_append] at task_blocks
  rcases pops with ⟨rfl,same⟩ | ⟨n,front,rest,rfl,split,left⟩
  · cases done
    refine ⟨?_,?_,?_⟩
    · rw [← same] at task_blocks
      exact task_blocks
    · rw [← same] at node_blocks
      exact node_blocks
    · intro i member
      obtain rfl := Option.some.inj member
      trivial
  · cases done
    rw [split,List.map_append,List.map_cons] at task_blocks node_blocks
    refine ⟨?_,?_,?_⟩
    · apply task_blocks.perm
      simp only [carried,left,List.map_append,List.singleton_append]
      exact List.perm_middle
    · simp only [left,List.map_append]
      exact node_blocks.free_between
    · intro i member
      obtain rfl := Option.some.inj member
      trivial

theorem add_keeps {task : Task} {t : Option Nat} (valid : cfg.max_task_count ≤ MAX_TASK_COUNT)
    (accounts : Accounts cfg g (some (.entered (.add_task task))))
    (done : work cfg g (.entered (.add_task task)) (.alloc t) = some (after,next)) :
    Accounts cfg after (some next) := by
  have bound := length_le accounts
  have length : (g.task_list.items.map Node.block).length = g.task_list.items.length := List.length_map _
  have size : (blocks cfg).card = cfg.max_task_count := Finset.card_range _
  have task_blocks : Balanced (blocks cfg) g.task_pool (g.task_list.items.map Node.block) :=
    accounts.task_blocks
  simp only [work] at done
  split at done
  · split at done
    · rename_i granted
      cases t with
      | some t =>
        cases done
        refine ⟨task_blocks.alloc granted,accounts.node_blocks,?_⟩
        intro i member
        obtain rfl := Option.some.inj member
        rfl
      | none =>
        cases done
        refine accounts.moved (Eq.refl []) ?_
        have full := task_blocks.refused granted
        simp only [Agrees,true_iff]
        omega
    · cases done
  · cases done
    refine accounts.moved (Eq.refl []) ?_
    simp only [Agrees,true_iff]
    omega

-- The block taken for the task leaves a node free for it: the push succeeds.
theorem push_keeps {task : Task} {task_count t : Nat} {node : Option Nat}
    (accounts : Accounts cfg g (some (.pushing task task_count t)))
    (done : work cfg g (.pushing task task_count t) (.push_front node) = some (after,next)) :
    Accounts cfg after (some next) := by
  have size : (blocks cfg).card = cfg.max_task_count := Finset.card_range _
  have length : task_count = g.task_list.items.length := accounts.agrees _ rfl
  have room : task_count < cfg.max_task_count := by
    have bound := accounts.task_blocks.bound
    simp only [carried,List.length_append,List.length_singleton,List.length_map,size] at bound
    omega
  simp only [work] at done
  split at done
  · rename_i granted
    cases node with
    | some node =>
      cases done
      refine ⟨accounts.task_blocks,accounts.node_blocks.alloc granted,?_⟩
      intro i member
      obtain rfl := Option.some.inj member
      simp only [Agrees,Bool.true_eq_false,false_iff]
      omega
    | none =>
      have full := accounts.node_blocks.refused granted
      rw [List.length_map,size] at full
      omega
  · cases done

theorem take_keeps (accounts : Accounts cfg g (some (.entered request)))
    (done : work cfg g (.entered request) .take = some (after,next)) : Accounts cfg after (some next) := by
  cases request with
  | add_task task => cases done
  | remove_task comparator =>
    exact pop_keeps accounts rfl (discard_pops _ _) (Option.some.inj done)
  | clear_task =>
    exact pop_keeps accounts rfl (pop_back_pops _) (Option.some.inj done)
  | task_worker =>
    simp only [work] at done
    split at done
    · split at done
      · cases done
        refine ⟨?_,?_,?_⟩
        · rw [Sequence.turn_items]
          exact accounts.task_blocks
        · rw [Sequence.turn_items]
          exact accounts.node_blocks
        · intro i member
          obtain rfl := Option.some.inj member
          trivial
      · exact pop_keeps accounts rfl (pop_back_pops _) (Option.some.inj done)
    · cases done
      exact accounts.moved (Eq.refl []) trivial

theorem free_keeps {task : Nat} (accounts : Accounts cfg g (some (.freeing task request)))
    (done : work cfg g (.freeing task request) .free = some (after,next)) :
    Accounts cfg after (some next) := by
  simp only [work] at done
  cases done
  have freed : Balanced (blocks cfg) (g.task_pool.erase task) (g.task_list.items.map Node.block) :=
    accounts.task_blocks.free
  cases request <;>
  · refine ⟨freed,accounts.node_blocks,?_⟩
    intro i member
    obtain rfl := Option.some.inj member
    trivial

theorem work_keeps {step : Work} (valid : cfg.max_task_count ≤ MAX_TASK_COUNT)
    (accounts : Accounts cfg g (some inside)) (done : work cfg g inside step = some (after,next)) :
    Accounts cfg after (some next) := by
  cases step with
  | alloc t =>
    cases inside with
    | entered request =>
      cases request with
      | add_task task => exact add_keeps valid accounts done
      | _ => cases done
    | _ => cases done
  | push_front node =>
    cases inside with
    | pushing task task_count t => exact push_keeps accounts done
    | entered request => cases request <;> cases done
    | _ => cases done
  | take =>
    cases inside with
    | entered request => exact take_keeps accounts done
    | _ => cases done
  | free =>
    cases inside with
    | freeing task request => exact free_keeps accounts done
    | entered request => cases request <;> cases done
    | _ => cases done

variable [DecidableEq Thread] {s following : State Thread Task} {action : Action Thread Task}

-- Everything a step can do to what the section protects.
theorem step_parts (taken : Step cfg s action following) :
    (following.guarded = s.guarded ∧ following.task_access_sect = s.task_access_sect) ∨
    (following.guarded = s.guarded ∧ s.task_access_sect = none ∧
      ∃ t request, following.task_access_sect = some (t,.entered request)) ∨
    (following.guarded = s.guarded ∧ following.task_access_sect = none ∧
      ∃ t answer, s.task_access_sect = some (t,.leaving answer)) ∨
    ∃ t inside step next, s.task_access_sect = some (t,inside) ∧
      work cfg s.guarded inside step = some (following.guarded,next) ∧
      following.task_access_sect = some (t,next) := by
  simp only [Step,Follows] at taken
  cases action with
  | call t request =>
    left
    simp only [advance] at taken
    split at taken
    · split at taken
      · cases taken
        exact ⟨rfl,rfl⟩
      · cases taken
    · cases taken
  | enter t =>
    right; left
    simp only [advance] at taken
    split at taken
    · rename_i request called free
      cases taken
      exact ⟨rfl,free,t,request,rfl⟩
    · cases taken
  | work t step =>
    right; right; right
    simp only [advance] at taken
    split at taken
    · rename_i u inside held
      split at taken
      · rename_i same
        subst same
        obtain ⟨done,worked,rfl⟩ := Option.map_eq_some_iff.mp taken
        exact ⟨u,inside,step,done.2,held,worked,rfl⟩
      · cases taken
    · cases taken
  | exit t =>
    right; right; left
    simp only [advance] at taken
    split at taken
    · rename_i u answer held
      split at taken
      · cases taken
        exact ⟨rfl,rfl,u,answer,held⟩
      · cases taken
    · cases taken
  | post t =>
    left
    simp only [advance] at taken
    split at taken
    · cases taken
      exact ⟨rfl,rfl⟩
    · cases taken

theorem step_keeps (valid : cfg.max_task_count ≤ MAX_TASK_COUNT) (held : Invariant cfg s)
    (taken : Step cfg s action following) : Invariant cfg following := by
  unfold Invariant at *
  rcases step_parts taken with ⟨same,sect⟩ | ⟨same,free,t,request,sect⟩ | ⟨same,sect,t,answer,leaving⟩ |
    ⟨t,inside,step,next,entered,worked,sect⟩
  · rw [same,sect]
    exact held
  · rw [same,sect]
    rw [free] at held
    refine ⟨held.task_blocks,held.node_blocks,?_⟩
    intro i member
    obtain rfl := Option.some.inj member
    trivial
  · rw [same,sect]
    rw [leaving] at held
    exact ⟨held.task_blocks,held.node_blocks,nofun⟩
  · rw [entered] at held
    rw [sect]
    exact work_keeps valid held worked

omit [DecidableEq Thread] in
theorem Invariant.accounted (held : Invariant cfg s) : Accounted cfg s where
  blocks := by
    intro free
    unfold Invariant at held
    rw [free] at held
    exact ⟨held.task_blocks.nodup,held.task_blocks.same⟩
  frees := by
    intro t task request freeing
    unfold Invariant at held
    rw [freeing] at held
    exact held.task_blocks.live_iff.mpr List.mem_cons_self
  answers := by
    intro t answer leaving
    unfold Invariant at held
    rw [leaving] at held
    exact held.agrees _ rfl

end

end Libcplus.TaskBlocks
