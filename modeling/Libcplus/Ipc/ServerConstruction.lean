import Libcplus.Ipc.Construction
import Libcplus.Llist.Pooled

-- ipc_server_new and ipc_server_delete, with what they acquire and release.
namespace Libcplus.Ipc.ServerConstruction
open Ownership Program Construction

def DURATION_FOR_IPC_SEVR_ACCEPT_TASK : Nat := 10

structure Mempool where
  block : Nat
  mem_start : Option Nat
  deriving DecidableEq

structure MempoolOutcome where
  block : Bool
  mem_start : Bool

def cplus_mempool_delete (mp : Mempool) : Building Unit := do
  whenSome cplus_free mp.mem_start
  cplus_free mp.block

def mempool_initialize_object (o : MempoolOutcome) : Building (Option Mempool) :=
  demand (cplus_malloc o.block) (return none) fun block =>
    demand (cplus_malloc o.mem_start) (do
      cplus_mempool_delete ⟨block,none⟩
      return none) fun mem_start => return some ⟨block,some mem_start⟩

-- No block is smaller than the index that a free block holds.
def cplus_mempool_new (o : MempoolOutcome) (block_count : Nat) : Building (Option Mempool) :=
  if block_count = 0 then return none else mempool_initialize_object o

-- A list without a lock, empty.
structure Llist where
  block : Nat
  mempool : Option Mempool
  deriving DecidableEq

structure LlistOutcome where
  block : Bool
  mempool : MempoolOutcome

def cplus_llist_delete (list : Llist) : Building Unit := do
  whenSome cplus_mempool_delete list.mempool
  cplus_free list.block

-- A list without a bound has no pool.
def llist_initialize_object (o : LlistOutcome) (max_count : Nat) : Building (Option Llist) :=
  demand (cplus_malloc o.block) (return none) fun block => do
    let mempool ← cplus_mempool_new o.mempool max_count
    if mempool = none ∧ 0 ≠ max_count then
      cplus_llist_delete ⟨block,mempool⟩
      return none
    else return some ⟨block,mempool⟩

def cplus_llist_prev_new (o : LlistOutcome) (max_count : Nat) : Building (Option Llist) :=
  if PooledList.MAX_NODE_COUNT < max_count then return none else llist_initialize_object o max_count

structure MutexOutcome where
  block : Bool
  initialized : Bool

-- The mutex is in the block.
def cplus_mutex_delete (mtx : Nat) : Building Unit := cplus_free mtx

def cplus_mutex_new (o : MutexOutcome) : Building (Option Nat) :=
  demand (cplus_malloc o.block) (return none) fun mtx =>
    if o.initialized then return some mtx
    else do
      cplus_mutex_delete mtx
      return none

-- The part of struct ipc_server that holds something, before any connection.
structure Server where
  block : Nat
  accept_socket : Option Socket
  ipc_conn_list : Option Llist
  ipc_conn_pool : Option Mempool
  ipc_conn_sect : Option Nat
  accept_task : Option Task
  deriving DecidableEq

structure Outcomes where
  block : Bool
  accept_socket : SocketOutcome
  bound : Bool
  ipc_conn_list : LlistOutcome
  ipc_conn_pool : MempoolOutcome
  ipc_conn_sect : MutexOutcome
  listens : Bool
  accept_task : TaskOutcome

def ipc_server_delete (ipc_serv : Server) : Building Unit := do
  whenSome cplus_task_stop ipc_serv.accept_task
  whenSome cplus_llist_delete ipc_serv.ipc_conn_list
  whenSome cplus_mempool_delete ipc_serv.ipc_conn_pool
  whenSome cplus_mutex_delete ipc_serv.ipc_conn_sect
  whenSome cplus_socket_delete ipc_serv.accept_socket
  cplus_free ipc_serv.block

-- The label exit.
def no_server (ipc_serv : Server) : Building (Option Server) := do
  ipc_server_delete ipc_serv
  return none

def accept_server (o : Outcomes) (ipc_serv : Server) : Building (Option Server) :=
  if o.listens then
    demand (cplus_task_new o.accept_task DURATION_FOR_IPC_SEVR_ACCEPT_TASK) (no_server ipc_serv) fun task =>
      return some {ipc_serv with accept_task := some task}
  else no_server ipc_serv

def equip_server (o : Outcomes) (max_conn : Nat) (ipc_serv : Server) : Building (Option Server) :=
  demand (cplus_llist_prev_new o.ipc_conn_list max_conn) (no_server ipc_serv) fun list =>
    demand (cplus_mempool_new o.ipc_conn_pool max_conn) (no_server {ipc_serv with ipc_conn_list := some list}) fun pool =>
      demand (cplus_mutex_new o.ipc_conn_sect)
        (no_server {ipc_serv with ipc_conn_list := some list,ipc_conn_pool := some pool}) fun sect =>
          accept_server o {ipc_serv with ipc_conn_list := some list,ipc_conn_pool := some pool,ipc_conn_sect := some sect}

def ipc_server_new (o : Outcomes) (max_connection : Nat) : Building (Option Server) :=
  demand (cplus_malloc o.block) (return none) fun block =>
    demand (cplus_socket_new o.accept_socket) (no_server ⟨block,none,none,none,none,none⟩) fun skt =>
      if o.bound then equip_server o max_connection ⟨block,some skt,none,none,none,none⟩
      else no_server ⟨block,some skt,none,none,none,none⟩

-- What each part needs.
def MempoolOutcome.Granted (o : MempoolOutcome) (block_count : Nat) : Prop :=
  block_count ≠ 0 ∧ o.block = true ∧ o.mem_start = true

def LlistOutcome.Granted (o : LlistOutcome) (max_count : Nat) : Prop :=
  max_count ≤ PooledList.MAX_NODE_COUNT ∧ o.block = true ∧ (max_count ≠ 0 → o.mempool.Granted max_count)

def Outcomes.Granted (o : Outcomes) (max_conn : Nat) : Prop :=
  o.block = true ∧ (o.accept_socket.block = true ∧ o.accept_socket.socket = true) ∧ o.bound = true ∧
    o.ipc_conn_list.Granted max_conn ∧ o.ipc_conn_pool.Granted max_conn ∧
      (o.ipc_conn_sect.block = true ∧ o.ipc_conn_sect.initialized = true) ∧ o.listens = true ∧ task_granted o.accept_task

def Mempool.owns (mp : Mempool) : Multiset Nat := ownedBy ({·}) mp.mem_start + {mp.block}

def Llist.owns (list : Llist) : Multiset Nat := ownedBy Mempool.owns list.mempool + {list.block}

def Server.owns (ipc_serv : Server) : Multiset Nat :=
  ownedBy Task.owns ipc_serv.accept_task + (ownedBy Llist.owns ipc_serv.ipc_conn_list +
    (ownedBy Mempool.owns ipc_serv.ipc_conn_pool + (ownedBy ({·}) ipc_serv.ipc_conn_sect +
      (ownedBy Socket.owns ipc_serv.accept_socket + {ipc_serv.block}))))

def Server.Stoppable (ipc_serv : Server) : Prop := ∀ task, ipc_serv.accept_task = some task → task.Stoppable

variable {mp : Mempool} {list : Llist} {ipc_serv : Server} {owned : Multiset Nat}

theorem mempool_deleted (mp : Mempool) : Discharges mp.owns (cplus_mempool_delete mp) :=
  (some_freed mp.mem_start).then (Discharges.release mp.block)

theorem list_deleted (list : Llist) : Discharges list.owns (cplus_llist_delete list) := by
  apply Discharges.then
  · exact .whenSome fun mp _ => mempool_deleted mp
  · exact Discharges.release list.block

theorem server_deleted (stoppable : ipc_serv.Stoppable) : Discharges ipc_serv.owns (ipc_server_delete ipc_serv) := by
  apply Discharges.then (.whenSome fun task there => task_stopped (stoppable task there))
  apply Discharges.then (.whenSome fun list _ => list_deleted list)
  apply Discharges.then (.whenSome fun mp _ => mempool_deleted mp)
  apply Discharges.then (some_freed ipc_serv.ipc_conn_sect)
  apply Discharges.then (.whenSome fun skt _ => socket_deleted skt)
  exact Discharges.release ipc_serv.block

theorem mempool_new_passes (o : MempoolOutcome) (block_count : Nat) :
    Passes 0 (cplus_mempool_new o block_count) fun mp rest => rest = ownedBy Mempool.owns mp ∧ True := by
  unfold cplus_mempool_new
  split
  · exact .pure none ⟨rfl,trivial⟩
  apply Passes.demand_new (malloc_passes o.block)
  · intro _
    exact .pure none ⟨rfl,trivial⟩
  intro block _
  apply Passes.demand_new (malloc_passes o.mem_start)
  · intro _
    exact fails_clean (by simpa [Mempool.owns] using mempool_deleted ⟨block,none⟩) ⟨rfl,trivial⟩
  · intro mem_start _
    exact .pure _ ⟨rfl,trivial⟩

theorem list_new_passes (o : LlistOutcome) (max_count : Nat) :
    Passes 0 (cplus_llist_prev_new o max_count) fun list rest => rest = ownedBy Llist.owns list ∧ True := by
  unfold cplus_llist_prev_new
  split
  · exact .pure none ⟨rfl,trivial⟩
  apply Passes.demand_new (malloc_passes o.block)
  · intro _
    exact .pure none ⟨rfl,trivial⟩
  intro block _
  apply ((mempool_new_passes o.mempool max_count).beside ({block} + 0)).bind
  rintro mempool _ ⟨_,⟨rfl,_⟩,rfl⟩
  split
  · exact fails_clean (list_deleted ⟨block,mempool⟩) ⟨rfl,trivial⟩
  · exact .pure _ ⟨rfl,trivial⟩

theorem mutex_new_passes (o : MutexOutcome) : Passes 0 (cplus_mutex_new o) fun mtx rest =>
    rest = ownedBy ({·}) mtx ∧ True := by
  apply Passes.demand_new (malloc_passes o.block)
  · intro _
    exact .pure none ⟨rfl,trivial⟩
  intro mtx _
  rw [add_zero]
  split
  · exact .pure (some mtx) ⟨rfl,trivial⟩
  · exact fails_clean (Discharges.release mtx) ⟨rfl,trivial⟩

-- A server owns all its parts, a failure nothing.
def Constructed (ipc_serv : Option Server) (rest : Multiset Nat) : Prop :=
  rest = ownedBy Server.owns ipc_serv ∧ ∀ made, ipc_serv = some made → made.Stoppable

theorem no_server_passes (same : owned = ipc_serv.owns) (no_task : ipc_serv.accept_task = none) :
    Passes owned (no_server ipc_serv) Constructed := by
  rw [same]
  apply fails_clean
  · apply server_deleted
    intro task there
    rw [no_task] at there
    cases there
  · exact ⟨rfl,nofun⟩

theorem accept_server_passes (o : Outcomes) (same : owned = ipc_serv.owns) (no_task : ipc_serv.accept_task = none) :
    Passes owned (accept_server o ipc_serv) Constructed := by
  unfold accept_server
  split
  · apply Passes.demand_new (task_new_passes o.accept_task DURATION_FOR_IPC_SEVR_ACCEPT_TASK)
    · intro _
      exact no_server_passes same no_task
    · intro task started
      obtain ⟨thread,duration⟩ := started task rfl
      refine .pure _ ⟨?_,fun made there other accepts => ?_⟩
      · rw [same]
        simp only [Server.owns,no_task,ownedBy_some,ownedBy_none]
        abel
      · cases there
        cases accepts
        exact ⟨thread,by rw [duration]; decide⟩
  · exact no_server_passes same no_task

theorem equip_server_passes (o : Outcomes) (max_conn block : Nat) (skt : Socket) :
    Passes (Server.owns ⟨block,some skt,none,none,none,none⟩) (equip_server o max_conn ⟨block,some skt,none,none,none,none⟩)
      Constructed := by
  apply Passes.demand_new (list_new_passes o.ipc_conn_list max_conn)
  · intro _
    exact no_server_passes rfl rfl
  intro list _
  apply Passes.demand_new (mempool_new_passes o.ipc_conn_pool max_conn)
  · intro _
    apply no_server_passes _ rfl
    simp only [Server.owns,ownedBy_some,ownedBy_none]
    abel
  intro pool _
  apply Passes.demand_new (mutex_new_passes o.ipc_conn_sect)
  · intro _
    apply no_server_passes _ rfl
    simp only [Server.owns,ownedBy_some,ownedBy_none]
    abel
  intro sect _
  apply accept_server_passes o _ rfl
  simp only [Server.owns,ownedBy_some,ownedBy_none]
  abel

theorem server_new_passes (o : Outcomes) (max_connection : Nat) :
    Passes 0 (ipc_server_new o max_connection) Constructed := by
  apply Passes.demand_new (malloc_passes o.block)
  · intro _
    exact .pure none ⟨rfl,nofun⟩
  intro block _
  apply Passes.demand_new (socket_new_passes o.accept_socket)
  · intro _
    apply no_server_passes _ rfl
    simp only [Server.owns,ownedBy_none]
    abel
  intro skt _
  have together : Socket.owns skt + ({block} + 0) = Server.owns ⟨block,some skt,none,none,none,none⟩ := by
    simp only [Server.owns,ownedBy_some,ownedBy_none]
    abel
  rw [together]
  split
  · exact equip_server_passes o max_connection block skt
  · exact no_server_passes rfl rfl

theorem mempool_new_decided (o : MempoolOutcome) (block_count : Nat) :
    Decided (o.Granted block_count) (cplus_mempool_new o block_count) := by
  intro s mp t ran
  unfold cplus_mempool_new at ran
  split at ran
  · cases ran
    simp [MempoolOutcome.Granted,‹block_count = 0›]
  · have decided : Decided (o.block = true ∧ o.mem_start = true ∧ True) (mempool_initialize_object o) :=
      .demand (.acquire o.block _) .none fun block => .demand (.acquire o.mem_start _) (.after .none) fun _ => .some _
    rw [decided s mp t ran]
    simp [MempoolOutcome.Granted,‹¬ block_count = 0›]

theorem list_new_decided (o : LlistOutcome) (max_count : Nat) :
    Decided (o.Granted max_count) (cplus_llist_prev_new o max_count) := by
  intro s list t ran
  unfold cplus_llist_prev_new at ran
  split at ran
  · cases ran
    simp [LlistOutcome.Granted,Nat.not_le.mpr ‹_›]
  have pooled (block : Nat) : Decided (max_count ≠ 0 → o.mempool.Granted max_count) (do
      let mempool ← cplus_mempool_new o.mempool max_count
      if mempool = none ∧ 0 ≠ max_count then
        cplus_llist_delete ⟨block,mempool⟩
        return none
      else return some ⟨block,mempool⟩ : Building (Option Llist)) := by
    intro s list t ran
    obtain ⟨mempool,u,made,rest⟩ := bind_iff.mp ran
    have decided := mempool_new_decided o.mempool max_count s mempool u made
    rw [← decided]
    split at rest
    · rename_i lacking
      rw [Decided.after .none u list t rest,lacking.1]
      simp [lacking.2.symm]
    · rename_i complete
      rw [Decided.some _ u list t rest]
      cases mempool <;> simp_all [eq_comm]
  have decided := Decided.demand (.acquire o.block _) .none pooled s list t ran
  rw [decided]
  simp [LlistOutcome.Granted,Nat.not_lt.mp ‹_›]

theorem mutex_new_decided (o : MutexOutcome) : Decided (o.block = true ∧ o.initialized = true) (cplus_mutex_new o) := by
  have decided : Decided (o.block = true ∧ o.initialized = true ∧ True) (cplus_mutex_new o) :=
    .demand (.acquire o.block _) .none fun mtx => .ite (.some mtx) (.after .none)
  simpa using decided

theorem no_server_decided (ipc_serv : Server) : Decided False (no_server ipc_serv) := .after .none

theorem server_new_decided (o : Outcomes) (max_connection : Nat) :
    Decided (o.Granted max_connection) (ipc_server_new o max_connection) := by
  apply Decided.demand (.acquire o.block _) .none
  intro block
  apply Decided.demand (socket_new_decided o.accept_socket) (no_server_decided _)
  intro skt
  refine .ite ?_ (no_server_decided _)
  apply Decided.demand (list_new_decided o.ipc_conn_list max_connection) (no_server_decided _)
  intro list
  apply Decided.demand (mempool_new_decided o.ipc_conn_pool max_connection) (no_server_decided _)
  intro pool
  apply Decided.demand (mutex_new_decided o.ipc_conn_sect) (no_server_decided _)
  intro sect
  refine .ite ?_ (no_server_decided _)
  have decided := Decided.demand (task_new_decided o.accept_task DURATION_FOR_IPC_SEVR_ACCEPT_TASK)
    (no_server_decided ⟨block,some skt,some list,some pool,some sect,none⟩) fun task =>
      Decided.some {(⟨block,some skt,some list,some pool,some sect,none⟩ : Server) with accept_task := some task}
  simpa using decided

-- A server is made when nothing that it needs is refused. Otherwise, whichever step
-- fails, what was acquired is released once; and a server holds all of it until it is
-- deleted.
theorem server_leaks_nothing (o : Outcomes) (max_connection : Nat) :
    ∃ serv t, ipc_server_new o max_connection opened = .ok (serv,t) ∧ (serv.isSome = true ↔ o.Granted max_connection) ∧
    (serv = none → ReleasedOnce t) ∧ ∀ ipc_serv, serv = some ipc_serv → Ownership.Holds t ipc_serv.owns ∧
      ∃ u, ipc_server_delete ipc_serv t = .ok ((),u) ∧ ReleasedOnce u := by
  obtain ⟨serv,t,rest,ran,⟨owns,stoppable⟩,holds⟩ := server_new_passes o max_connection opened 0 holds_opened
  rw [add_zero] at holds
  refine ⟨serv,t,ran,server_new_decided o max_connection opened serv t ran,fun failed => ?_,fun ipc_serv made => ?_⟩
  · rw [owns,failed] at holds
    exact (released_once_iff holds).mpr rfl
  · rw [owns,made] at holds
    have whole : Ownership.Holds t (ipc_serv.owns + 0) := by rwa [add_zero]
    obtain ⟨_,u,left,deleted,rfl,remains⟩ := server_deleted (stoppable ipc_serv made) t 0 whole
    rw [add_zero] at remains
    exact ⟨holds,u,deleted,(released_once_iff remains).mpr rfl⟩

end Libcplus.Ipc.ServerConstruction
