import Libcplus.Ipc.Blocking
import Libcplus.Ipc.Client
import Libcplus.Ownership
import Libcplus.Typedef

-- ipc_client_new, with what it acquires and releases on the way.
namespace Libcplus.Ipc.Construction
open Bytes Ownership Program Typedef

def DURATION_FOR_IPC_CONN_TASK : Nat := 10

inductive Kind where
  | block
  | descriptor
  deriving DecidableEq

-- A program of the ledger, which a faulting access ends.
abbrev Building (α : Type) := Prog (Ownership.Ledger Kind) Unit α

def cplus_malloc (granted : Bool) : Building (Option Nat) := acquire granted .block

def cplus_free (block : Nat) : Building Unit := Ownership.release block

-- INVALID_SOCKET is `none`.
structure Socket where
  block : Nat
  socket : Option Nat
  deriving DecidableEq

structure SocketOutcome where
  block : Bool
  socket : Bool

def cplus_socket_delete (skt : Socket) : Building Unit := do
  whenSome Ownership.release skt.socket
  cplus_free skt.block

-- A stream socket of the local domain, whose constants are known to it.
def cplus_socket_new (o : SocketOutcome) : Building (Option Socket) :=
  demand (cplus_malloc o.block) (return none) fun block =>
    demand (acquire o.socket .descriptor) (do
      cplus_socket_delete ⟨block,none⟩
      return none) fun socket => return some ⟨block,some socket⟩

structure PeventOutcome where
  block : Bool
  initialized : Bool

-- The mutex and the condition are in the block.
def cplus_pevent_delete (evt : Nat) : Building Unit := cplus_free evt

-- An event without a name.
def cplus_pevent_new (o : PeventOutcome) : Building (Option Nat) :=
  demand (cplus_malloc o.block) (return none) fun evt =>
    if o.initialized then return some evt
    else do
      cplus_pevent_delete evt
      return none

structure Task where
  block : Nat
  evt_start : Option Nat
  evt_stop : Option Nat
  evt_finish : Option Nat
  evt_pause : Option Nat
  thread : Nat
  duration : Nat
  deriving DecidableEq

-- The thread that pthread_create starts is not zero, which is how it is told apart.
structure TaskOutcome where
  block : Bool
  evt_start : PeventOutcome
  evt_stop : PeventOutcome
  evt_finish : PeventOutcome
  evt_pause : PeventOutcome
  thread : Option {thread : Nat // thread ≠ 0}

def cplus_task_delete (task : Task) : Building Unit := do
  whenSome cplus_pevent_delete task.evt_start
  whenSome cplus_pevent_delete task.evt_stop
  whenSome cplus_pevent_delete task.evt_finish
  whenSome cplus_pevent_delete task.evt_pause
  cplus_free task.block

def cplus_task_stop (task : Task) : Building Unit :=
  if task.thread ≠ 0 ∧ task.duration ≠ CPLUS_INFINITE_TIMEOUT then cplus_task_delete task else return ()

-- One event of a new task.
def task_event (o : PeventOutcome) (task : Task) (next : Nat → Building (Option Task)) : Building (Option Task) :=
  demand (cplus_pevent_new o) (do
    cplus_task_delete task
    return none) next

def start_thread (o : TaskOutcome) (task : Task) : Building (Option Task) :=
  match o.thread with
  | some thread => return some {task with thread := thread}
  | none => do
    cplus_task_delete task
    return none

def cplus_task_new (o : TaskOutcome) (duration : Nat) : Building (Option Task) :=
  demand (cplus_malloc o.block) (return none) fun block =>
    task_event o.evt_start ⟨block,none,none,none,none,0,duration⟩ fun start =>
      task_event o.evt_stop ⟨block,some start,none,none,none,0,duration⟩ fun stop =>
        task_event o.evt_finish ⟨block,some start,some stop,none,none,0,duration⟩ fun finish =>
          task_event o.evt_pause ⟨block,some start,some stop,some finish,none,0,duration⟩ fun pause =>
            start_thread o ⟨block,some start,some stop,some finish,some pause,0,duration⟩

-- The part of struct ipc_conn that holds something. The connection of a client has
-- no server.
structure Conn where
  block : Nat
  sock : Option Socket
  conn_task : Option Task
  evt_packet_received : Option Nat
  recv_bufs : Option Nat
  packet_databufs : Option Nat
  response_data : Option Nat
  deriving DecidableEq

structure ConnOutcome where
  block : Bool
  recv_bufs : Bool
  conn_task : TaskOutcome
  evt_packet_received : PeventOutcome

def free_conn (conn : Conn) : Building Unit := do
  whenSome cplus_task_stop conn.conn_task
  whenSome cplus_free conn.recv_bufs
  whenSome cplus_pevent_delete conn.evt_packet_received
  whenSome cplus_free conn.response_data
  whenSome cplus_free conn.packet_databufs
  whenSome cplus_socket_delete conn.sock
  cplus_free conn.block

def ipc_conn_delete (ipc_conn : Option Conn) : Building Unit := whenSome free_conn ipc_conn

def no_conn (conn : Option Conn) : Building (Option Conn) := do
  ipc_conn_delete conn
  return none

-- The task of an asynchronous connection, the event of another one.
def conn_receiver (o : ConnOutcome) (is_async : Bool) (conn : Conn) : Building (Option Conn) :=
  if is_async then
    demand (cplus_task_new o.conn_task DURATION_FOR_IPC_CONN_TASK) (no_conn (some conn)) fun task =>
      return some {conn with conn_task := some task}
  else
    demand (cplus_pevent_new o.evt_packet_received) (no_conn (some conn)) fun evt =>
      return some {conn with evt_packet_received := some evt}

def ipc_conn_create (o : ConnOutcome) (conn_sock : Socket) (is_async : Bool) : Building (Option Conn) :=
  demand (cplus_malloc o.block) (no_conn none) fun block =>
    demand (cplus_malloc o.recv_bufs) (no_conn (some ⟨block,some conn_sock,none,none,none,none,none⟩)) fun recv_bufs =>
      conn_receiver o is_async ⟨block,some conn_sock,none,none,some recv_bufs,none,none⟩

structure Client where
  block : Nat
  is_async : Bool
  server_socket : Option Socket
  seqn : Nat
  ipc_conn : Option Conn
  deriving DecidableEq

-- What is asked for, and what the system, the server and the allocator do.
structure Outcomes where
  on_received : Bool
  block : Bool
  server_socket : SocketOutcome
  connected : Bool
  send : Nat → Int
  received : List Received
  ipc_conn : ConnOutcome

def free_client (ipc_clt : Client) : Building Unit := do
  ipc_conn_delete ipc_clt.ipc_conn
  cplus_free ipc_clt.block

def ipc_client_delete (ipc_clt : Option Client) : Building Unit := whenSome free_client ipc_clt

def heartbeat_packet (seqn : Nat) : Packet (Option (List UInt8)) :=
  ⟨.ofNat (ACCUMULATE_SEQUENCE_NUMBER seqn),IPC_CMD_HEARTBEAT,0,none⟩

-- `none` is a faulting access.
def cplus_ipc_client_send_heartbeat (seqn : Nat) (send : Nat → Int) (received : List Received) : Option Int :=
  if 0 ≤ (ipc_send_packet send (heartbeat_packet seqn)).1 then
    (Blocking.ipc_recv_packet none 0 (Blocking.waiting received ⟨0,0,0,()⟩ none)).map fun (count,r) =>
      if 0 ≤ count ∧ (heartbeat_packet seqn).seqn = r.packet.seqn ∧ IPC_CMD_ACK = r.packet.cmd then CPLUS_SUCCESS
      else CPLUS_FAIL
  else some CPLUS_FAIL

def no_client (ipc_clt : Option Client) : Building (Option Client) := do
  ipc_client_delete ipc_clt
  return none

def attach_conn (o : Outcomes) (ipc_clt : Client) (server_socket : Socket) : Building (Option Client) :=
  demand (ipc_conn_create o.ipc_conn server_socket ipc_clt.is_async) (no_client (some ipc_clt)) fun conn =>
    return some {ipc_clt with ipc_conn := some conn}

def greet_server (o : Outcomes) (ipc_clt : Client) (server_socket : Socket) : Building (Option Client) :=
  let greeted := {ipc_clt with seqn := ACCUMULATE_SEQUENCE_NUMBER ipc_clt.seqn}
  match cplus_ipc_client_send_heartbeat ipc_clt.seqn o.send o.received with
  | none => throw ()
  | some res =>
    if res = CPLUS_FAIL then do
      cplus_socket_delete server_socket
      no_client (some greeted)
    else attach_conn o greeted server_socket

-- The callback on_connected, which is called at the end, is left out.
def ipc_client_new (o : Outcomes) : Building (Option Client) :=
  demand (cplus_malloc o.block) (no_client none) fun block =>
    demand (cplus_socket_new o.server_socket) (no_client (some ⟨block,false,none,0,none⟩)) fun server_socket =>
      let ipc_clt : Client := ⟨block,o.on_received,some server_socket,0,none⟩
      if o.connected then greet_server o ipc_clt server_socket else no_client (some ipc_clt)

def Opened (o : Outcomes) : Prop := o.block = true ∧ o.server_socket.block = true ∧ o.server_socket.socket = true

-- The server could not be reached, or it answered and there was no memory for the
-- connection.
def Strands (o : Outcomes) : Prop := Opened o ∧ (o.connected = false ∨
  cplus_ipc_client_send_heartbeat 0 o.send o.received = some CPLUS_SUCCESS ∧ o.ipc_conn.block = false)

def Socket.owns (skt : Socket) : Multiset Nat := ownedBy ({·}) skt.socket + {skt.block}

def Task.owns (task : Task) : Multiset Nat :=
  ownedBy ({·}) task.evt_start + (ownedBy ({·}) task.evt_stop + (ownedBy ({·}) task.evt_finish +
    (ownedBy ({·}) task.evt_pause + {task.block})))

def Conn.owns (conn : Conn) : Multiset Nat :=
  ownedBy Task.owns conn.conn_task + (ownedBy ({·}) conn.recv_bufs + (ownedBy ({·}) conn.evt_packet_received +
    (ownedBy ({·}) conn.response_data + (ownedBy ({·}) conn.packet_databufs + (ownedBy Socket.owns conn.sock +
      {conn.block})))))

-- A connection owns its socket, the client does not.
def Client.owns (ipc_clt : Client) : Multiset Nat := ownedBy Conn.owns ipc_clt.ipc_conn + {ipc_clt.block}

-- cplus_task_stop deletes the task.
def Task.Stoppable (task : Task) : Prop := task.thread ≠ 0 ∧ task.duration ≠ CPLUS_INFINITE_TIMEOUT

def Conn.Stoppable (conn : Conn) : Prop := ∀ task, conn.conn_task = some task → task.Stoppable

variable {skt : Socket} {task : Task} {conn : Conn} {ipc_clt : Client} {owned : Multiset Nat}

theorem malloc_passes (granted : Bool) : Passes 0 (cplus_malloc granted) fun block rest =>
    rest = ownedBy ({·}) block ∧ (block = none ↔ granted = false) := .acquire granted Kind.block

theorem some_freed (block : Option Nat) : Discharges (ownedBy ({·}) block) (whenSome cplus_free block) :=
  .whenSome fun b _ => Discharges.release b

theorem socket_deleted (skt : Socket) : Discharges skt.owns (cplus_socket_delete skt) := by
  apply Discharges.then
  · exact .whenSome fun socket _ => Discharges.release socket
  · exact Discharges.release skt.block

theorem task_deleted (task : Task) : Discharges task.owns (cplus_task_delete task) :=
  (some_freed task.evt_start).then <| (some_freed task.evt_stop).then <| (some_freed task.evt_finish).then <|
    (some_freed task.evt_pause).then (Discharges.release task.block)

theorem task_stopped (stoppable : task.Stoppable) : Discharges task.owns (cplus_task_stop task) := by
  unfold cplus_task_stop
  rw [if_pos (show task.thread ≠ 0 ∧ _ from stoppable)]
  exact task_deleted task

theorem conn_deleted (stoppable : conn.Stoppable) : Discharges conn.owns (free_conn conn) := by
  apply Discharges.then (.whenSome fun task there => task_stopped (stoppable task there))
  apply Discharges.then (some_freed conn.recv_bufs)
  apply Discharges.then (some_freed conn.evt_packet_received)
  apply Discharges.then (some_freed conn.response_data)
  apply Discharges.then (some_freed conn.packet_databufs)
  apply Discharges.then (.whenSome fun skt _ => socket_deleted skt)
  exact Discharges.release conn.block

theorem client_deleted (stoppable : ∀ conn, ipc_clt.ipc_conn = some conn → conn.Stoppable) :
    Discharges ipc_clt.owns (free_client ipc_clt) := by
  apply Discharges.then
  · exact .whenSome fun conn there => conn_deleted (stoppable conn there)
  · exact Discharges.release ipc_clt.block

-- After a failure what is owned is given up, and the answer is NULL.
theorem fails_clean {cleanup : Building Unit} {α : Type} {left : Option α → Multiset Nat → Prop}
    (discharges : Discharges owned cleanup) (none_left : left none 0) :
    Passes owned (cleanup >>= fun _ => return none) left := by
  apply Passes.bind discharges
  rintro _ _ rfl
  exact .pure none none_left

theorem socket_new_passes (o : SocketOutcome) : Passes 0 (cplus_socket_new o) fun skt rest =>
    rest = ownedBy Socket.owns skt ∧ (skt = none ↔ ¬ (o.block = true ∧ o.socket = true)) := by
  apply Passes.demand_new (malloc_passes o.block)
  · intro refused
    exact .pure none ⟨rfl,by simp [refused.mp rfl]⟩
  intro block granted
  apply Passes.demand_new (.acquire o.socket Kind.descriptor)
  · intro refused
    exact fails_clean (by simpa [Socket.owns] using socket_deleted ⟨block,none⟩) ⟨rfl,by simp [refused.mp rfl]⟩
  intro socket opened
  refine .pure _ ⟨rfl,iff_of_false nofun fun refused => refused ⟨?_,?_⟩⟩
  · simpa using granted
  · simpa using opened

theorem pevent_new_passes (o : PeventOutcome) : Passes 0 (cplus_pevent_new o) fun evt rest =>
    rest = ownedBy ({·}) evt ∧ True := by
  apply Passes.demand_new (malloc_passes o.block)
  · intro _
    exact .pure none ⟨rfl,trivial⟩
  intro evt _
  rw [add_zero]
  split
  · exact .pure (some evt) ⟨rfl,trivial⟩
  · exact fails_clean (Discharges.release evt) ⟨rfl,trivial⟩

theorem task_event_passes {o : PeventOutcome} {next : Nat → Building (Option Task)}
    {left : Option Task → Multiset Nat → Prop} (same : owned = task.owns) (none_left : left none 0)
    (then_ : ∀ evt, Passes ({evt} + owned) (next evt) left) : Passes owned (task_event o task next) left := by
  apply Passes.demand_new (pevent_new_passes o)
  · intro _
    rw [same]
    exact fails_clean (task_deleted task) none_left
  · intro evt _
    exact then_ evt

def Started (duration : Nat) (task : Option Task) (rest : Multiset Nat) : Prop :=
  rest = ownedBy Task.owns task ∧ ∀ started, task = some started → started.thread ≠ 0 ∧ started.duration = duration

theorem start_thread_passes (o : TaskOutcome) (same : owned = task.owns) :
    Passes owned (start_thread o task) (Started task.duration) := by
  unfold start_thread
  rw [same]
  cases o.thread with
  | some thread =>
    refine .pure _ ⟨rfl,fun started there => ?_⟩
    cases there
    exact ⟨thread.property,rfl⟩
  | none => exact fails_clean (task_deleted task) ⟨rfl,nofun⟩

theorem task_new_passes (o : TaskOutcome) (duration : Nat) : Passes 0 (cplus_task_new o duration) (Started duration) := by
  have failed : Started duration none 0 := ⟨rfl,nofun⟩
  apply Passes.demand_new (malloc_passes o.block)
  · intro _
    exact .pure none failed
  intro block _
  apply task_event_passes _ failed
  · intro start
    apply task_event_passes _ failed
    · intro stop
      apply task_event_passes _ failed
      · intro finish
        apply task_event_passes _ failed
        · intro pause
          apply start_thread_passes o
          simp only [Task.owns,ownedBy_some]
          abel
        · simp only [Task.owns,ownedBy_some,ownedBy_none]
          abel
      · simp only [Task.owns,ownedBy_some,ownedBy_none]
        abel
    · simp only [Task.owns,ownedBy_some,ownedBy_none]
      abel
  · simp only [Task.owns,ownedBy_none]
    abel

-- What becomes of the socket that a connection was to have.
inductive Attached (o : ConnOutcome) (skt : Socket) : Option Conn → Multiset Nat → Prop where
  | refused (block : o.block = false) : Attached o skt none skt.owns
  | cleaned (block : o.block = true) : Attached o skt none 0
  | made (block : o.block = true) {conn : Conn} (stoppable : conn.Stoppable) : Attached o skt (some conn) conn.owns

theorem no_conn_passes {left : Option Conn → Multiset Nat → Prop} (same : owned = conn.owns) (stoppable : conn.Stoppable)
    (none_left : left none 0) : Passes owned (no_conn (some conn)) left := by
  rw [same]
  exact fails_clean (conn_deleted stoppable) none_left

theorem no_task {block : Nat} {sock : Option Socket} {evt recv_bufs packet_databufs response_data : Option Nat} :
    Conn.Stoppable ⟨block,sock,none,evt,recv_bufs,packet_databufs,response_data⟩ := nofun

theorem conn_receiver_passes {o : ConnOutcome} (is_async : Bool) {block recv_bufs : Nat} (granted : o.block = true)
    (same : owned = Conn.owns ⟨block,some skt,none,none,some recv_bufs,none,none⟩) :
    Passes owned (conn_receiver o is_async ⟨block,some skt,none,none,some recv_bufs,none,none⟩) (Attached o skt) := by
  unfold conn_receiver
  split
  · apply Passes.demand_new (task_new_passes o.conn_task DURATION_FOR_IPC_CONN_TASK)
    · intro _
      exact no_conn_passes same no_task (.cleaned granted)
    · intro task started
      have stoppable : Conn.Stoppable ⟨block,some skt,some task,none,some recv_bufs,none,none⟩ := by
        intro other there
        cases there
        obtain ⟨thread,duration⟩ := started task rfl
        exact ⟨thread,by rw [duration]; decide⟩
      have together : task.owns + owned = Conn.owns ⟨block,some skt,some task,none,some recv_bufs,none,none⟩ := by
        rw [same]
        simp only [Conn.owns,ownedBy_some,ownedBy_none]
        abel
      rw [together]
      exact .pure _ (.made granted stoppable)
  · apply Passes.demand_new (pevent_new_passes o.evt_packet_received)
    · intro _
      exact no_conn_passes same no_task (.cleaned granted)
    · intro evt _
      have together : {evt} + owned = Conn.owns ⟨block,some skt,none,some evt,some recv_bufs,none,none⟩ := by
        rw [same]
        simp only [Conn.owns,ownedBy_some,ownedBy_none]
        abel
      rw [together]
      exact .pure _ (.made granted no_task)

theorem conn_create_passes (o : ConnOutcome) (skt : Socket) (is_async : Bool) :
    Passes skt.owns (ipc_conn_create o skt is_async) (Attached o skt) := by
  apply Passes.demand_new (malloc_passes o.block)
  · intro refused
    exact .pure none (.refused (refused.mp rfl))
  intro block unrefused
  have granted : o.block = true := by simpa using unrefused
  apply Passes.demand_new (malloc_passes o.recv_bufs)
  · intro _
    apply no_conn_passes _ no_task (.cleaned granted)
    simp only [Conn.owns,ownedBy_some,ownedBy_none]
    abel
  · intro recv_bufs _
    apply conn_receiver_passes is_async granted
    simp only [Conn.owns,ownedBy_some,ownedBy_none]
    abel

-- What becomes of all that was acquired.
inductive Constructed (o : Outcomes) : Option Client → Multiset Nat → Prop where
  | stranded (strands : Strands o) (skt : Socket) : Constructed o none skt.owns
  | cleaned (kept : ¬ Strands o) : Constructed o none 0
  | made (kept : ¬ Strands o) {ipc_clt : Client} (stoppable : ∀ conn, ipc_clt.ipc_conn = some conn → conn.Stoppable) :
      Constructed o (some ipc_clt) ipc_clt.owns

-- A client without a connection gives up its own block only.
theorem no_client_passes (ipc_clt : Client) {left : Option Client → Multiset Nat → Prop}
    (unattached : ipc_clt.ipc_conn = none) (left_none : left none owned) :
    Passes ({ipc_clt.block} + owned) (no_client (some ipc_clt)) left := by
  have deleted : Discharges ipc_clt.owns (free_client ipc_clt) := by
    apply client_deleted
    rw [unattached]
    exact nofun
  rw [Client.owns,unattached,ownedBy_none,zero_add] at deleted
  exact Discharges.then deleted (.pure none left_none)

theorem attach_conn_passes {o : Outcomes} (ipc_clt : Client) (skt : Socket) (unattached : ipc_clt.ipc_conn = none)
    (is_open : Opened o) (connected : o.connected = true)
    (answered : cplus_ipc_client_send_heartbeat 0 o.send o.received = some CPLUS_SUCCESS) :
    Passes (skt.owns + {ipc_clt.block}) (attach_conn o ipc_clt skt) (Constructed o) := by
  apply (conn_create_passes o.ipc_conn skt ipc_clt.is_async).demand
  · intro rest attached
    rw [add_comm]
    apply no_client_passes ipc_clt unattached
    cases attached with
    | refused block => exact .stranded ⟨is_open,.inr ⟨answered,block⟩⟩ skt
    | cleaned block => exact .cleaned (by simp [Strands,connected,block])
  · intro conn rest attached
    cases attached with
    | made block stoppable =>
      have kept : ¬ Strands o := by simp [Strands,connected,block]
      exact .pure _ (.made kept fun _ there => by cases there; exact stoppable)

theorem heartbeat_answers (seqn : Nat) (send : Nat → Int) (received : List Received) :
    cplus_ipc_client_send_heartbeat seqn send received = some CPLUS_SUCCESS ∨
      cplus_ipc_client_send_heartbeat seqn send received = some CPLUS_FAIL := by
  unfold cplus_ipc_client_send_heartbeat
  split
  · have room : Blocking.Room 0 (Blocking.waiting received ⟨0,0,0,()⟩ none) := fun _ there => by cases there
    obtain ⟨⟨count,r⟩,arrived⟩ := Blocking.recv_returns room
    rw [arrived,Option.map_some]
    exact (ite_eq_or_eq _ _ _).imp (congrArg some) (congrArg some)
  · exact .inr rfl

theorem greet_server_passes {o : Outcomes} (ipc_clt : Client) (skt : Socket) (unattached : ipc_clt.ipc_conn = none)
    (unused : ipc_clt.seqn = 0) (is_open : Opened o) (connected : o.connected = true) :
    Passes (skt.owns + {ipc_clt.block}) (greet_server o ipc_clt skt) (Constructed o) := by
  unfold greet_server
  rw [unused]
  obtain answered | failed := heartbeat_answers 0 o.send o.received
  · have attached := attach_conn_passes {ipc_clt with seqn := ACCUMULATE_SEQUENCE_NUMBER 0} skt unattached is_open
      connected answered
    rw [answered]
    exact attached
  · have kept : ¬ Strands o := by simp [Strands,connected,failed,CPLUS_FAIL,CPLUS_SUCCESS]
    have deleted := no_client_passes {ipc_clt with seqn := ACCUMULATE_SEQUENCE_NUMBER 0} unattached
      (Constructed.cleaned kept)
    rw [add_zero] at deleted
    rw [failed]
    exact Discharges.then (socket_deleted skt) deleted

theorem client_new_passes (o : Outcomes) : Passes 0 (ipc_client_new o) (Constructed o) := by
  apply Passes.demand_new (malloc_passes o.block)
  · intro refused
    exact .pure none (.cleaned (by simp [Strands,Opened,refused.mp rfl]))
  intro block unrefused
  have granted : o.block = true := by simpa using unrefused
  apply Passes.demand_new (socket_new_passes o.server_socket)
  · intro refused
    have unopened := refused.mp rfl
    have kept : ¬ Strands o := fun strands => unopened strands.1.2
    exact no_client_passes ⟨block,false,none,0,none⟩ rfl (Constructed.cleaned kept)
  intro skt unrefused
  have opened : o.server_socket.block = true ∧ o.server_socket.socket = true := by
    by_contra refused
    cases unrefused.mpr refused
  rw [add_zero]
  cases connected : o.connected with
  | true => exact greet_server_passes ⟨block,o.on_received,some skt,0,none⟩ skt rfl rfl ⟨granted,opened⟩ connected
  | false =>
    have strands : Strands o := ⟨⟨granted,opened⟩,.inl connected⟩
    rw [add_comm]
    exact no_client_passes ⟨block,o.on_received,some skt,0,none⟩ rfl (Constructed.stranded strands skt)

theorem socket_owns_something (skt : Socket) : skt.owns ≠ 0 := by
  intro nothing
  have counted := congrArg Multiset.card nothing
  simp [Socket.owns] at counted

-- Every call, whatever the system does during it.
theorem construction_exact (o : Outcomes) : ∃ clt t, ipc_client_new o opened = .ok (clt,t) ∧
    (∀ resource, t.released.count resource ≤ 1) ∧ ((clt = none → ReleasedOnce t) ↔ ¬ Strands o) := by
  obtain ⟨clt,t,rest,ran,constructed,holds⟩ := client_new_passes o opened 0 holds_opened
  rw [add_zero] at holds
  refine ⟨clt,t,ran,released_at_most_once holds,?_⟩
  rw [released_once_iff holds]
  cases constructed with
  | stranded strands skt =>
    apply iff_of_false
    · exact fun cleaned => socket_owns_something skt (cleaned rfl)
    · exact fun kept => kept strands
  | cleaned kept => exact iff_of_true (fun _ => rfl) kept
  | made kept => exact iff_of_true nofun kept

-- The server accepts and never sends anything.
def silent_server : Outcomes :=
  ⟨false,true,⟨true,true⟩,true,fun k => [3,1,1,4,3].getD k 0,[],
    ⟨true,true,⟨true,⟨true,true⟩,⟨true,true⟩,⟨true,true⟩,⟨true,true⟩,some ⟨1,by decide⟩⟩,⟨true,true⟩⟩⟩

theorem silence_cleaned_up : ∃ t, ipc_client_new silent_server opened = .ok (none,t) ∧
    t.acquired = [.block,.block,.descriptor] ∧ ReleasedOnce t := by
  have kept : ¬ Strands silent_server := by
    intro strands
    obtain refused | refused := strands.2
    · cases refused
    · cases refused.2
  obtain ⟨clt,t,ran,_,exact_⟩ := construction_exact silent_server
  obtain ⟨rfl,rfl⟩ : clt = none ∧ t = ⟨[.block,.block,.descriptor],[2,1,0]⟩ := by
    cases ran
    exact ⟨rfl,rfl⟩
  exact ⟨_,ran,rfl,exact_.mpr kept rfl⟩

-- A name at which no server listens.
theorem refused_connect_leaks : ¬ ∀ (o : Outcomes) (t : Ownership.Ledger Kind), ipc_client_new o opened = .ok (none,t) →
    ReleasedOnce t := by
  intro claim
  have once := claim {silent_server with connected := false} _ rfl 1 (by decide)
  revert once
  decide

-- A client that is deleted as soon as it is made.
theorem delete_gives_up (o : Outcomes) : ∃ t, (ipc_client_new o >>= ipc_client_delete) opened = .ok ((),t) ∧
    (ReleasedOnce t ↔ ¬ Strands o) := by
  have passes : Passes 0 (ipc_client_new o >>= ipc_client_delete) fun _ rest => rest = 0 ↔ ¬ Strands o := by
    apply (client_new_passes o).bind
    intro clt rest constructed
    cases constructed with
    | stranded strands skt => exact .pure () (iff_of_false (socket_owns_something skt) fun kept => kept strands)
    | cleaned kept => exact .pure () (iff_of_true rfl kept)
    | made kept stoppable => exact (client_deleted stoppable).imp fun _ _ nothing => iff_of_true nothing kept
  obtain ⟨_,t,rest,ran,given_up,holds⟩ := passes opened 0 holds_opened
  rw [add_zero] at holds
  exact ⟨t,ran,(released_once_iff holds).trans given_up⟩

-- What an event and a task need.
def event_granted (o : PeventOutcome) : Prop := o.block = true ∧ o.initialized = true

def task_granted (o : TaskOutcome) : Prop :=
  o.block = true ∧ event_granted o.evt_start ∧ event_granted o.evt_stop ∧ event_granted o.evt_finish ∧
    event_granted o.evt_pause ∧ o.thread.isSome = true

theorem event_new_decided (o : PeventOutcome) : Decided (event_granted o) (cplus_pevent_new o) := by
  have decided : Decided (o.block = true ∧ o.initialized = true ∧ True) (cplus_pevent_new o) :=
    .demand (.acquire o.block _) .none fun evt => .ite (.some evt) (.after .none)
  simpa [event_granted] using decided

theorem socket_new_decided (o : SocketOutcome) : Decided (o.block = true ∧ o.socket = true) (cplus_socket_new o) := by
  have decided : Decided (o.block = true ∧ o.socket = true ∧ True) (cplus_socket_new o) :=
    .demand (.acquire o.block _) .none fun block => .demand (.acquire o.socket _) (.after .none) fun _ => .some _
  simpa using decided

theorem start_thread_decided (o : TaskOutcome) (task : Task) : Decided (o.thread.isSome = true) (start_thread o task) := by
  unfold start_thread
  cases o.thread with
  | some thread => simpa using Decided.some _
  | none => simpa using Decided.after .none

theorem task_event_decided {o : PeventOutcome} {next : Nat → Building (Option Task)} {then_ : Prop} (task : Task)
    (goes : ∀ evt, Decided then_ (next evt)) : Decided (event_granted o ∧ then_) (task_event o task next) :=
  .demand (event_new_decided o) (.after .none) goes

theorem task_new_decided (o : TaskOutcome) (duration : Nat) : Decided (task_granted o) (cplus_task_new o duration) := by
  apply Decided.demand (.acquire o.block _) .none
  intro block
  apply task_event_decided
  intro start
  apply task_event_decided
  intro stop
  apply task_event_decided
  intro finish
  apply task_event_decided
  intro pause
  exact start_thread_decided o _

end Libcplus.Ipc.Construction
