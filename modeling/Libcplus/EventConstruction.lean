import Libcplus.Ipc.Construction

-- The objects of event_server.c, with what they acquire and release.
namespace Libcplus.EventConstruction
open Ownership Program Ipc.Construction

def DURATION_FOR_POLL_PROC : Nat := 100
def DURATION_FOR_ACCEPT_TASK : Nat := 100

-- struct event_server. INVALID_FD is none.
structure EventServer where
  block : Nat
  efd : Option Nat
  poll_proc : Option Task
  skt_server : Option Socket
  accept_proc : Option Task
  deriving DecidableEq

structure ServerOutcomes where
  block : Bool
  efd : Bool
  poll_proc : TaskOutcome
  skt_server : SocketOutcome
  bound : Bool
  listens : Bool
  accept_proc : TaskOutcome

def cplus_event_server_delete (server : EventServer) : Building Unit := do
  whenSome cplus_task_stop server.accept_proc
  whenSome cplus_socket_delete server.skt_server
  whenSome cplus_task_stop server.poll_proc
  whenSome Ownership.release server.efd
  cplus_free server.block

-- The label error.
def no_server (server : EventServer) : Building (Option EventServer) := do
  cplus_event_server_delete server
  return none

-- The part for enable_ipc.
def accept_clients (o : ServerOutcomes) (server : EventServer) : Building (Option EventServer) :=
  demand (cplus_socket_new o.skt_server) (no_server server) fun skt_server =>
    if o.bound then
      if o.listens then
        demand (cplus_task_new o.accept_proc DURATION_FOR_ACCEPT_TASK) (no_server {server with skt_server := some skt_server})
          fun accept_proc => return some {server with skt_server := some skt_server,accept_proc := some accept_proc}
      else no_server {server with skt_server := some skt_server}
    else no_server {server with skt_server := some skt_server}

def event_server_initialize_object (o : ServerOutcomes) (enable_ipc : Bool) : Building (Option EventServer) :=
  demand (cplus_malloc o.block) (return none) fun block =>
    demand (acquire o.efd .descriptor) (no_server ⟨block,none,none,none,none⟩) fun efd =>
      demand (cplus_task_new o.poll_proc DURATION_FOR_POLL_PROC) (no_server ⟨block,some efd,none,none,none⟩) fun poll_proc =>
        if enable_ipc then accept_clients o ⟨block,some efd,some poll_proc,none,none⟩
        else return some ⟨block,some efd,some poll_proc,none,none⟩

-- struct event_client of cplus_event_client_connect.
structure EventClient where
  block : Nat
  server_efd : Option Nat
  skt_client : Option Socket
  deriving DecidableEq

-- `received` is that cplus_socket_recv_fd succeeds, `passed` that a descriptor came
-- with the message.
structure ClientOutcomes where
  block : Bool
  skt_client : SocketOutcome
  connected : Bool
  received : Bool
  passed : Bool
  acknowledged : Bool

def cplus_event_client_delete (client : EventClient) : Building Unit := do
  whenSome cplus_socket_delete client.skt_client
  cplus_free client.block

def no_client (client : EventClient) : Building (Option EventClient) := do
  cplus_event_client_delete client
  return none

-- From the message with the descriptor on.
def take_efd (o : ClientOutcomes) (block : Nat) (skt_client : Socket) : Building (Option EventClient) := do
  let recv_fd ← acquire o.passed .descriptor
  if o.acknowledged then
    match recv_fd with
    | none => no_client ⟨block,none,some skt_client⟩
    | some efd =>
      cplus_socket_delete skt_client
      return some ⟨block,some efd,none⟩
  else no_client ⟨block,none,some skt_client⟩

def cplus_event_client_connect (o : ClientOutcomes) : Building (Option EventClient) :=
  demand (cplus_malloc o.block) (return none) fun block =>
    demand (cplus_socket_new o.skt_client) (no_client ⟨block,none,none⟩) fun skt_client =>
      if o.connected then
        if o.received then take_efd o block skt_client else no_client ⟨block,none,some skt_client⟩
      else no_client ⟨block,none,some skt_client⟩

def EventServer.owns (server : EventServer) : Multiset Nat :=
  ownedBy Task.owns server.accept_proc + (ownedBy Socket.owns server.skt_server + (ownedBy Task.owns server.poll_proc +
    (ownedBy ({·}) server.efd + {server.block})))

def EventServer.Stoppable (server : EventServer) : Prop :=
  (∀ task, server.accept_proc = some task → task.Stoppable) ∧ ∀ task, server.poll_proc = some task → task.Stoppable

variable {server : EventServer} {owned : Multiset Nat}

theorem server_deleted (stoppable : server.Stoppable) : Discharges server.owns (cplus_event_server_delete server) := by
  apply Discharges.then (.whenSome fun task there => task_stopped (stoppable.1 task there))
  apply Discharges.then (.whenSome fun skt _ => socket_deleted skt)
  apply Discharges.then (.whenSome fun task there => task_stopped (stoppable.2 task there))
  apply Discharges.then (.whenSome fun efd _ => Discharges.release efd)
  exact Discharges.release server.block

def Constructed (server : Option EventServer) (rest : Multiset Nat) : Prop :=
  rest = ownedBy EventServer.owns server ∧ ∀ made, server = some made → made.Stoppable

theorem no_server_passes (same : owned = server.owns) (stoppable : server.Stoppable) :
    Passes owned (no_server server) Constructed := by
  rw [same]
  exact fails_clean (server_deleted stoppable) ⟨rfl,nofun⟩

theorem taskless (block : Nat) (efd : Option Nat) : EventServer.Stoppable ⟨block,efd,none,none,none⟩ :=
  ⟨fun _ there => (Option.some_ne_none _ there.symm).elim,fun _ there => (Option.some_ne_none _ there.symm).elim⟩

theorem accept_clients_passes (o : ServerOutcomes) (same : owned = server.owns) (stoppable : server.Stoppable)
    (no_socket : server.skt_server = none) (no_task : server.accept_proc = none) :
    Passes owned (accept_clients o server) Constructed := by
  apply Passes.demand_new (socket_new_passes o.skt_server)
  · intro _
    exact no_server_passes same stoppable
  intro skt _
  have with_socket : skt.owns + owned = EventServer.owns {server with skt_server := some skt} := by
    rw [same]
    simp only [EventServer.owns,no_socket,ownedBy_some,ownedBy_none]
    abel
  rw [with_socket]
  have failed : Passes (EventServer.owns {server with skt_server := some skt})
      (no_server {server with skt_server := some skt}) Constructed := no_server_passes rfl stoppable
  split
  · split
    · apply Passes.demand_new (task_new_passes o.accept_proc DURATION_FOR_ACCEPT_TASK)
      · intro _
        exact failed
      · intro task started
        refine .pure _ ⟨?_,fun made there => ?_⟩
        · simp only [EventServer.owns,no_task,ownedBy_some,ownedBy_none]
          abel
        · cases there
          refine ⟨fun other accepts => ?_,stoppable.2⟩
          cases accepts
          obtain ⟨thread,duration⟩ := started task rfl
          exact ⟨thread,by rw [duration]; decide⟩
    · exact failed
  · exact failed

theorem server_new_passes (o : ServerOutcomes) (enable_ipc : Bool) :
    Passes 0 (event_server_initialize_object o enable_ipc) Constructed := by
  apply Passes.demand_new (malloc_passes o.block)
  · intro _
    exact .pure none ⟨rfl,nofun⟩
  intro block _
  apply Passes.demand_new (.acquire o.efd Kind.descriptor)
  · intro _
    apply no_server_passes _ (taskless _ _)
    simp only [EventServer.owns,ownedBy_none]
    abel
  intro efd _
  apply Passes.demand_new (task_new_passes o.poll_proc DURATION_FOR_POLL_PROC)
  · intro _
    apply no_server_passes _ (taskless _ _)
    simp only [EventServer.owns,ownedBy_some,ownedBy_none]
    abel
  intro task started
  have together : task.owns + ({efd} + ({block} + 0)) = EventServer.owns ⟨block,some efd,some task,none,none⟩ := by
    simp only [EventServer.owns,ownedBy_some,ownedBy_none]
    abel
  have stoppable : EventServer.Stoppable ⟨block,some efd,some task,none,none⟩ := by
    refine ⟨nofun,fun other polls => ?_⟩
    cases polls
    obtain ⟨thread,duration⟩ := started task rfl
    exact ⟨thread,by rw [duration]; decide⟩
  rw [together]
  split
  · exact accept_clients_passes o rfl stoppable rfl rfl
  · refine .pure _ ⟨rfl,fun made there => ?_⟩
    cases there
    exact stoppable

-- What a server needs: the part for the clients only with enable_ipc.
def ServerOutcomes.Granted (o : ServerOutcomes) (enable_ipc : Bool) : Prop :=
  o.block = true ∧ o.efd = true ∧ task_granted o.poll_proc ∧ (enable_ipc = true →
    (o.skt_server.block = true ∧ o.skt_server.socket = true) ∧ o.bound = true ∧ o.listens = true ∧ task_granted o.accept_proc)

theorem no_server_decided (server : EventServer) : Decided False (no_server server) := .after .none

theorem accept_clients_decided (o : ServerOutcomes) (server : EventServer) :
    Decided ((o.skt_server.block = true ∧ o.skt_server.socket = true) ∧ o.bound = true ∧ o.listens = true ∧
      task_granted o.accept_proc) (accept_clients o server) := by
  apply Decided.demand (socket_new_decided o.skt_server) (no_server_decided server)
  intro skt
  refine .ite (.ite ?_ (no_server_decided _)) (no_server_decided _)
  have decided := Decided.demand (task_new_decided o.accept_proc DURATION_FOR_ACCEPT_TASK)
    (no_server_decided {server with skt_server := some skt}) fun task =>
      Decided.some {server with skt_server := some skt,accept_proc := some task}
  simpa using decided

theorem server_new_decided (o : ServerOutcomes) (enable_ipc : Bool) :
    Decided (o.Granted enable_ipc) (event_server_initialize_object o enable_ipc) := by
  apply Decided.demand (.acquire o.block _) .none
  intro block
  apply Decided.demand (.acquire o.efd _) (no_server_decided _)
  intro efd
  apply Decided.demand (task_new_decided o.poll_proc DURATION_FOR_POLL_PROC) (no_server_decided _)
  intro task
  cases enable_ipc with
  | false => simpa using Decided.some _
  | true => simpa using accept_clients_decided o _

-- Whatever fails on the way, a server that is not made leaves nothing behind, and one
-- that is made gives everything back when it is deleted.
theorem event_server_leaks_nothing (o : ServerOutcomes) (enable_ipc : Bool) :
    ∃ serv t, event_server_initialize_object o enable_ipc opened = .ok (serv,t) ∧
    (serv.isSome = true ↔ o.Granted enable_ipc) ∧ (serv = none → ReleasedOnce t) ∧
    ∀ server, serv = some server → Ownership.Holds t server.owns ∧
      ∃ u, cplus_event_server_delete server t = .ok ((),u) ∧ ReleasedOnce u := by
  obtain ⟨serv,t,rest,ran,⟨owns,stoppable⟩,holds⟩ := server_new_passes o enable_ipc opened 0 holds_opened
  rw [add_zero] at holds
  refine ⟨serv,t,ran,server_new_decided o enable_ipc opened serv t ran,fun failed => ?_,fun server made => ?_⟩
  · rw [owns,failed] at holds
    exact (released_once_iff holds).mpr rfl
  · rw [owns,made] at holds
    have whole : Ownership.Holds t (server.owns + 0) := by rwa [add_zero]
    obtain ⟨_,u,left,deleted,rfl,remains⟩ := server_deleted (stoppable server made) t 0 whole
    rw [add_zero] at remains
    exact ⟨holds,u,deleted,(released_once_iff remains).mpr rfl⟩

-- The client holds its descriptor and its socket's, of which delete only closes the latter.
def EventClient.owns (client : EventClient) : Multiset Nat :=
  ownedBy Socket.owns client.skt_client + {client.block}

-- A descriptor comes in.
def Passed (o : ClientOutcomes) : Prop :=
  o.block = true ∧ (o.skt_client.block = true ∧ o.skt_client.socket = true) ∧ o.connected = true ∧ o.received = true ∧
    o.passed = true

theorem client_deleted (client : EventClient) : Discharges client.owns (cplus_event_client_delete client) := by
  apply Discharges.then (.whenSome fun skt _ => socket_deleted skt)
  exact Discharges.release client.block

-- The descriptor that came in is left over beside what the client owns.
def Connected (o : ClientOutcomes) (client : Option EventClient) (rest : Multiset Nat) : Prop :=
  ∃ efd : Option Nat, rest = ownedBy EventClient.owns client + ownedBy ({·}) efd ∧ (efd.isSome = true ↔ Passed o) ∧
    (client.isSome = true ↔ Passed o ∧ o.acknowledged = true) ∧ ∀ made, client = some made → made.server_efd = efd

theorem no_client_passes {o : ClientOutcomes} {client : EventClient} (same : owned = client.owns) (refused : ¬ Passed o) :
    Passes owned (no_client client) (Connected o) := by
  rw [same]
  exact fails_clean (client_deleted client) ⟨none,rfl,by simp [refused],by simp [refused],nofun⟩

theorem take_efd_passes {o : ClientOutcomes} (block : Nat) (skt_client : Socket)
    (arrives : Passed o ↔ o.passed = true) :
    Passes (skt_client.owns + {block}) (take_efd o block skt_client) (Connected o) := by
  have given : Passes 0 (acquire o.passed .descriptor : Building (Option Nat)) _ := .acquire o.passed Kind.descriptor
  rw [← zero_add (skt_client.owns + {block})]
  apply (given.beside (skt_client.owns + {block})).bind
  rintro recv_fd _ ⟨_,⟨rfl,refused⟩,rfl⟩
  have came : recv_fd.isSome = true ↔ Passed o := by
    rw [arrives]
    cases recv_fd <;> simp_all
  split
  · rename_i acknowledged
    cases recv_fd with
    | none =>
      apply no_client_passes
      · simp [EventClient.owns]
      · simpa using came
    | some efd =>
      have together : ownedBy ({·}) (some efd) + (skt_client.owns + {block}) = skt_client.owns + ({block} + {efd}) := by
        simp only [ownedBy_some]
        abel
      rw [together]
      apply (socket_deleted skt_client).then
      exact .pure _ ⟨some efd,by simp [EventClient.owns],came,by simpa [acknowledged] using came,by simp⟩
  · rename_i silent
    have together : ownedBy ({·}) recv_fd + (skt_client.owns + {block}) =
        EventClient.owns ⟨block,none,some skt_client⟩ + ownedBy ({·}) recv_fd := by
      simp only [EventClient.owns,ownedBy_some]
      abel
    rw [together]
    apply (client_deleted ⟨block,none,some skt_client⟩).then
    exact .pure _ ⟨recv_fd,by simp,came,by simp [silent],nofun⟩

theorem connect_passes (o : ClientOutcomes) : Passes 0 (cplus_event_client_connect o) (Connected o) := by
  apply Passes.demand_new (malloc_passes o.block)
  · intro refused
    have denied := refused.mp rfl
    exact .pure none ⟨none,by simp,by simp [Passed,denied],by simp [Passed,denied],nofun⟩
  intro block unrefused
  have granted : o.block = true := by simpa using unrefused
  apply Passes.demand_new (socket_new_passes o.skt_client)
  · intro refused
    have denied := refused.mp rfl
    apply no_client_passes
    · simp [EventClient.owns]
    · exact fun passed => denied passed.2.1
  intro skt opened
  have socket : o.skt_client.block = true ∧ o.skt_client.socket = true := by simpa using opened
  rw [add_zero]
  have alone : skt.owns + {block} = EventClient.owns ⟨block,none,some skt⟩ := rfl
  split
  · rename_i connected
    split
    · rename_i received
      apply take_efd_passes block skt
      simp [Passed,granted,socket,connected,received]
    · rename_i unreceived
      exact no_client_passes alone fun passed => unreceived passed.2.2.2.1
  · rename_i unconnected
    exact no_client_passes alone fun passed => unconnected passed.2.2.1

-- A descriptor that a server passed is never closed, neither when the client is deleted
-- nor when it could not be made after all; everything else is.
theorem event_client_leaks (o : ClientOutcomes) : ∃ client t efd, cplus_event_client_connect o opened = .ok (client,t) ∧
    (client.isSome = true ↔ Passed o ∧ o.acknowledged = true) ∧ (∀ made, client = some made → made.server_efd = efd) ∧
    (efd.isSome = true ↔ Passed o) ∧
    ∃ u, whenSome cplus_event_client_delete client t = .ok ((),u) ∧ Ownership.Holds u (ownedBy ({·}) efd) := by
  obtain ⟨client,t,_,ran,⟨efd,rfl,came,made,its⟩,holds⟩ := connect_passes o opened 0 holds_opened
  have deleted : Discharges (ownedBy EventClient.owns client) (whenSome cplus_event_client_delete client) :=
    .whenSome fun client _ => client_deleted client
  rw [add_zero] at holds
  obtain ⟨_,u,_,ended,rfl,remains⟩ := deleted t (ownedBy ({·}) efd) holds
  rw [zero_add] at remains
  exact ⟨client,t,efd,ran,made,its,came,u,ended,remains⟩

end Libcplus.EventConstruction
