import Mathlib.Data.Finset.Range
import Mathlib.Logic.Function.Basic
import Libcplus.BlockPool
import Libcplus.Ipc.Parser
import Libcplus.Transition

-- The connections of an IPC server: the blocks and the sockets they take, and who
-- gives them back.
namespace Libcplus.Ipc.Server
open Transition BlockPool

-- Where the task of a connection stands in ipc_conn_proc.
inductive ConnTask where
  | testing
  | receiving
  | disconnecting
  | closing
  -- conn->sock is deleted, and not NULL yet.
  | clearing
  | failing (errno : Errno)
  deriving DecidableEq

-- The section is entered to close the socket.
def ConnTask.inside : ConnTask → Bool
  | .closing | .clearing => true
  | _ => false

-- struct ipc_conn, less what the parser uses: a null conn_task is `none`, as is one
-- that has been stopped.
structure Connection where
  status : Status
  sock : Option Nat
  conn_task : Option ConnTask
  deriving DecidableEq

-- The parts of ipc_conn_delete.
inductive Release where
  | marking
  | stopping
  | closing
  | freeing
  deriving DecidableEq

def Release.next : Release → Option Release
  | .marking => some .stopping
  | .stopping => some .closing
  | .closing => some .freeing
  | .freeing => none

-- Where the accept task stands in ipc_server_proc. It releases a connection from its
-- purge loop, in the section, or from a creation that failed.
inductive AcceptTask where
  | entering
  | purging
  | releasing (conn : Nat) (stage : Release) (purge : Bool)
  | accepting
  | holding (sock : Nat)
  | creating (conn : Nat)
  | starting (conn : Nat)
  | pushing (conn : Nat)
  | ended
  deriving DecidableEq

-- Where the call of ipc_server_delete stands.
inductive Deleter where
  | idle
  | stopping
  | popping
  | releasing (conn : Nat) (stage : Release)
  | freeing (conn : Nat)
  | done
  deriving DecidableEq

inductive Owner where
  | accept_task
  | conn_task (conn : Nat)
  deriving DecidableEq

structure Node where
  node : Nat
  conn : Nat
  deriving DecidableEq

end Server

-- struct ipc_server, with the connections in the blocks of its pool, the node pool of
-- its list, and a record of what was taken and given back so far. Accepted sockets
-- are numbered.
structure Server where
  max_conn : Nat
  ipc_conn_sect : Option Server.Owner
  ipc_conn_list : List Server.Node
  node_pool : Finset Nat
  ipc_conn_pool : Finset Nat
  free_blocks_count : Nat
  conn : Nat → Server.Connection
  taken : List Nat
  returned : List Nat
  opened : Nat
  closed : List Nat
  accept_task : Server.AcceptTask
  deleter : Server.Deleter

namespace Server
open Transition BlockPool

def ipc_server_new (max_connection : Nat) : Server where
  max_conn := max_connection
  ipc_conn_sect := none
  ipc_conn_list := []
  node_pool := ∅
  ipc_conn_pool := ∅
  free_blocks_count := max_connection
  conn := fun _ => ⟨.not_connected,none,none⟩
  taken := []
  returned := []
  opened := 0
  closed := []
  accept_task := .entering
  deleter := .idle

def cplus_ipc_server_new (max_connection : Nat) : Option Server :=
  if 0 < max_connection then some (ipc_server_new max_connection) else none

abbrev blocks (s : Server) : Finset Nat := Finset.range s.max_conn

def cplus_mempool_alloc (s : Server) (block : Nat) : Server :=
  {s with
    ipc_conn_pool := insert block s.ipc_conn_pool
    free_blocks_count := s.free_blocks_count - 1
    taken := block :: s.taken}

-- The pool does not look whether the block is live.
def cplus_mempool_free (s : Server) (block : Nat) : Server :=
  {s with
    ipc_conn_pool := s.ipc_conn_pool.erase block
    free_blocks_count := s.free_blocks_count + 1
    returned := block :: s.returned}

def cplus_socket_delete (s : Server) (sock : Option Nat) : Server :=
  {s with closed := sock.toList ++ s.closed}

def set (s : Server) (conn : Nat) (c : Connection) : Server :=
  {s with conn := Function.update s.conn conn c}

-- ipc_conn_delete. The task is joined, or cancelled wherever it stands; conn->sock
-- keeps its value.
def release (s : Server) (conn : Nat) : Release → Server
  | .marking => s.set conn {s.conn conn with status := .not_connected}
  | .stopping => s.set conn {s.conn conn with conn_task := none}
  | .closing => s.cplus_socket_delete (s.conn conn).sock
  | .freeing => s.cplus_mempool_free conn

-- One step of a connection's task, with what its recv brings.
def ipc_conn_proc (s : Server) (conn : Nat) (received : Received) : Option Server :=
  let c := s.conn conn
  match c.conn_task with
  | none => none
  | some .testing =>
    if c.status = .not_connected then some s
    else some (s.set conn {c with conn_task := some .receiving})
  | some .receiving =>
    match received with
    | .closed => some (s.set conn {c with conn_task := some .disconnecting})
    | .error errno => some (s.set conn {c with conn_task := some (.failing errno)})
    | .data _ => some (s.set conn {c with status := .connected,conn_task := some .testing})
  | some .disconnecting =>
    if s.ipc_conn_sect = none then
      some {s.set conn {c with conn_task := some .closing} with ipc_conn_sect := some (.conn_task conn)}
    else none
  | some .closing =>
    some ((s.cplus_socket_delete c.sock).set conn {c with conn_task := some .clearing})
  | some .clearing =>
    some {s.set conn ⟨.not_connected,none,some .testing⟩ with ipc_conn_sect := none}
  | some (.failing errno) =>
    if s.ipc_conn_sect = none then
      some (s.set conn {c with
        status := match errno with
          | .ETIMEDOUT => .timeout
          | .ENOTCONN => .not_connected
          | .EINTR => c.status
          | _ => .fault
        conn_task := some .testing})
    else none

def find_disconnect_conn (s : Server) (n : Node) : Bool := (s.conn n.conn).status = .not_connected

-- One step of the accept task. A call that can fail succeeds when `ok` says so, and
-- a pool gives `answer`.
def ipc_server_proc (s : Server) (ok : Bool) (answer : Option Nat) : Option Server :=
  match s.accept_task with
  | .entering =>
    if s.ipc_conn_sect = none then
      some {s with ipc_conn_sect := some .accept_task,accept_task := .purging}
    else none
  | .purging =>
    match s.ipc_conn_list.find? s.find_disconnect_conn with
    | some n => some {s with
        ipc_conn_list := s.ipc_conn_list.eraseP s.find_disconnect_conn
        node_pool := s.node_pool.erase n.node
        accept_task := .releasing n.conn .marking true}
    | none => some {s with
        ipc_conn_sect := none
        accept_task := if s.ipc_conn_list.length < s.max_conn then .accepting else .entering}
  | .releasing conn stage purge => some {s.release conn stage with
      accept_task :=
        match stage.next with
        | some stage => .releasing conn stage purge
        | none => if purge then .purging else .entering}
  | .accepting =>
    if ok then some {s with opened := s.opened + 1,accept_task := .holding s.opened}
    else some {s with accept_task := .entering}
  -- When the pool has no block, nobody deletes the socket.
  | .holding sock =>
    if Grants s.blocks s.ipc_conn_pool answer then
      match answer with
      | some conn => some {(s.cplus_mempool_alloc conn).set conn ⟨.not_connected,some sock,none⟩ with
          accept_task := .creating conn}
      | none => some {s with accept_task := .entering}
    else none
  | .creating conn =>
    if ok then
      some {s.set conn {s.conn conn with conn_task := some .testing} with accept_task := .starting conn}
    else some {s with accept_task := .releasing conn .marking false}
  | .starting conn =>
    some {s.set conn {s.conn conn with status := .connected} with accept_task := .pushing conn}
  -- When the list has no node, the connection is in no place any more.
  | .pushing conn =>
    if s.ipc_conn_sect = none then
      if Grants s.blocks s.node_pool answer then
        match answer with
        | some node => some {s with
            ipc_conn_list := ⟨node,conn⟩ :: s.ipc_conn_list
            node_pool := insert node s.node_pool
            accept_task := .entering}
        | none => some {s with accept_task := .entering}
      else none
    else none
  | .ended => none

-- One step of the delete. The accept task is joined between two iterations, or
-- cancelled wherever it stands.
def ipc_server_delete (s : Server) : Option Server :=
  match s.deleter with
  | .idle => some {s with deleter := .stopping}
  | .stopping => some {s with accept_task := .ended,deleter := .popping}
  | .popping =>
    match s.ipc_conn_list.getLast? with
    | some n => some {s with
        ipc_conn_list := s.ipc_conn_list.dropLast
        node_pool := s.node_pool.erase n.node
        deleter := .releasing n.conn .marking}
    | none => some {s with deleter := .done}
  | .releasing conn stage => some {s.release conn stage with
      deleter :=
        match stage.next with
        | some stage => .releasing conn stage
        | none => .freeing conn}
  | .freeing conn => some {s.cplus_mempool_free conn with deleter := .popping}
  | .done => none

inductive Action where
  | conn (conn : Nat) (received : Received)
  | accept (ok : Bool) (answer : Option Nat)
  | delete
  deriving DecidableEq

def advance (s : Server) : Action → Option Server
  | .conn conn received => if s.deleter = .done then none else s.ipc_conn_proc conn received
  | .accept ok answer => s.ipc_server_proc ok answer
  | .delete => s.ipc_server_delete

abbrev Step : Server → Action → Server → Prop := Follows advance

-- The connection a thread has in its hands, which is not in the list.
def AcceptTask.conns : AcceptTask → List Nat
  | .releasing conn _ _ | .creating conn | .starting conn | .pushing conn => [conn]
  | _ => []

def Deleter.conns : Deleter → List Nat
  | .releasing conn _ => [conn]
  | _ => []

-- The same, as long as its socket is not deleted.
def AcceptTask.unclosed : AcceptTask → List Nat
  | .releasing _ .freeing _ => []
  | task => task.conns

def Deleter.unclosed : Deleter → List Nat
  | .releasing _ .freeing => []
  | deleter => deleter.conns

def AcceptTask.socks : AcceptTask → List Nat
  | .holding sock => [sock]
  | _ => []

-- The live connections, each in the hands of a thread or in the list.
def conns (s : Server) : List Nat :=
  s.accept_task.conns ++ s.deleter.conns ++ s.ipc_conn_list.map Node.conn

def unclosed (s : Server) : List Nat :=
  s.accept_task.unclosed ++ s.deleter.unclosed ++ s.ipc_conn_list.map Node.conn

-- The socket a connection still has to close.
def Connection.owned (c : Connection) : Option Nat :=
  if c.conn_task = some .clearing then none else c.sock

def socks (s : Server) : List Nat :=
  s.accept_task.socks ++ s.unclosed.flatMap fun conn => (s.conn conn).owned.toList

-- A block taken from the pool is with one live connection, or was returned; a socket
-- is open with one of them, or was closed. Once the server is deleted none is left.
structure Accounted (s : Server) : Prop where
  pool : Balanced s.blocks s.ipc_conn_pool s.conns
  count : s.free_blocks_count + s.conns.length = s.max_conn
  size : s.ipc_conn_list.length ≤ s.max_conn
  returns : (s.returned ++ s.conns).Perm s.taken
  closes : (s.closed ++ s.socks).Perm (List.range s.opened)
  done : s.deleter = .done → s.returned.Perm s.taken ∧ s.free_blocks_count = s.max_conn ∧
    s.closed.Perm (List.range s.opened)

-- The steps that go wrong: the accept task is ended with a socket or a connection in
-- its hands, or the delete finds a connection in the list.
def ClearAt (s : Server) : Deleter → Prop
  | .stopping => s.accept_task.conns = [] ∧ s.accept_task.socks = []
  | .popping => s.ipc_conn_list = []
  | _ => True

instance (s : Server) (deleter : Deleter) : Decidable (s.ClearAt deleter) := by
  cases deleter <;> unfold ClearAt <;> infer_instance

def Clear (s : Server) : Action → Prop
  | .delete => s.ClearAt s.deleter
  | _ => True

instance (s : Server) (a : Action) : Decidable (Clear s a) := by
  cases a <;> unfold Clear <;> infer_instance

-- The delete is not in the middle of its loop.
def Deleter.settled : Deleter → Bool
  | .releasing _ _ | .freeing _ => false
  | _ => true

end Server
end Libcplus.Ipc
