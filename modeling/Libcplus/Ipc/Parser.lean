import Libcplus.Ipc.Packet

namespace Libcplus.Ipc
open Bytes Memory Typedef

inductive Status where
  | not_connected
  | connected
  | timeout
  | fault
  deriving DecidableEq, Repr

inductive Stage where
  | recv_head
  | recv_seqn
  | recv_cmd
  | recv_data_len
  | recv_data
  | recv_tail
  | recv_completed
  deriving DecidableEq, Repr

-- The codes that ipc_conn_proc tells apart, EAGAIN, which cplus_pevent_wait
-- sets, and EILSEQ and EINVAL, which the client sets.
inductive Errno where
  | EBADF
  | EFAULT
  | EINVAL
  | ENOMEM
  | ETIMEDOUT
  | ENOTCONN
  | EINTR
  | EAGAIN
  | EILSEQ
  | other (code : Nat)
  deriving DecidableEq, Repr

-- packet.data is NULL or it was set to packet_databufs.
inductive Pointer where
  | null
  | packet_databufs
  deriving DecidableEq, Repr

-- struct ipc_conn, less the sockets and the callbacks' own data. A null
-- evt_packet_received is `none`, otherwise the flag says whether the event is
-- set; sock_error 0 is `none`. `allocations` counts the calls to the allocator.
structure Conn where
  is_async : Bool
  recv_timeout : Nat
  status : Status
  sock_error : Option Errno
  recv_stage : Stage
  evt_packet_received : Option Bool
  packet : Packet Pointer
  recv_count : Int
  recv_bufs : List UInt8
  recv_bufs_size : Nat
  recv_bufs_offset : Nat
  sub_offset : Nat
  packet_databufs : Option (List UInt8)
  packet_databufs_size : Nat
  packet_databufs_offset : Nat
  allocations : Nat
  deriving DecidableEq, Repr

-- What the completion callback sees.
structure Delivered where
  seqn : UInt8
  cmd : UInt8
  data_len : Nat
  data : List UInt8
  deriving DecidableEq, Repr

-- ipc_conn_create with both of its own allocations successful.
def ipc_conn_create (is_async : Bool) : Conn where
  is_async := is_async
  recv_timeout := CPLUS_INFINITE_TIMEOUT
  status := .not_connected
  sock_error := none
  recv_stage := .recv_head
  evt_packet_received := if is_async then none else some false
  packet := ⟨0,0,0,.null⟩
  recv_count := 0
  recv_bufs := List.replicate DEFAULT_RECEVICE_BUFFER_SIZE 0
  recv_bufs_size := DEFAULT_RECEVICE_BUFFER_SIZE
  recv_bufs_offset := 0
  sub_offset := 0
  packet_databufs := none
  packet_databufs_size := DEFAULT_PACKET_DATA_SIZE
  packet_databufs_offset := 0
  allocations := 0

-- The callers set the status right after: ipc_server_proc and ipc_client_new.
def connected (is_async : Bool) : Conn := {ipc_conn_create is_async with status := .connected}

-- uint32_t subtraction.
def sub32 (a b : Nat) : Nat := (a + 2^32 - b) % 2^32

theorem sub32_le {a b : Nat} (le : b ≤ a) (small : a < 2^32) : sub32 a b = a - b := by
  unfold sub32
  omega

def consume (c : Conn) : Conn := {c with recv_bufs_offset := c.recv_bufs_offset + 1}

def enter_stage (c : Conn) (stage : Stage) : Conn := {c with recv_stage := stage}

-- "Drop this packet, re-pick a new one."
def drop_packet (c : Conn) : Conn := {c with recv_stage := .recv_head,sub_offset := 0}

def delivered (c : Conn) : Delivered :=
  ⟨c.packet.seqn,c.packet.cmd,c.packet.data_len,
    match c.packet.data with
    | .null => []
    | .packet_databufs => (c.packet_databufs.getD []).take c.packet.data_len⟩

-- cplus_pevent_reset and cplus_pevent_set, where the connection has an event.
def reset_event (c : Conn) : Conn :=
  {c with evt_packet_received := c.evt_packet_received.map fun _ => false}

def set_event (c : Conn) : Conn :=
  {c with evt_packet_received := c.evt_packet_received.map fun _ => true}

-- The stages below read their byte through the checked index: `none` is an
-- access outside a tag table, recv_bufs or the payload buffer.
def recv_head (c : Conn) : Option (Conn × Option Delivered) :=
  (IPC_CONN_PACKET_BEGIN_TAG[c.sub_offset]?).bind fun expected =>
    (c.recv_bufs[c.recv_bufs_offset]?).map fun byte =>
      if expected = byte then
        let next := {c with sub_offset := c.sub_offset + 1}
        if IPC_CONN_PACKET_TAG_SIZE ≤ next.sub_offset then
          (consume {reset_event next with recv_stage := .recv_seqn,sub_offset := 0},none)
        else (consume next,none)
      else (consume (drop_packet c),none)

def recv_seqn (c : Conn) : Option (Conn × Option Delivered) :=
  (c.recv_bufs[c.recv_bufs_offset]?).map fun byte =>
    (consume {c with packet := {c.packet with seqn := byte},recv_stage := .recv_cmd},none)

def recv_cmd (c : Conn) : Option (Conn × Option Delivered) :=
  (c.recv_bufs[c.recv_bufs_offset]?).map fun byte =>
    (consume {c with packet := {c.packet with cmd := byte},recv_stage := .recv_data_len},none)

-- The value shifts by (sub_offset? 8: 0), and the first byte finds it 0. Dropping
-- a packet that is too long comes to nothing: the stage is set again below.
def recv_data_len (c : Conn) : Option (Conn × Option Delivered) :=
  let data_len := if c.sub_offset = 0 then 0 else c.packet.data_len
  if c.sub_offset < 4 then
    (c.recv_bufs[c.recv_bufs_offset]?).map fun byte =>
      (consume {c with
        packet := {c.packet with data_len := readNext data_len byte}
        sub_offset := c.sub_offset + 1},none)
  else
    let next := {c with packet := {c.packet with data_len := data_len},sub_offset := 0}
    let next := if MAX_PACKET_DATA_SIZE < next.packet.data_len then drop_packet next else next
    if 0 < data_len then some (enter_stage next .recv_data,none)
    else some (enter_stage next .recv_tail,none)

section
variable (outcome : Nat → Outcome)

-- A buffer of data_len bytes in place of none or of one that is too small.
def enlarge (c : Conn) : Option (List UInt8) :=
  match c.packet_databufs with
  | none => cplus_malloc (outcome c.allocations) c.packet.data_len
  | some old => cplus_realloc (outcome c.allocations) old c.packet.data_len

-- The first half of RECV_DATA. A failed realloc forgets the old block and keeps
-- the old size.
def provide_databufs (c : Conn) : Option Conn :=
  if c.packet_databufs_size < c.packet.data_len then
    match enlarge outcome c with
    | none => some {c with packet_databufs := none,allocations := c.allocations + 1}
    | some block => (cplus_mem_set (some block) 0 c.packet.data_len).map fun cleared =>
        {c with
          packet_databufs := cleared.2
          packet_databufs_size := c.packet.data_len
          allocations := c.allocations + 1}
  else
    match c.packet_databufs with
    | some _ => some c
    | none =>
      let block := cplus_malloc (outcome c.allocations) c.packet_databufs_size
      (cplus_mem_set block 0 c.packet_databufs_size).map fun cleared =>
        {c with packet_databufs := cleared.2,allocations := c.allocations + 1}

-- One pass copies what the packet still lacks, or the room from the offset to
-- the end of recv_bufs, whichever is less.
def copy_databufs (c : Conn) : Option Conn :=
  let diff := min (sub32 c.packet.data_len c.packet_databufs_offset)
    (sub32 c.recv_bufs_size c.recv_bufs_offset)
  (cplus_mem_cpy_ex c.packet_databufs c.packet_databufs_offset diff
      (some c.recv_bufs) c.recv_bufs_offset diff).map fun copied =>
    {c with
      packet := {c.packet with data := .packet_databufs}
      packet_databufs := copied.2
      packet_databufs_offset := c.packet_databufs_offset + diff
      recv_bufs_offset := c.recv_bufs_offset + diff}

def finish_data (c : Conn) : Conn :=
  if sub32 c.packet.data_len c.packet_databufs_offset ≤ 0 then
    {c with recv_stage := .recv_tail,packet_databufs_offset := 0}
  else c

def recv_data (c : Conn) : Option (Conn × Option Delivered) :=
  (provide_databufs outcome c).bind fun c =>
    match c.packet_databufs with
    | none => some (drop_packet c,none)
    | some _ => (copy_databufs c).map fun c => (finish_data c,none)

-- With an event, the asynchronous branch leaves the switch before the offset
-- moves past the last byte of the end tag.
def recv_tail (c : Conn) : Option (Conn × Option Delivered) :=
  (IPC_CONN_PACKET_END_TAG[c.sub_offset]?).bind fun expected =>
    (c.recv_bufs[c.recv_bufs_offset]?).map fun byte =>
      if expected = byte then
        let next := {c with sub_offset := c.sub_offset + 1}
        if IPC_CONN_PACKET_TAG_SIZE ≤ next.sub_offset then
          let done := drop_packet next
          match done.evt_packet_received with
          | some _ =>
            let set := set_event done
            if set.is_async then (set,some (delivered done)) else (consume set,some (delivered done))
          | none => (consume done,some (delivered done))
        else (consume next,none)
      else (consume (drop_packet c),none)

-- The body of the while loop of ipc_packet_analyze, with what the completion
-- callback is called on.
def iterate (c : Conn) : Option (Conn × Option Delivered) :=
  match c.recv_stage with
  | .recv_head | .recv_completed => recv_head c
  | .recv_seqn => recv_seqn c
  | .recv_cmd => recv_cmd c
  | .recv_data_len => recv_data_len c
  | .recv_data => recv_data outcome c
  | .recv_tail => recv_tail c

-- `none` is a faulting access, or a fuel that did not last.
def analyze_loop (walker_count : Nat) : Nat → Conn → Option (Conn × List Delivered)
  | 0,c => if c.recv_bufs_offset < walker_count then none else some (c,[])
  | fuel+1,c =>
    if c.recv_bufs_offset < walker_count then
      (iterate outcome c).bind fun pass =>
        (analyze_loop walker_count fuel pass.1).map fun rest =>
          (rest.1,pass.2.toList ++ rest.2)
    else some (c,[])

def walker_count (c : Conn) : Nat := c.recv_count.toNat + c.recv_bufs_offset

-- At most two passes in a row consume nothing.
def ipc_packet_analyze (c : Conn) : Option (Conn × List Delivered) :=
  analyze_loop outcome (walker_count c) (3 * c.recv_count.toNat + 3) c

-- What one cplus_socket_recv brings: bytes, the peer's orderly shutdown, or an
-- error with its errno.
inductive Received where
  | data (bytes : List UInt8)
  | closed
  | error (errno : Errno)
  deriving DecidableEq, Repr

def wrap_offset (c : Conn) : Conn :=
  if c.recv_bufs_size ≤ c.recv_bufs_offset then {c with recv_bufs_offset := 0} else c

def store_received (c : Conn) : Received → Option Conn
  | .data bytes => (splice c.recv_bufs c.recv_bufs_offset bytes).map fun recv_bufs =>
      {c with
        recv_bufs := recv_bufs
        recv_count := bytes.length
        sock_error := none
        status := .connected}
  | .closed => some {c with recv_count := 0,status := .not_connected}
  | .error errno => some {c with
      recv_count := -1
      sock_error := some errno
      status := match errno with
        | .ETIMEDOUT => .timeout
        | .ENOTCONN => .not_connected
        | .EINTR => c.status
        | _ => .fault}

-- ipc_conn_proc up to the call of ipc_packet_analyze.
def ipc_conn_recv (c : Conn) (received : Received) : Option Conn :=
  store_received (wrap_offset c) received

-- The room a recv has, hence what the system can return from it.
def recv_room (c : Conn) : Nat :=
  (wrap_offset c).recv_bufs_size - (wrap_offset c).recv_bufs_offset

def ipc_conn_proc (c : Conn) (received : Received) : Option (Conn × List Delivered) :=
  if c.status = .not_connected then some (c,[])
  else (ipc_conn_recv c received).bind fun c =>
    match received with
    | .data _ => ipc_packet_analyze outcome c
    | _ => some (c,[])

end

end Libcplus.Ipc
