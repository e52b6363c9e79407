import Mathlib.Algebra.Group.Int.Defs
import Libcplus.Memory
import Libcplus.Typedef

namespace Libcplus.Ipc
open Bytes Typedef

def DEFAULT_RECEVICE_BUFFER_SIZE : Nat := 512
def MAX_PACKET_DATA_SIZE : Nat := 16 * DEFAULT_RECEVICE_BUFFER_SIZE
def DEFAULT_PACKET_DATA_SIZE : Nat := 512
def IPC_CONN_PACKET_TAG_SIZE : Nat := 3

-- The string literals "STX" and "ETX" with their terminating NUL.
def IPC_CONN_PACKET_BEGIN_TAG : List UInt8 := [0x53,0x54,0x58,0]
def IPC_CONN_PACKET_END_TAG : List UInt8 := [0x45,0x54,0x58,0]

def IPC_CMD_HEARTBEAT : UInt8 := 0
def IPC_CMD_ONEWAY : UInt8 := 1
def IPC_CMD_REQUEST : UInt8 := 2
def IPC_CMD_RESPONSE : UInt8 := 3
def IPC_CMD_ACK : UInt8 := 4
def IPC_CMD_MAX : UInt8 := 5

-- struct ipc_conn_packet. What `data` points to differs between a packet to be
-- sent (the caller's bytes) and the one of a connection (its payload buffer).
structure Packet (Data : Type) where
  seqn : UInt8
  cmd : UInt8
  data_len : Nat
  data : Data
  deriving DecidableEq, Repr

-- A packet as it travels: a command the sender's check admits, and no more data
-- than the receiver takes.
structure WirePacket where
  seqn : UInt8
  cmd : UInt8
  data : List UInt8
  command : cmd < IPC_CMD_MAX
  room : data.length ≤ MAX_PACKET_DATA_SIZE
  deriving DecidableEq, Repr

-- What the six sends of ipc_send_packet are given, in order; the data only when
-- there is some.
def pieces (packet : Packet (Option (List UInt8))) : List (List UInt8) :=
  let data := match packet.data with
    | some bytes => if 0 < packet.data_len then [bytes.take packet.data_len] else []
    | none => []
  [IPC_CONN_PACKET_BEGIN_TAG.take IPC_CONN_PACKET_TAG_SIZE,[packet.seqn],[packet.cmd],
    bigEndian32 packet.data_len] ++ data ++ [IPC_CONN_PACKET_END_TAG.take IPC_CONN_PACKET_TAG_SIZE]

-- (int32_t) of a uint32_t.
def int32 (n : Nat) : Int := if n % 2^32 < 2^31 then (n % 2^32 : Nat) else (n % 2^32 : Nat) - 2^32

-- One send: a length that is not positive as an int32_t is refused, otherwise
-- the result is the system's.
def cplus_socket_send (outcome : Int) (data_len : Nat) : Int :=
  if int32 data_len ≤ 0 then CPLUS_FAIL else outcome

-- Each piece goes out in turn until one is not taken whole. The second result
-- is what the system was given.
def send_each (send : Nat → Int) : Nat → List (List UInt8) → Bool × List (List UInt8)
  | _,[] => (true,[])
  | k,piece :: rest =>
    if (piece.length : Int) = cplus_socket_send (send k) piece.length then
      let later := send_each send (k+1) rest
      (later.1,piece :: later.2)
    else (false,[piece])

-- `send k` is what the k-th send of this call returns. The result is the count
-- of the data's own send, which stays 0 when there is no data.
def ipc_send_packet (send : Nat → Int) (packet : Packet (Option (List UInt8))) :
    Int × List (List UInt8) :=
  if IPC_CMD_MAX - 1 < packet.cmd then (CPLUS_FAIL,[])
  else if 0 < packet.data_len ∧ packet.data = none then (CPLUS_FAIL,[])
  else
    let sent := send_each send 0 (pieces packet)
    (if sent.1 then (packet.data_len : Int) else CPLUS_FAIL,sent.2)

def encode (packet : WirePacket) : List UInt8 :=
  IPC_CONN_PACKET_BEGIN_TAG.take IPC_CONN_PACKET_TAG_SIZE ++ [packet.seqn,packet.cmd] ++
    bigEndian32 packet.data.length ++ packet.data ++
    IPC_CONN_PACKET_END_TAG.take IPC_CONN_PACKET_TAG_SIZE

def encodeAll (packets : List WirePacket) : List UInt8 := packets.flatMap encode

def WirePacket.packet (packet : WirePacket) : Packet (Option (List UInt8)) :=
  ⟨packet.seqn,packet.cmd,packet.data.length,some packet.data⟩

theorem int32_small {n : Nat} (small : n < 2^31) : int32 n = n := by
  have same : n % 2^32 = n := Nat.mod_eq_of_lt (by omega)
  rw [int32,same,if_pos small]

theorem encodeAll_cons (packet : WirePacket) (rest : List WirePacket) :
    encodeAll (packet :: rest) = encode packet ++ encodeAll rest := List.flatMap_cons

theorem WirePacket.small (packet : WirePacket) : packet.data.length < 2^32 := by
  have := packet.room
  simp only [MAX_PACKET_DATA_SIZE,DEFAULT_RECEVICE_BUFFER_SIZE] at this
  omega

theorem pieces_flatten (packet : WirePacket) : (pieces packet.packet).flatten = encode packet := by
  by_cases data : 0 < packet.data.length
  · simp [pieces,WirePacket.packet,encode,data]
  · have empty : packet.data = [] := List.length_eq_zero_iff.mp (by omega)
    simp [pieces,WirePacket.packet,encode,empty]

-- A send is taken whole when it returns the length it was given.
def TakesAll (send : Nat → Int) (k : Nat) (given : List (List UInt8)) : Prop :=
  ∀ i piece, given[i]? = some piece → send (k+i) = piece.length

theorem send_each_takes (send : Nat → Int) (k : Nat) (given : List (List UInt8))
    (sizes : ∀ piece ∈ given, 0 < piece.length ∧ piece.length < 2^31)
    (taken : TakesAll send k given) : send_each send k given = (true,given) := by
  induction given generalizing k with
  | nil => rfl
  | cons piece rest ih =>
    obtain ⟨positive,small⟩ := sizes piece (by simp)
    have first : send k = piece.length := taken 0 piece rfl
    have accepted : ¬ int32 piece.length ≤ 0 := by rw [int32_small small]; omega
    have later := ih (k+1) (fun p member => sizes p (List.mem_cons_of_mem _ member))
      fun i p there => by
        have := taken (i+1) p there
        rwa [show k + (i + 1) = k + 1 + i by omega] at this
    simp [send_each,cplus_socket_send,accepted,first,later]

theorem int32_positive {n : Nat} (small : n < 2^32) (positive : ¬ int32 n ≤ 0) : 0 < n ∧ n < 2^31 := by
  have same : n % 2^32 = n := Nat.mod_eq_of_lt small
  unfold int32 at positive
  rw [same] at positive
  split at positive <;> omega

theorem send_each_parts (send : Nat → Int) (k : Nat) (given : List (List UInt8))
    (all : (send_each send k given).1 = true) :
    TakesAll send k given ∧ ∀ piece ∈ given, ¬ int32 piece.length ≤ 0 := by
  induction given generalizing k with
  | nil => exact ⟨fun i piece there => (nomatch there),fun piece member => (nomatch member)⟩
  | cons piece rest ih =>
    unfold send_each at all
    split at all
    · rename_i whole
      obtain ⟨later,sizes⟩ := ih (k+1) all
      have accepted : ¬ int32 piece.length ≤ 0 := fun refused => by
        rw [cplus_socket_send,if_pos refused] at whole
        simp only [CPLUS_FAIL] at whole
        omega
      rw [cplus_socket_send,if_neg accepted] at whole
      refine ⟨fun i p there => ?_,fun p member => ?_⟩
      · cases i with
        | zero => cases there; exact whole.symm
        | succ i =>
          have := later i p there
          rwa [show k + 1 + i = k + (i + 1) by omega] at this
      · rcases List.mem_cons.mp member with rfl | old
        · exact accepted
        · exact sizes p old
    · cases all

-- What reaches the peer when every send takes all it is given is the encoding.
theorem send_packet_encodes (send : Nat → Int) (packet : WirePacket)
    (taken : TakesAll send 0 (pieces packet.packet)) :
    (ipc_send_packet send packet.packet).1 = packet.data.length ∧
      (ipc_send_packet send packet.packet).2.flatten = encode packet := by
  have sizes : ∀ piece ∈ pieces packet.packet, 0 < piece.length ∧ piece.length < 2^31 := by
    have room := packet.room
    simp only [MAX_PACKET_DATA_SIZE,DEFAULT_RECEVICE_BUFFER_SIZE] at room
    intro piece member
    by_cases data : 0 < packet.data.length
    · simp [pieces,WirePacket.packet,data,IPC_CONN_PACKET_BEGIN_TAG,IPC_CONN_PACKET_END_TAG,
        IPC_CONN_PACKET_TAG_SIZE] at member
      rcases member with rfl | rfl | rfl | rfl | rfl | rfl <;> simp
      omega
    · simp [pieces,WirePacket.packet,data,IPC_CONN_PACKET_BEGIN_TAG,IPC_CONN_PACKET_END_TAG,
        IPC_CONN_PACKET_TAG_SIZE] at member
      rcases member with rfl | rfl | rfl | rfl | rfl <;> simp
  have all := send_each_takes send 0 _ sizes taken
  have command : ¬ IPC_CMD_MAX - 1 < packet.cmd := by
    have := packet.command
    simp only [IPC_CMD_MAX,UInt8.lt_iff_toNat_lt] at this ⊢
    simp at this ⊢
    omega
  have pointed : ¬ (0 < packet.packet.data_len ∧ packet.packet.data = none) := by
    simp [WirePacket.packet]
  unfold ipc_send_packet
  rw [if_neg (by exact command),if_neg pointed,all]
  exact ⟨rfl,pieces_flatten packet⟩

end Libcplus.Ipc
