import Mathlib.Tactic.IntervalCases
import Libcplus.Ipc.Stream

namespace Libcplus.Ipc
open Bytes Memory Transducer

def WirePacket.delivered (packet : WirePacket) : Delivered :=
  ⟨packet.seqn,packet.cmd,packet.data.length,packet.data⟩

-- Begin tag, sequence number, command and length.
def HEADER_SIZE : Nat := 9

def header (seqn cmd : UInt8) (length : Nat) : List UInt8 :=
  IPC_CONN_PACKET_BEGIN_TAG.take IPC_CONN_PACKET_TAG_SIZE ++ [seqn,cmd] ++ bigEndian32 length

def trailer : List UInt8 := IPC_CONN_PACKET_END_TAG.take IPC_CONN_PACKET_TAG_SIZE

theorem encode_parts (packet : WirePacket) :
    encode packet = header packet.seqn packet.cmd packet.data.length ++ (packet.data ++ trailer) := by
  simp [encode,header,trailer]

theorem header_length (seqn cmd : UInt8) (length : Nat) :
    (header seqn cmd length).length = HEADER_SIZE := rfl

theorem feed_header (seqn cmd : UInt8) {length : Nat} (small : length < 2^32) :
    feedAll feed (.head 0) (header seqn cmd length) = (begun seqn cmd length,[.header]) := by
  have read := bigEndian32_read small
  obtain ⟨a,b,c,d,bytes⟩ : ∃ a b c d, bigEndian32 length = [a,b,c,d] := ⟨_,_,_,_,rfl⟩
  rw [bytes] at read
  simp only [List.foldl_cons,List.foldl_nil] at read
  simp [header,IPC_CONN_PACKET_BEGIN_TAG,IPC_CONN_PACKET_TAG_SIZE,bytes,feedAll_cons,feed,read]

theorem feed_data (seqn cmd : UInt8) (data : List UInt8) :
    feedAll feed (begun seqn cmd data.length) data =
      (.tail seqn cmd data.length data 0,[]) := by
  by_cases some : 0 < data.length
  · rw [begun,if_pos some,feed_payload _ _ _ _ _ (by simp) (by simpa using some)]
    simp
  · have empty : data = [] := List.length_eq_zero_iff.mp (by omega)
    simp [begun,empty]

theorem feed_trailer (seqn cmd : UInt8) (length : Nat) (payload : List UInt8) :
    feedAll feed (.tail seqn cmd length payload 0) trailer =
      (.head 0,[.packet ⟨seqn,cmd,length,payload⟩]) := by
  simp [trailer,IPC_CONN_PACKET_END_TAG,IPC_CONN_PACKET_TAG_SIZE,feedAll_cons,feed]

-- What one packet signals: its begin tag, then itself.
def WirePacket.signals (packet : WirePacket) : List Signal := [.header,.packet packet.delivered]

theorem feed_encode (packet : WirePacket) :
    feedAll feed (.head 0) (encode packet) = (.head 0,packet.signals) := by
  rw [encode_parts,feedAll_append,feed_header _ _ packet.small,feedAll_append,feed_data,feed_trailer]
  rfl

-- The scanner undoes the encoding.
theorem feed_encodeAll (packets : List WirePacket) :
    feedAll feed (.head 0) (encodeAll packets) = (.head 0,packets.flatMap WirePacket.signals) := by
  induction packets with
  | nil => rfl
  | cons packet rest ih =>
    rw [encodeAll_cons,feedAll_append,feed_encode,ih]
    rfl

theorem signals_completed (packets : List WirePacket) :
    (packets.flatMap WirePacket.signals).filterMap Signal.completed =
      packets.map WirePacket.delivered := by
  induction packets with
  | nil => rfl
  | cons packet rest ih =>
    rw [List.flatMap_cons,List.filterMap_append,ih]
    rfl

-- A position in the encoded stream that lies strictly inside some packet's data.
def InsideData : List WirePacket → Nat → Prop
  | [],_ => False
  | packet :: rest,position =>
    (HEADER_SIZE < position ∧ position < HEADER_SIZE + packet.data.length) ∨
      ((encode packet).length ≤ position ∧ InsideData rest (position - (encode packet).length))

instance decidableInsideData : (packets : List WirePacket) → (position : Nat) →
    Decidable (InsideData packets position)
  | [],_ => .isFalse id
  | packet :: rest,position =>
    have := decidableInsideData rest (position - (encode packet).length)
    inferInstanceAs (Decidable (_ ∨ (_ ∧ _)))

theorem header_not_mid (seqn cmd : UInt8) (length : Nat) {k : Nat} (within : k ≤ HEADER_SIZE)
    (small : length < 2^32) :
    ¬ MidPayload (feedAll feed (.head 0) ((header seqn cmd length).take k)).1 := by
  rcases Nat.lt_or_eq_of_le within with below | rfl
  · simp only [HEADER_SIZE] at below
    interval_cases k <;>
      simp [header,IPC_CONN_PACKET_BEGIN_TAG,IPC_CONN_PACKET_TAG_SIZE,bigEndian32,feedAll_cons,feed,
        MidPayload]
  · rw [← header_length seqn cmd length,List.take_length,feed_header seqn cmd small,begun]
    split <;> simp [MidPayload]

theorem trailer_not_mid (seqn cmd : UInt8) (length : Nat) (payload : List UInt8) (k : Nat) :
    ¬ MidPayload (feedAll feed (.tail seqn cmd length payload 0) (trailer.take k)).1 := by
  have cases : trailer.take k = [] ∨ trailer.take k = [0x45] ∨ trailer.take k = [0x45,0x54] ∨
      trailer.take k = [0x45,0x54,0x58] := by
    match k with
    | 0 => exact .inl rfl
    | 1 => exact .inr (.inl rfl)
    | 2 => exact .inr (.inr (.inl rfl))
    | _ + 3 => exact .inr (.inr (.inr (by simp [trailer,IPC_CONN_PACKET_END_TAG,IPC_CONN_PACKET_TAG_SIZE])))
  rcases cases with eq | eq | eq | eq <;> rw [eq] <;>
    simp [feedAll_cons,feed,IPC_CONN_PACKET_END_TAG,MidPayload]

theorem encode_mid (packet : WirePacket) {k : Nat}
    (mid : MidPayload (feedAll feed (.head 0) ((encode packet).take k)).1) :
    HEADER_SIZE < k ∧ k < HEADER_SIZE + packet.data.length := by
  have small := packet.small
  rw [encode_parts,List.take_append,header_length] at mid
  by_cases early : k ≤ HEADER_SIZE
  · rw [Nat.sub_eq_zero_of_le early,List.take_zero,List.append_nil] at mid
    exact absurd mid (header_not_mid _ _ _ early small)
  · refine ⟨by omega,?_⟩
    by_contra late
    rw [List.take_of_length_le (by rw [header_length]; omega),feedAll_append,feed_header _ _ small,
      List.take_append,List.take_of_length_le (by omega),feedAll_append,feed_data] at mid
    exact trailer_not_mid _ _ _ _ _ mid

theorem encodeAll_mid (packets : List WirePacket) {k : Nat}
    (mid : MidPayload (feedAll feed (.head 0) ((encodeAll packets).take k)).1) :
    InsideData packets k := by
  induction packets generalizing k with
  | nil => simp [encodeAll,MidPayload] at mid
  | cons packet rest ih =>
    rw [encodeAll_cons,List.take_append] at mid
    by_cases within : k ≤ (encode packet).length
    · rw [Nat.sub_eq_zero_of_le within,List.take_zero,List.append_nil] at mid
      exact .inl (encode_mid packet mid)
    · rw [List.take_of_length_le (by omega),feedAll_append,feed_encode] at mid
      exact .inr ⟨by omega,ih mid⟩

-- A session: the chunks that the recvs of one connection bring, one call of
-- ipc_conn_proc each.
section
variable (outcome : Nat → Outcome)

def receive : Conn → List (List UInt8) → Option (Conn × List Delivered)
  | c,[] => some (c,[])
  | c,chunk :: rest =>
    (ipc_conn_proc outcome c (.data chunk)).bind fun first =>
      (receive first.1 rest).map fun later => (later.1,first.2 ++ later.2)

-- Each chunk fits the room its recv is given.
def Admitted : Conn → List (List UInt8) → Prop
  | _,[] => True
  | c,chunk :: rest => Admissible c (.data chunk) ∧
    ∀ first ∈ ipc_conn_proc outcome c (.data chunk), Admitted first.1 rest

instance decidableAdmitted : (c : Conn) → (chunks : List (List UInt8)) →
    Decidable (Admitted outcome c chunks)
  | _,[] => .isTrue trivial
  | c,chunk :: rest =>
    have _later : DecidablePred fun first : Conn × List Delivered => Admitted outcome first.1 rest :=
      fun first => decidableAdmitted first.1 rest
    inferInstanceAs (Decidable (_ ∧ ∀ first ∈ ipc_conn_proc outcome c (.data chunk),
      Admitted outcome first.1 rest))

end

-- A cut inside a packet's data only where recv_bufs is full: after a multiple
-- of its size.
def CutsFill (packets : List WirePacket) : Nat → List (List UInt8) → Prop
  | _,[] => True
  | received,chunk :: rest =>
    (InsideData packets (received + chunk.length) →
      DEFAULT_RECEVICE_BUFFER_SIZE ∣ received + chunk.length) ∧
    CutsFill packets (received + chunk.length) rest

instance decidableCutsFill (packets : List WirePacket) : (received : Nat) →
    (chunks : List (List UInt8)) → Decidable (CutsFill packets received chunks)
  | _,[] => .isTrue trivial
  | received,chunk :: rest =>
    have := decidableCutsFill packets (received + chunk.length) rest
    inferInstanceAs (Decidable ((_ → _) ∧ _))

-- A connection that has received exactly these bytes since it was at a packet's start.
structure Synced (c : Conn) (received : List UInt8) : Prop where
  safe : Safe c
  plain : Plain c
  status : c.status ≠ .not_connected
  scan : Ipc.scan c = (feedAll feed (.head 0) received).1
  offset : (wrap_offset c).recv_bufs_offset = received.length % DEFAULT_RECEVICE_BUFFER_SIZE

theorem connected_synced (is_async : Bool) : Synced (connected is_async) [] :=
  ⟨connected_safe is_async,create_plain is_async,by simp [connected],rfl,rfl⟩

variable {c : Conn} {outcome : Nat → Outcome} {packets : List WirePacket}

theorem synced_whole {received chunk rest : List UInt8} (synced : Synced c received)
    (stream : received ++ chunk ++ rest = encodeAll packets)
    (admissible : Admissible c (.data chunk))
    (cut : InsideData packets (received.length + chunk.length) →
      DEFAULT_RECEVICE_BUFFER_SIZE ∣ received.length + chunk.length) : WholeChunk c chunk := by
  obtain ⟨some,room⟩ := admissible
  have size : c.recv_bufs_size = 512 := synced.safe.size
  have offset : (wrap_offset c).recv_bufs_offset = received.length % 512 := synced.offset
  rw [recv_room,wrap_offset_size,size,offset] at room
  by_cases inside : InsideData packets (received.length + chunk.length)
  · have full : 512 ∣ received.length + chunk.length := cut inside
    have positive := List.length_pos_iff.mpr some
    refine .inl ?_
    rw [offset,size]
    omega
  · refine .inr fun mid => inside (encodeAll_mid packets ?_)
    rw [← stream,← List.length_append,List.take_left,feedAll_append]
    rw [synced.scan] at mid
    exact mid

theorem taken_synced {received chunk : List UInt8} {last : Conn} (synced : Synced c received)
    (admissible : Admissible c (.data chunk)) (taken : Taken c chunk last)
    (at_end : Ipc.scan last = (feedAll feed (Ipc.scan c) chunk).1) :
    Synced last (received ++ chunk) := by
  refine ⟨taken.safe,taken.plain,by rw [taken.status]; decide,?_,?_⟩
  · rw [at_end,synced.scan,feedAll_append]
  · obtain ⟨some,room⟩ := admissible
    have positive := List.length_pos_iff.mpr some
    have size : c.recv_bufs_size = 512 := synced.safe.size
    have last_size : last.recv_bufs_size = 512 := taken.safe.size
    have before : (wrap_offset c).recv_bufs_offset = received.length % 512 := synced.offset
    have after := taken.offset
    rw [recv_room,wrap_offset_size,size,before] at room
    rw [before] at after
    simp only [DEFAULT_RECEVICE_BUFFER_SIZE,List.length_append]
    unfold wrap_offset
    split
    · show 0 = _
      omega
    · omega

-- Every chunking of an encoded stream whose cuts inside data fill recv_bufs.
theorem receive_feeds (succeed : ∀ k, outcome k ≠ none) (chunks : List (List UInt8)) (c : Conn)
    (received rest : List UInt8) (synced : Synced c received)
    (stream : received ++ chunks.flatten ++ rest = encodeAll packets)
    (admitted : Admitted outcome c chunks) (cuts : CutsFill packets received.length chunks) :
    ∃ last, receive outcome c chunks = some (last,
        (feedAll feed (scan c) chunks.flatten).2.filterMap Signal.completed) ∧
      Synced last (received ++ chunks.flatten) := by
  induction chunks generalizing c received with
  | nil => exact ⟨c,rfl,by simpa using synced⟩
  | cons chunk more ih =>
    obtain ⟨admissible,later⟩ := admitted
    obtain ⟨cut,cuts⟩ := cuts
    rw [List.flatten_cons] at stream
    have joined : received ++ chunk ++ (more.flatten ++ rest) = encodeAll packets := by
      rw [← stream]
      simp only [List.append_assoc]
    have whole := synced_whole synced joined admissible cut
    obtain ⟨next,events,signals,result,fed,taken⟩ :=
      proc_feeds succeed synced.safe synced.plain synced.status admissible whole
    have next_synced := taken_synced synced admissible taken (by rw [fed.scan])
    obtain ⟨last,final,last_synced⟩ := ih next (received ++ chunk) next_synced
      (by rw [← stream]; simp only [List.append_assoc]) (later _ result)
      (by rw [List.length_append]; exact cuts)
    refine ⟨last,?_,by rw [List.flatten_cons,← List.append_assoc]; exact last_synced⟩
    rw [List.flatten_cons,feedAll_append,fed.scan,List.filterMap_append,← fed.events]
    simp only [receive,result,Option.bind_some,final,Option.map_some]

theorem decode_encode (packets : List WirePacket) (chunks : List (List UInt8)) (is_async : Bool)
    (split : chunks.flatten = encodeAll packets) (succeed : ∀ k, outcome k ≠ none)
    (admitted : Admitted outcome (connected is_async) chunks) (cuts : CutsFill packets 0 chunks) :
    ∃ last, receive outcome (connected is_async) chunks =
      some (last,packets.map WirePacket.delivered) := by
  have stream : [] ++ chunks.flatten ++ [] = encodeAll packets := by simpa using split
  obtain ⟨last,result,_⟩ := receive_feeds succeed chunks (connected is_async) [] []
    (connected_synced is_async) stream admitted cuts
  have start : scan (connected is_async) = .head 0 := rfl
  rw [start,split,feed_encodeAll,signals_completed] at result
  exact ⟨last,result⟩

def twoBytes : WirePacket := ⟨7,IPC_CMD_REQUEST,[0x61,0x62],by decide,by decide⟩

def zeroed : Nat → Outcome := fun _ => some fun _ => 0

-- Cut inside the begin tag and between the data and the end tag.
theorem two_bytes_decoded :
    ∃ last, receive zeroed (connected true) [(encode twoBytes).take 2,
        ((encode twoBytes).drop 2).take 9,(encode twoBytes).drop 11] =
      some (last,[⟨7,IPC_CMD_REQUEST,2,[0x61,0x62]⟩]) :=
  decode_encode [twoBytes] _ true (by decide) (fun _ => by simp [zeroed]) (by decide +kernel)
    (by decide)

-- Cut after the first of the two data bytes: the second is read from recv_bufs
-- before it has arrived, and found where the end tag should be.
theorem cut_data_lost :
    ¬ ∀ (outcome : Nat → Outcome) (packets : List WirePacket) (chunks : List (List UInt8)),
      chunks.flatten = encodeAll packets → (∀ k, outcome k ≠ none) →
      Admitted outcome (connected true) chunks →
      ∃ last, receive outcome (connected true) chunks =
        some (last,packets.map WirePacket.delivered) := by
  intro claim
  obtain ⟨last,result⟩ := claim zeroed [twoBytes]
    [(encode twoBytes).take 10,(encode twoBytes).drop 10] (by decide) (fun _ => by simp [zeroed])
    (by decide +kernel)
  have lost : (receive zeroed (connected true)
      [(encode twoBytes).take 10,(encode twoBytes).drop 10]).map Prod.snd = some [] := by
    decide +kernel
  rw [result] at lost
  cases lost

end Libcplus.Ipc
