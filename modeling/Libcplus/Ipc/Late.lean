import Libcplus.Ipc.Client
import Libcplus.Ipc.Decode

namespace Libcplus.Ipc
open Bytes Memory Transducer Transition Typedef

-- The packet that these signals leave a connection with, if its event was not
-- set before them.
def held (signals : List Signal) : Option Delivered := signals.getLast?.bind Signal.completed

theorem heard_held (signals : List Signal) :
    heard (some false) signals = some (held signals).isSome := by
  induction signals using List.reverseRecOn with
  | nil => rfl
  | append_singleton before signal ih =>
    unfold heard at ih ⊢
    rw [List.foldl_append,ih]
    simp [held]

theorem held_completed {signals : List Signal} {d : Delivered} (last : held signals = some d) :
    (signals.filterMap Signal.completed).getLast? = some d := by
  obtain ⟨signal,ends,completed⟩ := Option.bind_eq_some_iff.mp last
  obtain ⟨before,rfl⟩ := List.getLast?_eq_some_iff.mp ends
  simp [completed]

-- What the recvs of a call bring of the stream: each fits the room behind
-- `offset`, and fills it where it ends inside a packet's data.
def Fill (packets : List WirePacket) : (position offset : Nat) → List (List UInt8) → Prop
  | _,_,[] => True
  | position,offset,chunk :: rest =>
    chunk ≠ [] ∧ offset + chunk.length ≤ DEFAULT_RECEVICE_BUFFER_SIZE ∧
    (InsideData packets (position + chunk.length) →
      offset + chunk.length = DEFAULT_RECEVICE_BUFFER_SIZE) ∧
    Fill packets (position + chunk.length) ((offset + chunk.length) % DEFAULT_RECEVICE_BUFFER_SIZE)
      rest

-- No recv leaves a packet to look at whose number is above the request's.
def Ordered (request : UInt8) : Scan → List (List UInt8) → Prop
  | _,[] => True
  | s,chunk :: rest =>
    (∀ d ∈ held (feedAll feed s chunk).2, d.seqn ≤ request) ∧
    Ordered request (feedAll feed s chunk).1 rest

variable {c : Conn} {outcome : Nat → Outcome} {events : List Delivered}

-- A connection that waits with no packet to look at, and stands where
-- `received` leaves a parser.
structure Ready (c : Conn) (received : List UInt8) (offset : Nat) : Prop where
  waits : Waits c []
  unset : c.evt_packet_received = some false
  status : c.status ≠ .not_connected
  scan : Ipc.scan c = (feedAll feed (.head 0) received).1
  offset : (wrap_offset c).recv_bufs_offset = offset

-- The same once a chunk is in that completed `events`, with the packet it leaves.
structure Holds (c : Conn) (received : List UInt8) (offset : Nat) (events : List Delivered)
    (packet : Option Delivered) : Prop where
  waits : Waits c events
  event : c.evt_packet_received = some packet.isSome
  packet : ∀ d ∈ packet, delivered c = d
  status : c.status ≠ .not_connected
  scan : Ipc.scan c = (feedAll feed (.head 0) received).1
  offset : (wrap_offset c).recv_bufs_offset = offset

variable {packets : List WirePacket} {received chunk rest : List UInt8} {offset : Nat}

theorem chunk_holds (succeed : ∀ k, outcome k ≠ none) (ready : Ready c received offset)
    (stream : received ++ chunk ++ rest = encodeAll packets) (some : chunk ≠ [])
    (room : offset + chunk.length ≤ DEFAULT_RECEVICE_BUFFER_SIZE)
    (cut : InsideData packets (received.length + chunk.length) →
      offset + chunk.length = DEFAULT_RECEVICE_BUFFER_SIZE) :
    ∃ last events, ipc_conn_proc outcome c (.data chunk) = .some (last,events) ∧
      Holds last (received ++ chunk) ((offset + chunk.length) % DEFAULT_RECEVICE_BUFFER_SIZE)
        events (held (feedAll feed (scan c) chunk).2) ∧
      0 < last.recv_count ∧ last.recv_timeout = c.recv_timeout := by
  have safe := ready.waits.safe
  have size : c.recv_bufs_size = 512 := safe.size
  simp only [DEFAULT_RECEVICE_BUFFER_SIZE] at room cut ⊢
  have admissible : Admissible c (.data chunk) := by
    refine ⟨some,?_⟩
    rw [recv_room,wrap_offset_size,size,ready.offset]
    omega
  have whole : WholeChunk c chunk := by
    by_cases inside : InsideData packets (received.length + chunk.length)
    · refine .inl ?_
      rw [ready.offset,size]
      exact cut inside
    · refine .inr fun mid => inside (encodeAll_mid packets ?_)
      rw [← stream,← List.length_append,List.take_left,feedAll_append]
      rw [ready.scan] at mid
      exact mid
  obtain ⟨last,events,signals,result,fed,taken⟩ :=
    proc_feeds succeed safe (.inl ready.waits.settled.sync) ready.status admissible whole
  have waits := proc_waits ready.waits admissible result
  have signalled : (feedAll feed (scan c) chunk).2 = signals := by rw [fed.scan]
  have event : last.evt_packet_received = .some (held signals).isSome := by
    rw [fed.event,ready.unset,heard_held]
  have positive := List.length_pos_iff.mpr some
  refine ⟨last,events,result,⟨waits,by rw [signalled]; exact event,fun d there => ?_,?_,?_,?_⟩,?_,
    taken.recv_timeout⟩
  · rw [signalled] at there
    have there : held signals = .some d := there
    have set : last.evt_packet_received = .some true := by rw [event,there]; rfl
    have held_last := waits.pending.last set
    have completed : events.getLast? = .some d := by
      rw [fed.events]
      exact held_completed there
    rw [List.nil_append,completed] at held_last
    exact (Option.some.inj held_last).symm
  · rw [taken.status]
    decide
  · rw [feedAll_append,← ready.scan,fed.scan]
  · have after := taken.offset
    have last_size : last.recv_bufs_size = 512 := taken.safe.size
    rw [ready.offset] at after
    unfold wrap_offset
    split
    · show 0 = _
      omega
    · omega
  · rw [taken.recv_count]
    omega

-- A packet is complete with its last byte: before it the scanner has signalled
-- the packets before, and its own begin tag.
theorem feed_unfinished (lates : List WirePacket) (own : WirePacket) :
    ∃ before, encodeAll (lates ++ [own]) = before ++ [0x58] ∧
      feedAll feed (.head 0) before =
        (.tail own.seqn own.cmd own.data.length own.data 2,
          lates.flatMap WirePacket.signals ++ [.header]) := by
  refine ⟨encodeAll lates ++ (header own.seqn own.cmd own.data.length ++ (own.data ++ [0x45,0x54])),
    ?_,?_⟩
  · simp [encodeAll,encode,header,IPC_CONN_PACKET_END_TAG,IPC_CONN_PACKET_TAG_SIZE]
  · rw [feedAll_append,feed_encodeAll,feedAll_append,feed_header _ _ own.small,feedAll_append,
      feed_data]
    simp [feedAll_cons,feed,IPC_CONN_PACKET_END_TAG]

variable {lates : List WirePacket} {own : WirePacket}

-- So any part of the stream that reaches its end signals the last packet last,
-- and what comes before that part signals none but the packets before.
theorem stream_signals (stream : received ++ rest = encodeAll (lates ++ [own])) (more : rest ≠ []) :
    held (feedAll feed (feedAll feed (.head 0) received).1 rest).2 = some own.delivered ∧
    ∀ d ∈ (feedAll feed (.head 0) received).2.filterMap Signal.completed,
      ∃ late ∈ lates, d = late.delivered := by
  obtain ⟨before,whole,fed⟩ := feed_unfinished lates own
  obtain ⟨init,last,rfl⟩ : ∃ init last, rest = init ++ [last] :=
    ⟨_,_,(List.dropLast_append_getLast more).symm⟩
  rw [whole,← List.append_assoc] at stream
  obtain ⟨rfl,same⟩ := List.append_inj' stream rfl
  cases same
  rw [feedAll_append] at fed
  obtain ⟨at_end,signals⟩ := Prod.mk.inj fed
  constructor
  · rw [feedAll_append,at_end,feedAll_single]
    simp [feed,IPC_CONN_PACKET_END_TAG,held,Signal.completed,WirePacket.delivered]
  · intro d member
    have all : d ∈ (lates.flatMap WirePacket.signals ++ [Signal.header]).filterMap
        Signal.completed := by
      rw [← signals,List.filterMap_append]
      exact List.mem_append_left _ member
    rw [List.filterMap_append,signals_completed] at all
    rcases List.mem_append.mp all with earlier | none
    · obtain ⟨late,among,same⟩ := List.mem_map.mp earlier
      exact ⟨late,among,same.symm⟩
    · cases none

-- A response to an earlier request that the client is to tolerate: the numbers
-- go round.
def Behind (request late : UInt8) : Prop :=
  ∃ back, 0 < back ∧ back < TOLERANCE_TO_DIFF_SEQUENCE ∧ (late.toNat + back) % 256 = request.toNat

theorem behind_differs {request late : UInt8} (behind : Behind request late) : request ≠ late := by
  obtain ⟨back,positive,small,number⟩ := behind
  rintro rfl
  have := request.toNat_lt
  simp only [TOLERANCE_TO_DIFF_SEQUENCE] at small
  omega

-- The loop's formula finds it near exactly when the numbers have not gone round
-- in between: after 255 to 0 it adds the late number instead of taking it away.
theorem behind_tolerable {request late : UInt8} (behind : Behind request late) :
    sequence_diff request late < TOLERANCE_TO_DIFF_SEQUENCE ↔ late ≤ request := by
  obtain ⟨back,positive,small,number⟩ := behind
  have := request.toNat_lt
  have := late.toNat_lt
  simp only [TOLERANCE_TO_DIFF_SEQUENCE] at small ⊢
  rw [UInt8.le_iff_toNat_le]
  unfold sequence_diff
  split
  · rename_i below
    rw [UInt8.lt_iff_toNat_lt] at below
    omega
  · rename_i above
    rw [UInt8.lt_iff_toNat_lt] at above
    omega

-- The chunks of a call with the milliseconds each took.
def arriving (chunks : List (List UInt8 × Nat)) : List Arrival :=
  chunks.map fun chunk => ⟨.data chunk.1,chunk.2⟩

theorem wrap_offset_value (c : Conn) : (wrap_offset c).recv_bufs_offset =
    if c.recv_bufs_size ≤ c.recv_bufs_offset then 0 else c.recv_bufs_offset := by
  unfold wrap_offset
  split <;> rfl

theorem holds_ready {packet : Option Delivered} {received : List UInt8} {offset : Nat}
    (holds : Holds c received offset events packet) (recv_timeout : Nat) :
    Ready (reset_event {c with recv_timeout := recv_timeout}) received offset := by
  refine ⟨reset_waits (timeout_waits holds.waits _) [],?_,holds.status,holds.scan,?_⟩
  · simp only [reset_event,holds.event,Option.map_some]
  · rw [← holds.offset,wrap_offset_value,wrap_offset_value]
    rfl

theorem holds_nothing {received : List UInt8} {offset : Nat}
    (holds : Holds c received offset events none) (recv_timeout : Nat) :
    Ready {c with recv_timeout := recv_timeout} received offset := by
  refine ⟨timeout_waits (quiet_waits holds.waits holds.event []) _,holds.event,holds.status,holds.scan,?_⟩
  rw [← holds.offset,wrap_offset_value,wrap_offset_value]

-- What a turn of the loop does about the packet that its recv left.
def resolve (request : UInt8) (c : Conn) : Option Delivered → Waiting
  | none => .again c
  | some d =>
    if request = d.seqn then .done CPLUS_SUCCESS none c
    else if sequence_diff request d.seqn < TOLERANCE_TO_DIFF_SEQUENCE then .again (reset_event c)
    else .done CPLUS_FAIL (some .EILSEQ) c

theorem holds_turn {request : UInt8} {elapsed : Nat} {packet : Option Delivered}
    {waiting : Waiting} (holds : Holds c received offset events packet) (positive : 0 < c.recv_count)
    (in_time : elapsed < c.recv_timeout) (turn : Turn request elapsed c waiting) :
    waiting = resolve request (refresh_timeout c elapsed) packet := by
  have event := holds.event
  cases packet with
  | none =>
    cases turn with
    | nothing received => omega
    | timed_out received late => omega
    | unset => rfl
    | own _ _ set | dropped _ _ set | foreign _ _ set => rw [set] at event; cases event
  | some d =>
    have same : c.packet.seqn = d.seqn := congrArg Delivered.seqn (holds.packet d rfl)
    cases turn with
    | nothing received => omega
    | timed_out received late => omega
    | unset _ _ unset => rw [unset] at event; cases event
    | own _ _ _ own =>
      rw [same] at own
      simp only [resolve,if_pos own]
    | dropped _ _ _ other tolerable =>
      rw [same] at other tolerable
      simp only [resolve,if_neg other,if_pos tolerable]
    | foreign _ _ _ other far =>
      rw [same] at other far
      simp only [resolve,if_neg other,if_neg far]

theorem wait_again {request : UInt8} {arrival : Arrival} {arrivals : List Arrival} {next : Conn}
    {events : List Delivered} {waited : Waited}
    (step : wait_step outcome request c arrival = some (.again next,events))
    (final : wait_response outcome request next arrivals = some waited) :
    wait_response outcome request c (arrival :: arrivals) =
      some {waited with completed := events ++ waited.completed} := by
  simp only [wait_response,step,Option.bind_some,final,Option.map_some]

theorem wait_done {request : UInt8} {arrival : Arrival} {arrivals : List Arrival} {next : Conn}
    {events : List Delivered} {res : Int} {error : Option Errno}
    (step : wait_step outcome request c arrival = some (.done res error next,events)) :
    wait_response outcome request c (arrival :: arrivals) = some ⟨res,error,next,events⟩ := by
  simp only [wait_response,step,Option.bind_some]

-- The wait succeeded on this packet, the last that was completed in it.
structure Ends (own : Delivered) (waited : Waited) : Prop where
  res : waited.res = CPLUS_SUCCESS
  clear : waited.conn.sock_error = none
  waits : ∃ log, Waits waited.conn log
  set : waited.conn.evt_packet_received = some true
  packet : delivered waited.conn = own
  last : waited.completed.getLast? = some own

theorem Ends.prepend {own : Delivered} {waited : Waited} (ends : Ends own waited)
    (events : List Delivered) : Ends own {waited with completed := events ++ waited.completed} := by
  refine ⟨ends.res,ends.clear,ends.waits,ends.set,ends.packet,?_⟩
  rw [List.getLast?_append,ends.last]
  rfl

-- How the wait for a response ends that arrives in time.
theorem wait_ends {request : UInt8} (succeed : ∀ k, outcome k ≠ none)
    (number : own.seqn = request) (behind : ∀ late ∈ lates, Behind request late.seqn)
    (chunks : List (List UInt8 × Nat)) (ready : Ready c received offset)
    (stream : received ++ (chunks.map Prod.fst).flatten = encodeAll (lates ++ [own]))
    (some : chunks ≠ []) (fill : Fill (lates ++ [own]) received.length offset (chunks.map Prod.fst))
    (in_time : (chunks.map Prod.snd).sum < c.recv_timeout) :
    ∃ waited, wait_response outcome request c (arriving chunks) = .some waited ∧
      (Ordered request (scan c) (chunks.map Prod.fst) →
        Ends own.delivered waited) ∧
      (¬ Ordered request (scan c) (chunks.map Prod.fst) → waited.res = CPLUS_FAIL) := by
  induction chunks generalizing c received offset with
  | nil => exact absurd rfl some
  | cons chunk more ih =>
    obtain ⟨bytes,elapsed⟩ := chunk
    obtain ⟨present,room,cut,fill⟩ := fill
    simp only [List.map_cons,List.sum_cons] at in_time
    simp only [List.map_cons,List.flatten_cons,← List.append_assoc] at stream
    obtain ⟨last,events,proc,holds,positive,timeout⟩ :=
      chunk_holds succeed ready stream present room cut
    have event : last.evt_packet_received.isSome = true := by rw [holds.event]; rfl
    have here : elapsed < last.recv_timeout := by omega
    obtain ⟨waiting,step,turn⟩ := wait_step_parts request ⟨.data bytes,elapsed⟩ proc event
    have turned := holds_turn holds positive here turn
    have place : (feedAll feed (scan c) bytes).1 = scan last := by
      rw [holds.scan,ready.scan,feedAll_append]
    cases left : held (feedAll feed (scan c) bytes).2 with
    | none =>
      rw [left] at holds turned
      cases turned
      cases more with
      | nil =>
        have ends := (stream_signals (show received ++ bytes = _ by simpa using stream) present).1
        rw [← ready.scan,left] at ends
        cases ends
      | cons second others =>
        obtain ⟨waited,final,kept,lost⟩ := ih (holds_nothing holds _) stream nofun
          (by rw [List.length_append]; exact fill) (by show _ < last.recv_timeout - elapsed; omega)
        refine ⟨_,wait_again step final,fun ordered => (kept ?_).prepend _,fun broken => lost fun ordered => ?_⟩
        · exact place ▸ ordered.2
        · refine broken ⟨fun d there => ?_,place ▸ ordered⟩
          rw [left] at there
          cases there
    | some d =>
      rw [left] at holds turned
      cases more with
      | nil =>
        have ends := (stream_signals (show received ++ bytes = _ by simpa using stream) present).1
        rw [← ready.scan,left] at ends
        cases ends
        have own_number : request = own.delivered.seqn := number.symm
        simp only [resolve,if_pos own_number] at turned
        cases turned
        have packet := holds.packet _ rfl
        have waits := timeout_waits holds.waits (last.recv_timeout - elapsed)
        refine ⟨_,wait_done step,fun _ => ⟨rfl,holds.waits.settled.clear positive,⟨_,waits⟩,
          holds.event,packet,packet ▸ holds.waits.pending.last holds.event⟩,
          fun broken => absurd ⟨?_,trivial⟩ broken⟩
        intro d there
        cases left.symm.trans there
        show own.seqn ≤ request
        rw [number]
        exact UInt8.le_refl _
      | cons second others =>
        have rest_some : ((second :: others).map Prod.fst).flatten ≠ [] := fun empty => by
          rw [List.map_cons,List.flatten_cons,List.append_eq_nil_iff] at empty
          exact fill.1 empty.1
        obtain ⟨late,among,rfl⟩ := (stream_signals stream rest_some).2 d (by
          rw [feedAll_append,List.filterMap_append,← ready.scan]
          exact List.mem_append_right _ (List.mem_of_getLast? (held_completed left)))
        have near := behind late among
        have other : request ≠ late.delivered.seqn := behind_differs near
        by_cases below : late.seqn ≤ request
        · -- a late response below the request's number is dropped
          have tolerable : sequence_diff request late.delivered.seqn < TOLERANCE_TO_DIFF_SEQUENCE :=
            (behind_tolerable near).mpr below
          simp only [resolve,if_neg other,if_pos tolerable] at turned
          cases turned
          obtain ⟨waited,final,kept,lost⟩ := ih (holds_ready holds _) stream nofun
            (by rw [List.length_append]; exact fill) (by show _ < last.recv_timeout - elapsed; omega)
          refine ⟨_,wait_again step final,fun ordered => (kept ?_).prepend _,fun broken => lost fun ordered => ?_⟩
          · exact place ▸ ordered.2
          · refine broken ⟨fun d there => ?_,place ▸ ordered⟩
            cases left.symm.trans there
            exact below
        · -- one above it ends the wait
          have far : ¬ sequence_diff request late.delivered.seqn < TOLERANCE_TO_DIFF_SEQUENCE :=
            fun tolerable => below ((behind_tolerable near).mp tolerable)
          simp only [resolve,if_neg other,if_neg far] at turned
          cases turned
          exact ⟨_,wait_done step,fun ordered => absurd (ordered.1 _ left) below,fun _ => rfl⟩

variable {clt : Client} {moves : List (Move Client Calling)}

-- The sequence numbers the calls of a run have taken, the latest first.
def numbers (moves : List (Move Client Calling)) : List UInt8 :=
  (moves.map fun m => UInt8.ofNat m.after.seqn).reverse

theorem step_counts {calling : Calling} {after : Client} (idle : Idle clt)
    (step : Client.Step outcome clt calling after) :
    after.seqn = ACCUMULATE_SEQUENCE_NUMBER clt.seqn := by
  cases calling with
  | notify =>
    obtain rfl : after = _ := step
    rfl
  | request call =>
    obtain ⟨brings,reply,returned,rfl⟩ := step
    rcases request_parts idle brings returned with ⟨_,rfl⟩ | ⟨_,waited,_,finished⟩
    · rfl
    · rw [(finish_parts finished).1]

theorem accumulate_counts {seqn : Nat} (small : seqn ≤ 255) :
    (UInt8.ofNat (ACCUMULATE_SEQUENCE_NUMBER seqn)).toNat = (seqn + 1) % 256 := by
  rw [UInt8.toNat_ofNat']
  unfold ACCUMULATE_SEQUENCE_NUMBER
  split <;> omega

-- The k-th last number is k behind the next, around the wrap.
theorem numbers_behind (run : Run (Client.Step outcome) ipc_client_new moves clt) {k : Nat}
    {number : UInt8} (taken : (numbers moves)[k]? = some number) :
    (number.toNat + (k + 1)) % 256 = (clt.seqn + 1) % 256 := by
  induction run generalizing k with
  | nil => cases taken
  | @snoc moves s calling t prior step ih =>
    have counts := step_counts (run_idle prior) step
    have small := accumulate_small s.seqn
    have before := (run_idle prior).seqn
    have listed : numbers (moves ++ [⟨s,calling,t⟩]) = UInt8.ofNat t.seqn :: numbers moves := by
      simp [numbers]
    rw [listed] at taken
    cases k with
    | zero =>
      cases taken
      rw [counts,accumulate_counts before]
      unfold ACCUMULATE_SEQUENCE_NUMBER
      split <;> omega
    | succ k =>
      have earlier := ih taken
      rw [counts]
      unfold ACCUMULATE_SEQUENCE_NUMBER
      split <;> omega

theorem recent_behind {call : Call} (run : Run (Client.Step outcome) ipc_client_new moves clt)
    {number : UInt8} (recent : number ∈ (numbers moves).take (TOLERANCE_TO_DIFF_SEQUENCE - 1)) :
    Behind (request_packet clt call).seqn number := by
  obtain ⟨k,small,there⟩ := List.mem_take_iff_getElem.mp recent
  have behind := numbers_behind run (List.getElem?_eq_some_iff.mpr ⟨by omega,there⟩)
  refine ⟨k + 1,by omega,by simp only [TOLERANCE_TO_DIFF_SEQUENCE] at small ⊢; omega,?_⟩
  exact behind.trans (accumulate_counts (run_idle run).seqn).symm

-- The response to a call arrives in time, behind late ones to the calls before:
-- the connection has `received` of the stream, the call's recvs bring the rest,
-- and there is a buffer for it.
structure Comes (clt : Client) (call : Call) (earlier : List UInt8) (lates : List WirePacket)
    (own : WirePacket) (received : List UInt8) (chunks : List (List UInt8 × Nat)) : Prop where
  sent : Sent clt call
  status : clt.ipc_conn.status ≠ .not_connected
  stands : scan clt.ipc_conn = (feedAll feed (.head 0) received).1
  arrivals : call.arrivals = arriving chunks
  stream : received ++ (chunks.map Prod.fst).flatten = encodeAll (lates ++ [own])
  some : chunks ≠ []
  fill : Fill (lates ++ [own]) received.length (wrap_offset clt.ipc_conn).recv_bufs_offset
    (chunks.map Prod.fst)
  in_time : (chunks.map Prod.snd).sum < call.timeout
  number : own.seqn = (request_packet clt call).seqn
  late : ∀ packet ∈ lates, packet.seqn ∈ earlier.take (TOLERANCE_TO_DIFF_SEQUENCE - 1)
  buffer : call.output_bufs.isSome = true
  positive : 0 < call.output_bufs_len
  room : own.data.length ≤ call.output_bufs_len
  limit : call.output_bufs_len ≤ RSIZE_MAX_MEM

structure Returns (own : WirePacket) (reply : Reply) : Prop where
  res : reply.res = own.data.length
  last : reply.completed.getLast? = some own.delivered
  output : ∃ block, reply.output = some block ∧ block.take own.data.length = own.data

-- What a sent request returns is decided by the wait and the copy.
theorem request_waits {call : Call} (sync : clt.is_async = false) (sent : Sent clt call) :
    cplus_ipc_client_send_request outcome clt call =
      (wait_response outcome (request_packet clt call).seqn
        {clt.ipc_conn with recv_timeout := call.timeout} call.arrivals).bind fun waited =>
          finish_request {clt with seqn := ACCUMULATE_SEQUENCE_NUMBER clt.seqn} call waited := by
  simp only [cplus_ipc_client_send_request,if_pos (request_sent.mpr sent),sync,Bool.false_eq_true,
    if_false]

theorem ends_returns {call : Call} {waited : Waited} (ends : Ends own.delivered waited)
    (buffer : call.output_bufs.isSome = true) (positive : 0 < call.output_bufs_len)
    (room : own.data.length ≤ call.output_bufs_len) (limit : call.output_bufs_len ≤ RSIZE_MAX_MEM) :
    ∃ reply, finish_request clt call waited = some reply ∧ Returns own reply := by
  obtain ⟨log,waits⟩ := ends.waits
  obtain ⟨block,there⟩ := Option.isSome_iff_exists.mp buffer
  obtain ⟨flag,written,copied,same⟩ :=
    response_copied waits ends.set (call.output_room block there) there
  have length : waited.conn.packet.data_len = own.data.length :=
    congrArg Delivered.data_len ends.packet
  have fine : ¬ (waited.res = CPLUS_FAIL ∨ (reset_event waited.conn).sock_error ≠ none) := by
    rintro (failed | error)
    · rw [ends.res] at failed
      cases failed
    · exact error ends.clear
  refine ⟨⟨int32 waited.conn.packet.data_len,none,some written,
    {clt with ipc_conn := reset_event waited.conn},waited.completed⟩,?_,?_,ends.last,written,rfl,?_⟩
  · have pointed : ¬ call.output_bufs = none := by rw [there]; nofun
    have sized : ¬ call.output_bufs_len = 0 := by omega
    have reset : cplus_mem_cpy_ex call.output_bufs 0 call.output_bufs_len
        (packet_data (reset_event waited.conn)) 0 (reset_event waited.conn).packet.data_len =
          some (flag,some written) := copied
    simp only [finish_request,if_neg fine,if_neg pointed,if_neg sized,reset,Option.map_some]
    rfl
  · have small := own.room
    simp only [MAX_PACKET_DATA_SIZE,DEFAULT_RECEVICE_BUFFER_SIZE] at small
    rw [length]
    exact int32_small (by omega)
  · rw [← length]
    refine (same.mpr (.inr (.inl ⟨by omega,limit⟩))).trans ?_
    exact congrArg Delivered.data ends.packet

theorem late_responses {outcome : Nat → Outcome}
    (run : Run (Client.Step outcome) ipc_client_new moves clt) (succeed : ∀ k, outcome k ≠ none) :
    (∀ call lates own received chunks, Comes clt call (numbers moves) lates own received chunks →
      ((∃ reply, cplus_ipc_client_send_request outcome clt call = some reply ∧ Returns own reply) ↔
        Ordered (request_packet clt call).seqn (scan clt.ipc_conn) (chunks.map Prod.fst))) ∧
    (∀ call reply, Sent clt call → call.Brings outcome clt →
      cplus_ipc_client_send_request outcome clt call = some reply → 0 ≤ reply.res →
      ∃ d, reply.completed.getLast? = some d ∧
        d.seqn ∉ (numbers moves).take (TOLERANCE_TO_DIFF_SEQUENCE - 1)) := by
  have idle := run_idle run
  constructor
  · intro call lates own received chunks comes
    have ready : Ready {clt.ipc_conn with recv_timeout := call.timeout} received
        (wrap_offset clt.ipc_conn).recv_bufs_offset := by
      refine ⟨timeout_waits idle.waits _,idle.unset,comes.status,comes.stands,?_⟩
      rw [wrap_offset_value,wrap_offset_value]
    obtain ⟨waited,final,kept,lost⟩ := wait_ends succeed comes.number
      (fun late among => recent_behind run (comes.late late among)) chunks ready comes.stream
      comes.some comes.fill comes.in_time
    have answer : cplus_ipc_client_send_request outcome clt call =
        finish_request {clt with seqn := ACCUMULATE_SEQUENCE_NUMBER clt.seqn} call waited := by
      rw [request_waits idle.sync comes.sent,comes.arrivals,final,Option.bind_some]
    rw [answer]
    constructor
    · rintro ⟨reply,finished,returns⟩
      by_contra broken
      have failed := lost broken
      rcases (finish_parts finished).2.2 with ⟨res,_⟩ | ⟨fine,_⟩
      · rw [returns.res] at res
        cases res
      · exact fine failed
    · intro ordered
      exact ends_returns (kept ordered) comes.buffer comes.positive comes.room comes.limit
  · intro call reply sent brings returned positive
    rcases request_parts idle brings returned with ⟨unsent,_⟩ | ⟨_,waited,ended,finished⟩
    · exact absurd sent unsent
    · obtain ⟨_,completed,⟨res,_⟩ | ⟨result,_⟩⟩ := finish_parts finished
      · rw [res] at positive
        cases positive
      · rcases ended.result with ⟨_,_,set,own,_⟩ | failure
        · refine ⟨delivered waited.conn,?_,fun recent => ?_⟩
          · rw [completed]
            exact ended.waits.pending.last set
          · exact behind_differs (recent_behind run recent) own.symm
        · exact absurd failure result

-- A request whose recv times out, and the client after it.
def unanswered : Call := {ping with arrivals := [⟨.error .ETIMEDOUT,1000⟩]}

def timedOut (seqn : Nat) : Client where
  is_async := false
  seqn := seqn
  ipc_conn := {connected false with
    recv_timeout := 1000
    status := .timeout
    sock_error := some .ETIMEDOUT
    recv_count := -1}

theorem unanswered_step {n : Nat} (ended : (cplus_ipc_client_send_request zeroed
      {ipc_client_new with seqn := n} unanswered).map Reply.client = some (timedOut (n + 1))) :
    Client.Step zeroed {ipc_client_new with seqn := n} (.request unanswered) (timedOut (n + 1)) := by
  obtain ⟨reply,returned,same⟩ := Option.map_eq_some_iff.mp ended
  exact ⟨⟨trivial,fun _ _ _ => trivial⟩,reply,returned,same⟩

def response (seqn value : UInt8) : WirePacket :=
  ⟨seqn,IPC_CMD_RESPONSE,[value],by decide,by simp [MAX_PACKET_DATA_SIZE,DEFAULT_RECEVICE_BUFFER_SIZE]⟩

-- The next request gets the late response first, then its own, one recv each.
def afterwards (late own : UInt8) : Call :=
  {ping with arrivals := arriving [(encode (response late 8),5),(encode (response own 9),5)]}

theorem late_response_dropped : ∃ moves reply,
    Run (Client.Step zeroed) ipc_client_new moves (timedOut 2) ∧
      cplus_ipc_client_send_request zeroed (timedOut 2) (afterwards 2 3) = some reply ∧
      Returns (response 3 9) reply := by
  have run := Run.nil.snoc (unanswered_step (n := 1) (by decide +kernel))
  have comes : Comes (timedOut 2) (afterwards 2 3) [2] [response 2 8] (response 3 9) []
      [(encode (response 2 8),5),(encode (response 3 9),5)] :=
    ⟨request_sent.mp (by decide),nofun,rfl,rfl,by decide,nofun,
      ⟨by decide,by decide,by decide,by decide,by decide,by decide,trivial⟩,by decide,rfl,
      by decide,rfl,by decide,by decide,by decide⟩
  obtain ⟨reply,returned,returns⟩ := (((late_responses run fun _ => by simp [zeroed]).1 _ _ _ _ _
    comes).mpr ⟨by decide,by decide,trivial⟩)
  exact ⟨_,reply,run,returned,returns⟩

-- Any number up to 255 is reached by calls that take one each.
theorem counted (outcome : Nat → Outcome) (n : Nat) (small : n ≤ 254) :
    ∃ moves, Run (Client.Step outcome) ipc_client_new moves {ipc_client_new with seqn := n + 1} := by
  induction n with
  | zero => exact ⟨[],.nil⟩
  | succ n ih =>
    obtain ⟨moves,run⟩ := ih (by omega)
    refine ⟨_,run.snoc (a := .notify) ?_⟩
    show _ = _
    simp only [ACCUMULATE_SEQUENCE_NUMBER,if_neg (show ¬ 255 ≤ n + 1 by omega)]

-- Request 255 times out, and its response arrives before that of request 0.
theorem wrapped_response_fatal :
    ¬ ∀ (outcome : Nat → Outcome) (moves : List (Move Client Calling)) (clt : Client) (call : Call)
      (lates : List WirePacket) (own : WirePacket) (received : List UInt8)
      (chunks : List (List UInt8 × Nat)), Run (Client.Step outcome) ipc_client_new moves clt →
      (∀ k, outcome k ≠ none) → Comes clt call (numbers moves) lates own received chunks →
      ∃ reply, cplus_ipc_client_send_request outcome clt call = some reply ∧ Returns own reply := by
  intro claim
  obtain ⟨moves,counting⟩ := counted zeroed 253 (by decide)
  have run := counting.snoc (unanswered_step (n := 254) (by decide +kernel))
  have latest : 255 ∈ (numbers (moves ++ [⟨{ipc_client_new with seqn := 254},.request unanswered,
      timedOut 255⟩])).take (TOLERANCE_TO_DIFF_SEQUENCE - 1) := by
    simp [numbers,TOLERANCE_TO_DIFF_SEQUENCE,timedOut]
  have comes : Comes (timedOut 255) (afterwards 255 0) (numbers (moves ++ _)) [response 255 8]
      (response 0 9) [] [(encode (response 255 8),5),(encode (response 0 9),5)] :=
    ⟨request_sent.mp (by decide),nofun,rfl,rfl,by decide,nofun,
      ⟨by decide,by decide,by decide,by decide,by decide,by decide,trivial⟩,by decide,rfl,
      fun packet among => by rw [List.mem_singleton.mp among]; exact latest,rfl,by decide,by decide,
      by decide⟩
  obtain ⟨reply,returned,returns⟩ := claim _ _ _ _ _ _ _ _ run (fun _ => by simp [zeroed]) comes
  have failed : (cplus_ipc_client_send_request zeroed (timedOut 255) (afterwards 255 0)).map
      (fun reply => (reply.res,reply.error)) = some (CPLUS_FAIL,some .EILSEQ) := by decide +kernel
  rw [returned,Option.map_some,Option.some.injEq,Prod.mk.injEq,returns.res] at failed
  cases failed.1

end Libcplus.Ipc
