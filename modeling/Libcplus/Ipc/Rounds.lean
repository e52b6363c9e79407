import Libcplus.Ipc.Agreement
import Libcplus.Ipc.Late

-- Requests of a synchronous client, one after another, to the connection that a server
-- made for it.
namespace Libcplus.Ipc.Rounds
open Bytes Memory Transition Transducer Typedef
open Response (Responder Disciplined)
open Dialogue (Surroundings Outgoing Serving Serves)
open Channel (complete_all given_bytes travelling echo)
open Agreement (Uncut receive_uncut)

-- What one request came to: the packet it was, what the server completed, what it
-- answered, and what the client's call returned.
structure Entry where
  asked : Packet (Option (List UInt8))
  seen : List Delivered
  given : List Outgoing
  reply : Reply

structure Peers where
  client : Client
  conn : Conn
  responder : Responder
  log : List Entry

-- A call, with the chunks in which its request comes to the server and the response
-- to the client, and what the server's surroundings do meanwhile.
structure Round where
  call : Call
  inward : List (List UInt8)
  outward : List (List UInt8 × Nat)
  allocations : Nat → Outcome
  surroundings : Surroundings

structure Served where
  conn : Conn
  seen : List Delivered
  responder : Responder
  given : List (Surroundings × List Outgoing)

def serve (s : Peers) (round : Round) : Option Served :=
  (receive round.allocations s.conn round.inward).bind fun proc =>
    (complete_all s.responder proc.2 [round.surroundings]).map fun done => ⟨proc.1,proc.2,done.1,done.2⟩

def advance (outcome : Nat → Outcome) (s : Peers) (round : Round) : Option Peers :=
  (serve s round).bind fun served => (cplus_ipc_client_send_request outcome s.client round.call).map fun reply =>
    ⟨reply.client,served.conn,served.responder,
      s.log ++ [⟨request_packet s.client round.call,served.seen,served.given.flatMap Prod.snd,reply⟩]⟩

-- The answer goes out whole, within the limits, and comes back whole.
structure Answerable (s : Peers) (round : Round) (served : Served) : Prop where
  sent : ∀ entry ∈ served.given, ∀ packet ∈ entry.2, TakesAll entry.1.send 0 (pieces packet) ∧
    packet.data_len ≤ MAX_PACKET_DATA_SIZE ∧ packet.data_len ≤ round.call.output_bufs_len
  back : (round.outward.map Prod.fst).flatten = given_bytes served.given
  fill : ∀ own, given_bytes served.given = encode own →
    Fill [own] 0 (wrap_offset s.client.ipc_conn).recv_bufs_offset (round.outward.map Prod.fst)

-- A round in which the system does its part: sends are taken whole, the allocator
-- provides, the callback serves within the limits and nothing is late.
structure Proper (s : Peers) (round : Round) : Prop where
  sent : Sent s.client round.call
  limit : round.call.input_bufs_len ≤ MAX_PACKET_DATA_SIZE
  inward : round.inward.flatten = (ipc_send_packet round.call.send (request_packet s.client round.call)).2.flatten
  provided : ∀ k, round.allocations k ≠ none
  uncut : Uncut round.allocations s.conn round.inward
  serves : ∀ packet, Serves s.responder (round.surroundings.completed packet)
  consistent : ∀ packet, Response.Consistent s.responder (round.surroundings.completed packet)
  answerable : ∀ served ∈ serve s round, Answerable s round served
  arrivals : round.call.arrivals = arriving round.outward
  in_time : (round.outward.map Prod.snd).sum < round.call.timeout
  buffer : round.call.output_bufs.isSome = true
  positive : 0 < round.call.output_bufs_len
  room : round.call.output_bufs_len ≤ RSIZE_MAX_MEM

-- The server completed the request and nothing else, answered it once, and the call
-- returned that answer.
def Answered (entry : Entry) : Prop :=
  entry.seen = [⟨entry.asked.seqn,entry.asked.cmd,entry.asked.data_len,entry.asked.data.getD []⟩] ∧
  ∃ answer, entry.given = [answer] ∧ answer.seqn = entry.asked.seqn ∧ answer.cmd = IPC_CMD_RESPONSE ∧
    entry.reply.res = answer.data_len ∧
    ∃ block, entry.reply.output = some block ∧
      block.take answer.data_len = (answer.data.getD []).take answer.data_len

variable {outcome : Nat → Outcome} {c : Conn} {own : WirePacket} {s t : Peers} {round : Round}

-- The wait for a response that comes alone and in time.
theorem wait_own {request : UInt8} (succeed : ∀ k, outcome k ≠ none) (number : own.seqn = request)
    (chunks : List (List UInt8 × Nat)) {received : List UInt8} {offset : Nat} (ready : Ready c received offset)
    (stream : received ++ (chunks.map Prod.fst).flatten = encodeAll ([] ++ [own])) (present : chunks ≠ [])
    (fill : Fill [own] received.length offset (chunks.map Prod.fst)) (in_time : (chunks.map Prod.snd).sum < c.recv_timeout) :
    ∃ waited, wait_response outcome request c (arriving chunks) = some waited ∧ Ends own.delivered waited ∧
      scan waited.conn = .head 0 ∧ waited.conn.status ≠ .not_connected := by
  induction chunks generalizing c received offset with
  | nil => exact absurd rfl present
  | cons chunk more ih =>
    obtain ⟨bytes,elapsed⟩ := chunk
    obtain ⟨some_bytes,room,cut,fill⟩ := fill
    simp only [List.map_cons,List.sum_cons] at in_time
    simp only [List.map_cons,List.flatten_cons,← List.append_assoc] at stream
    obtain ⟨last,events,proc,holds,positive,timeout⟩ := chunk_holds succeed ready stream some_bytes room cut
    have event : last.evt_packet_received.isSome = true := by rw [holds.event]; rfl
    have here : elapsed < last.recv_timeout := by omega
    obtain ⟨waiting,step,turn⟩ := wait_step_parts request ⟨.data bytes,elapsed⟩ proc event
    have turned := holds_turn holds positive here turn
    cases more with
    | nil =>
      -- the last chunk leaves the response
      have whole : received ++ bytes = encodeAll ([] ++ [own]) := by simpa using stream
      have ends := (stream_signals whole some_bytes).1
      rw [← ready.scan] at ends
      rw [ends] at holds turned
      have own_number : request = own.delivered.seqn := number.symm
      simp only [resolve,if_pos own_number] at turned
      cases turned
      have packet := holds.packet _ rfl
      have waits := timeout_waits holds.waits (last.recv_timeout - elapsed)
      refine ⟨_,wait_done step,⟨rfl,holds.waits.settled.clear positive,⟨_,waits⟩,holds.event,packet,
        packet ▸ holds.waits.pending.last holds.event⟩,?_,holds.status⟩
      show scan last = _
      rw [holds.scan,whole,feed_encodeAll]
    | cons second others =>
      -- before it there is nothing to look at
      have rest_some : ((second :: others).map Prod.fst).flatten ≠ [] := fun empty => by
        rw [List.map_cons,List.flatten_cons,List.append_eq_nil_iff] at empty
        exact fill.1 empty.1
      have none_held : held (feedAll feed (scan c) bytes).2 = none := by
        by_contra left
        obtain ⟨d,left⟩ := Option.ne_none_iff_exists'.mp left
        obtain ⟨late,among,_⟩ := (stream_signals stream rest_some).2 d (by
          rw [feedAll_append,List.filterMap_append,← ready.scan]
          exact List.mem_append_right _ (List.mem_of_getLast? (held_completed left)))
        cases among
      rw [none_held] at holds turned
      cases turned
      obtain ⟨waited,final,ends,rest⟩ := ih (holds_nothing holds _) stream (List.cons_ne_nil _ _)
        (by rw [List.length_append]; exact fill) (by show _ < last.recv_timeout - elapsed; omega)
      exact ⟨_,wait_again step final,ends.prepend _,rest⟩

-- The request as a packet that travels.
theorem request_travels {clt : Client} {call : Call} (sent : Sent clt call) (limit : call.input_bufs_len ≤ MAX_PACKET_DATA_SIZE) :
    ∃ own : WirePacket, own.packet = request_packet clt call ∧ own.delivered = ⟨(request_packet clt call).seqn,
      (request_packet clt call).cmd,(request_packet clt call).data_len,(request_packet clt call).data.getD []⟩ := by
  obtain ⟨block,there⟩ := Option.isSome_iff_exists.mp sent.pointed
  have length := call.input_room block there
  refine ⟨⟨(request_packet clt call).seqn,IPC_CMD_REQUEST,block,by decide,by rw [length]; exact limit⟩,?_,?_⟩
  · simp only [WirePacket.packet,request_packet,there,length]
  · simp only [WirePacket.delivered,request_packet,there,length,Option.getD_some]

-- The server's part: it completes the request and answers it once.
theorem server_answers {prior : List WirePacket} (synced : Synced s.conn (encodeAll prior)) (serving : Serving s.responder)
    (disciplined : Disciplined s.responder) (proper : Proper s round) (request : own.packet = request_packet s.client round.call) :
    ∃ served answer, serve s round = some served ∧ served.seen = [own.delivered] ∧
      served.given = [(round.surroundings,[answer])] ∧ answer.seqn = own.seqn ∧ answer.cmd = IPC_CMD_RESPONSE ∧
      answer.data_len ≤ (answer.data.getD []).length ∧ Synced served.conn (encodeAll (prior ++ [own])) ∧
      Serving served.responder ∧ Disciplined served.responder := by
  have asked : own.cmd = IPC_CMD_REQUEST := congrArg Packet.cmd request
  have taken := proper.sent.taken
  rw [← request] at taken
  have bytes := (send_packet_encodes round.call.send own taken).2
  have inward := proper.inward
  rw [← request,bytes] at inward
  obtain ⟨last,received,last_synced⟩ := receive_uncut proper.provided round.inward synced proper.uncut
  have start : scan s.conn = .head 0 := by rw [synced.scan,feed_encodeAll]
  have single : [own].flatMap WirePacket.signals = own.signals := List.flatMap_singleton _ _
  have completed := signals_completed [own]
  rw [single] at completed
  rw [start,inward,feed_encode,completed] at received
  rw [inward] at last_synced
  -- the callback cannot leave the buffer
  obtain ⟨t,handles,handled⟩ := Response.packet_handled disciplined (round.surroundings.completed own.delivered)
  have kept := Response.handled_keeps disciplined handled (proper.consistent own.delivered)
  rw [Response.advance,← Dialogue.analyzed_agrees,Option.map_map] at handles
  obtain ⟨result,analyzed,same⟩ := Option.map_eq_some_iff.mp handles
  have same : result.1.2 = t := same
  have parts := Dialogue.analyzed_parts analyzed
  obtain ⟨still,answers⟩ := parts.serves serving (proper.serves own.delivered)
  have command : (round.surroundings.completed own.delivered).cmd = IPC_CMD_REQUEST := asked
  rcases parts.replies with none | ⟨answer,one,number,replies,announced⟩
  · refine absurd none (answers ?_)
    rw [command]
    exact Option.some_ne_none IPC_CMD_RESPONSE
  · rw [command] at replies
    refine ⟨⟨last,[own.delivered],result.1.2,[(round.surroundings,result.2)]⟩,answer,?_,rfl,by rw [one],number,
      (Option.some.inj replies).symm,announced,?_,still,same ▸ kept⟩
    · simp only [serve,received,Option.bind_some,List.map_cons,List.map_nil,complete_all,analyzed,Option.map_some]
    · rw [encodeAll,List.flatMap_append,List.flatMap_singleton]
      exact last_synced

structure Kept (s : Peers) : Prop where
  idle : Idle s.client
  stands : scan s.client.ipc_conn = .head 0
  status : s.client.ipc_conn.status ≠ .not_connected
  server : ∃ prior, Synced s.conn (encodeAll prior)
  serving : Serving s.responder
  disciplined : Disciplined s.responder
  answered : ∀ entry ∈ s.log, Answered entry

-- The client's part: it waits for that answer and nothing else.
theorem client_returns (succeed : ∀ k, outcome k ≠ none) (kept : Kept s) (proper : Proper s round) (own : WirePacket)
    (number : own.seqn = (request_packet s.client round.call).seqn)
    (back : (round.outward.map Prod.fst).flatten = encode own) (fits : own.data.length ≤ round.call.output_bufs_len)
    (fill : Fill [own] 0 (wrap_offset s.client.ipc_conn).recv_bufs_offset (round.outward.map Prod.fst)) :
    ∃ reply, cplus_ipc_client_send_request outcome s.client round.call = some reply ∧ Returns own reply ∧
      Idle reply.client ∧ scan reply.client.ipc_conn = .head 0 ∧ reply.client.ipc_conn.status ≠ .not_connected := by
  have ready : Ready {s.client.ipc_conn with recv_timeout := round.call.timeout} []
      (wrap_offset s.client.ipc_conn).recv_bufs_offset := by
    refine ⟨timeout_waits kept.idle.waits _,kept.idle.unset,kept.status,kept.stands,?_⟩
    rw [wrap_offset_value,wrap_offset_value]
  have stream : [] ++ (round.outward.map Prod.fst).flatten = encodeAll ([] ++ [own]) := by
    rw [back]
    exact (List.flatMap_singleton _ _).symm
  have present : round.outward ≠ [] := fun empty => by
    rw [empty,encode_parts] at back
    cases back
  obtain ⟨waited,final,ends,stands,status⟩ :=
    wait_own succeed number round.outward ready stream present fill proper.in_time
  obtain ⟨reply,finished,returns⟩ : ∃ reply, finish_request
      {s.client with seqn := ACCUMULATE_SEQUENCE_NUMBER s.client.seqn} round.call waited = some reply ∧ Returns own reply :=
    ends_returns ends proper.buffer proper.positive fits proper.room
  have client := (finish_parts finished).1
  obtain ⟨log,waits⟩ := ends.waits
  refine ⟨reply,?_,returns,?_,?_,?_⟩
  · rw [request_waits kept.idle.sync proper.sent,proper.arrivals,final,Option.bind_some,finished]
  · rw [client]
    refine ⟨kept.idle.sync,reset_waits waits [],?_,accumulate_small _⟩
    simp only [reset_event,ends.set,Option.map_some]
  · rw [client]
    exact stands
  · rw [client]
    exact status

theorem round_answered (succeed : ∀ k, outcome k ≠ none) (kept : Kept s) (proper : Proper s round) :
    ∃ t, advance outcome s round = some t ∧ Kept t := by
  obtain ⟨prior,synced⟩ := kept.server
  obtain ⟨own,request,delivered⟩ := request_travels proper.sent proper.limit
  obtain ⟨served,answer,serves,seen,given,number,command,announced,later,serving,disciplined⟩ :=
    server_answers synced kept.serving kept.disciplined proper request
  have answerable := proper.answerable served serves
  obtain ⟨taken,limit,fits⟩ := answerable.sent (round.surroundings,[answer]) (by rw [given]; exact List.mem_singleton_self _)
    answer (List.mem_singleton_self _)
  have sendable : answer.cmd < IPC_CMD_MAX := by rw [command]; decide
  obtain ⟨_,pieces,same⟩ := Channel.sent_alike round.surroundings.send sendable limit announced
  have bytes := (send_packet_encodes round.surroundings.send (travelling answer sendable limit) (by rw [pieces]; exact taken)).2
  have back : given_bytes served.given = encode (travelling answer sendable limit) := by
    rw [given,← bytes,same]
    simp [given_bytes]
  have length : (travelling answer sendable limit).data.length = answer.data_len := by
    rw [travelling,List.length_take]
    omega
  have seqn : own.seqn = (request_packet s.client round.call).seqn := congrArg Packet.seqn request
  obtain ⟨reply,replies,returns,idle,stands,status⟩ := client_returns succeed kept proper
    (travelling answer sendable limit) (number.trans seqn) (answerable.back.trans back) (by rw [length]; exact fits)
    (answerable.fill _ back)
  have goes : advance outcome s round = some ⟨reply.client,served.conn,served.responder,
      s.log ++ [⟨request_packet s.client round.call,served.seen,served.given.flatMap Prod.snd,reply⟩]⟩ := by
    simp only [advance,serves,Option.bind_some,replies,Option.map_some]
  refine ⟨_,goes,idle,stands,status,⟨_,later⟩,serving,disciplined,fun entry member => ?_⟩
  rcases List.mem_append.mp member with early | last
  · exact kept.answered entry early
  · obtain rfl := List.mem_singleton.mp last
    refine ⟨by rw [seen,delivered],answer,?_,number.trans seqn,command,?_,?_⟩
    · rw [given]
      rfl
    · rw [returns.res,length]
    · obtain ⟨block,there,copied⟩ := returns.output
      rw [length] at copied
      exact ⟨block,there,copied⟩

-- A client and a connection right after they were made.
def met : Peers := ⟨ipc_client_new,connected true,Response.created true,[]⟩

theorem met_kept : Kept met where
  idle := client_new_idle
  stands := rfl
  status := nofun
  server := ⟨[],connected_synced true⟩
  serving := ⟨rfl,by decide⟩
  disciplined := Response.created_disciplined true
  answered := fun _ member => absurd member List.not_mem_nil

-- Any number of requests: each is completed by the server as it was asked, and its
-- call returns what the server answered to it.
theorem requests_answered {moves : List (Move Peers Round)} (succeed : ∀ k, outcome k ≠ none)
    (run : Run (Follows (advance outcome)) met moves s) (proper : Meets Proper moves) :
    (∀ entry ∈ s.log, Answered entry) ∧ s.log.length = moves.length ∧
    ∀ round, Proper s round → (advance outcome s round).isSome := by
  have keep : ∀ {s round t}, Kept s → Follows (advance outcome) s round t → Proper s round → Kept t := by
    intro s round t kept taken here
    obtain ⟨next,goes,still⟩ := round_answered succeed kept here
    cases goes.symm.trans taken
    exact still
  have kept := (run.keeps Proper met_kept keep proper).1
  refine ⟨kept.answered,?_,fun round here => ?_⟩
  · clear kept proper keep
    induction run with
    | nil => rfl
    | snoc prior taken ih =>
      simp only [Follows,advance,Option.bind_eq_some_iff,Option.map_eq_some_iff] at taken
      obtain ⟨served,_,reply,_,rfl⟩ := taken
      rw [List.length_append,List.length_append,ih]
      rfl
  · obtain ⟨next,goes,_⟩ := round_answered succeed kept here
    rw [goes]
    rfl

def asking : WirePacket := ⟨2,IPC_CMD_REQUEST,[7],twoBytes.command,(response 2 7).room⟩

def ping_round : Round := ⟨ping,[encode asking],[(encode (response 2 9),5)],zeroed,echo⟩

theorem ping_proper : Proper met ping_round where
  sent := request_sent.mp (by decide)
  limit := by decide
  inward := by decide
  provided := fun _ => Option.some_ne_none _
  uncut := by
    have start : scan (connected true) = .head 0 := rfl
    refine ⟨by decide +kernel,.inr ?_,fun _ _ => trivial⟩
    show ¬ MidPayload (feedAll feed (scan (connected true)) (encode asking)).1
    rw [start,feed_encode]
    exact id
  serves := fun _ => by
    have succeeds : (0 : Int) ≠ CPLUS_FAIL := by decide
    exact ⟨Option.some_ne_none _,Option.some_ne_none _,succeeds,fun _ => ⟨succeeds,Nat.one_ne_zero⟩⟩
  consistent := fun _ grows => by
    have larger : 8192 < 1 := grows.2.2.2.2.1
    omega
  answerable := by
    have one : (serve met ping_round).all (fun served => decide ((∀ entry ∈ served.given, ∀ packet ∈ entry.2,
        TakesAll entry.1.send 0 (pieces packet) ∧ packet.data_len ≤ MAX_PACKET_DATA_SIZE ∧ packet.data_len ≤ 4) ∧
        given_bytes served.given = encode (response 2 9))) = true := by decide +kernel
    intro served serves
    rw [Option.mem_def.mp serves,Option.all_some] at one
    obtain ⟨sent,bytes⟩ := of_decide_eq_true one
    refine ⟨sent,?_,fun own same => ⟨by decide,by decide,fun inside => ?_,trivial⟩⟩
    · rw [bytes]
      exact List.append_nil _
    · -- all of it is there, so its data does not go on
      have lengths := congrArg List.length (bytes.symm.trans same)
      rw [encode_parts own,List.length_append,header_length,List.length_append] at lengths
      have size : (encode (response 2 9)).length = 13 := by decide
      have tail : trailer.length = 3 := by decide
      rcases inside with ⟨_,within⟩ | ⟨_,none⟩
      · simp only [HEADER_SIZE] at within lengths
        omega
      · cases none
  arrivals := rfl
  in_time := by decide
  buffer := rfl
  positive := by decide
  room := by decide

theorem ping_answered : ∃ moves s, Run (Follows (advance zeroed)) met moves s ∧ s.log.length = 1 ∧
    ∀ entry ∈ s.log, Answered entry := by
  obtain ⟨s,goes,_⟩ := round_answered (fun _ => Option.some_ne_none _) met_kept ping_proper
  have run : Run (Follows (advance zeroed)) met _ s := Run.nil.snoc goes
  obtain ⟨answered,length,_⟩ := requests_answered (fun _ => Option.some_ne_none _) run
    (meets_snoc.mpr ⟨meets_nil,ping_proper⟩)
  exact ⟨_,s,run,length,answered⟩

end Libcplus.Ipc.Rounds
