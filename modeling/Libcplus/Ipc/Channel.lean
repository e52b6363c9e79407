import Libcplus.Ipc.Decode
import Libcplus.Ipc.Dialogue

-- The two ends with the bytes between them: a recv takes what is there, the parser
-- completes packets from it, and their answers are written back.
namespace Libcplus.Ipc.Channel
open Bytes Memory Transition Transducer Exchange Dialogue
open Response (Responder)

-- One end with the bytes on their way to it, and the history of what it received.
structure Station where
  conn : Conn
  responder : Responder
  wire : List UInt8
  received : List UInt8
  completed : List Delivered

abbrev Stations := Side → Station

def started (ends : Side → Responder) (is_async : Side → Bool) : Stations := fun side =>
  ⟨connected (is_async side),ends side,[],[],[]⟩

-- The completion callback on each packet of one ipc_conn_proc, in order. It leaves the
-- parser's fields alone.
def complete_all : Responder → List Delivered → List Surroundings → Option (Responder × List (Surroundings × List Outgoing))
  | c,[],_ => some (c,[])
  | _,_ :: _,[] => none
  | c,packet :: rest,s :: more =>
    (packet_analyze_completed c (s.completed packet)).bind fun first =>
      (complete_all first.1.2 rest more).map fun later => (later.1,(s,first.2) :: later.2)

-- What the socket is given for the answers.
def given_bytes (given : List (Surroundings × List Outgoing)) : List UInt8 :=
  given.flatMap fun entry => entry.2.flatMap fun packet => (ipc_send_packet entry.1.send packet).2.flatten

inductive Event where
  | write (side : Side) (packet : WirePacket) (send : Nat → Int)
  | recv (side : Side) (count : Nat) (outcome : Nat → Outcome) (surroundings : List Surroundings)

def recv (stations : Stations) (side : Side) (count : Nat) (outcome : Nat → Outcome) (surroundings : List Surroundings) :
    Option Stations :=
  let chunk := (stations side).wire.take count
  (ipc_conn_proc outcome (stations side).conn (.data chunk)).bind fun proc =>
    (complete_all (stations side).responder proc.2 surroundings).map fun done =>
      Function.update (Function.update stations side
        ⟨proc.1,done.1,(stations side).wire.drop count,(stations side).received ++ chunk,(stations side).completed ++ proc.2⟩)
        side.peer {stations side.peer with wire := (stations side.peer).wire ++ given_bytes done.2}

def advance (stations : Stations) : Event → Option Stations
  | .write side packet send => some (Function.update stations side {stations side with
      wire := (stations side).wire ++ (ipc_send_packet send packet.packet).2.flatten})
  | .recv side count outcome surroundings => recv stations side count outcome surroundings

-- Every send takes all it is given and every answer keeps to the receiver's limit; a
-- recv keeps to the room it is given and does not end inside a packet's data with
-- recv_bufs unfilled.
def Whole (stations : Stations) : Event → Prop
  | .write _ packet send => TakesAll send 0 (pieces packet.packet)
  | .recv side count outcome surroundings =>
    let chunk := (stations side).wire.take count
    Admissible (stations side).conn (.data chunk) ∧ (∀ k, outcome k ≠ none) ∧
    WholeChunk (stations side).conn chunk ∧
    ∀ proc ∈ ipc_conn_proc outcome (stations side).conn (.data chunk),
      ∀ done ∈ complete_all (stations side).responder proc.2 surroundings, ∀ entry ∈ done.2, ∀ packet ∈ entry.2,
        TakesAll entry.1.send 0 (pieces packet) ∧ packet.data_len ≤ MAX_PACKET_DATA_SIZE

-- The packets written to a side.
def written (side : Side) (moves : List (Move Stations Event)) : List Delivered :=
  moves.filterMap fun move => match move.action with
    | .write other packet _ => if other = side then some packet.delivered else none
    | .recv _ _ _ _ => none

variable {stations next : Stations} {side : Side} {c : Responder} {surroundings : List Surroundings}

-- An answer within the limit, as a packet that travels.
def travelling (packet : Outgoing) (command : packet.cmd < IPC_CMD_MAX) (limit : packet.data_len ≤ MAX_PACKET_DATA_SIZE) :
    WirePacket where
  seqn := packet.seqn
  cmd := packet.cmd
  data := (packet.data.getD []).take packet.data_len
  command := command
  room := (List.length_take_le _ _).trans limit

-- With all the data that it announces it goes out as that data alone would.
theorem sent_alike (send : Nat → Int) {packet : Outgoing} (command : packet.cmd < IPC_CMD_MAX)
    (limit : packet.data_len ≤ MAX_PACKET_DATA_SIZE) (announced : packet.data_len ≤ (packet.data.getD []).length) :
    (travelling packet command limit).delivered = landing packet ∧
    pieces (travelling packet command limit).packet = pieces packet ∧
    ipc_send_packet send (travelling packet command limit).packet = ipc_send_packet send packet := by
  have length : ((packet.data.getD []).take packet.data_len).length = packet.data_len := by
    rw [List.length_take]
    omega
  have kept : pieces (travelling packet command limit).packet = pieces packet := by
    cases there : packet.data with
    | some bytes =>
      rw [there,Option.getD_some] at length
      have again : (bytes.take packet.data_len).take packet.data_len = bytes.take packet.data_len := by
        rw [List.take_take,Nat.min_self]
      simp only [pieces,travelling,WirePacket.packet,there,Option.getD_some,length,again]
    | none =>
      -- without data there is nothing to point to
      have empty : packet.data_len = 0 := by
        rw [there] at announced
        exact Nat.le_zero.mp announced
      simp [pieces,travelling,WirePacket.packet,there,empty]
  have pointed : ¬ (0 < packet.data_len ∧ packet.data = none) := by
    intro missing
    rw [missing.2] at announced
    exact absurd missing.1 (Nat.not_lt.mpr announced)
  have there : ¬ (0 < (travelling packet command limit).packet.data_len ∧ (travelling packet command limit).packet.data = none) :=
    fun missing => Option.some_ne_none _ missing.2
  have size : (travelling packet command limit).packet.data_len = packet.data_len := length
  refine ⟨by rw [WirePacket.delivered,landing,travelling,length],kept,?_⟩
  unfold ipc_send_packet
  rw [if_neg pointed,if_neg there,kept,size]
  rfl

theorem answer_travels {e : Response.Completed} {result : Handling} (analyzed : packet_analyze_completed c e = some result)
    (whole : ∀ packet ∈ result.2, TakesAll e.send 0 (pieces packet) ∧ packet.data_len ≤ MAX_PACKET_DATA_SIZE) :
    ∃ packets : List WirePacket, packets.map WirePacket.delivered = result.2.map landing ∧
      (result.2.flatMap fun packet => (ipc_send_packet e.send packet).2.flatten) = encodeAll packets := by
  rcases (analyzed_parts analyzed).replies with none | ⟨packet,one,_,replies,announced⟩
  · exact ⟨[],by rw [none]; rfl,by rw [none]; rfl⟩
  · rw [one] at whole ⊢
    obtain ⟨taken,limit⟩ := whole packet (List.mem_singleton_self _)
    obtain ⟨arrives,kept,same⟩ := sent_alike e.send (reply_command replies) limit announced
    have bytes := (send_packet_encodes e.send (travelling packet (reply_command replies) limit) (by rw [kept]; exact taken)).2
    refine ⟨[travelling packet (reply_command replies) limit],?_,?_⟩
    · rw [List.map_singleton,List.map_singleton,arrives]
    · rw [List.flatMap_singleton,← same,bytes]
      exact (List.flatMap_singleton _ _).symm

theorem complete_travels (events : List Delivered) {done : Responder × List (Surroundings × List Outgoing)}
    (completes : complete_all c events surroundings = some done)
    (whole : ∀ entry ∈ done.2, ∀ packet ∈ entry.2,
      TakesAll entry.1.send 0 (pieces packet) ∧ packet.data_len ≤ MAX_PACKET_DATA_SIZE) :
    ∃ packets : List WirePacket,
      packets.map WirePacket.delivered = done.2.flatMap (fun entry => entry.2.map landing) ∧
      given_bytes done.2 = encodeAll packets := by
  induction events generalizing c surroundings done with
  | nil =>
    cases completes
    exact ⟨[],rfl,rfl⟩
  | cons packet rest ih =>
    cases surroundings with
    | nil => cases completes
    | cons s more =>
      simp only [complete_all,Option.bind_eq_some_iff,Option.map_eq_some_iff] at completes
      obtain ⟨first,analyzed,later,completes,rfl⟩ := completes
      obtain ⟨early,here,bytes⟩ := answer_travels analyzed fun packet member =>
        whole (s,first.2) List.mem_cons_self packet member
      obtain ⟨late,there,others⟩ := ih completes fun entry member => whole entry (List.mem_cons_of_mem _ member)
      refine ⟨early ++ late,?_,?_⟩
      · rw [List.map_append,here,there,List.flatMap_cons]
      · rw [encodeAll,List.flatMap_append,← encodeAll,← encodeAll,← bytes,← others]
        rfl

-- The packets that one ipc_conn_proc completes are as many deliveries.
theorem complete_delivers (events : List Delivered) {done : Responder × List (Surroundings × List Outgoing)}
    {link : Duplex Responder Delivered} {later : List Delivered}
    (completes : complete_all c events surroundings = some done) (state : (link side).state = c)
    (queue : (link side).inbox = events ++ later) :
    ∃ moves next, Run (Follows (Exchange.advance handle)) link moves next ∧ (∀ other, posts other moves = []) ∧
      (next side).state = done.1 ∧ (next side).inbox = later ∧ (next side).sent = (link side).sent ∧
      (next side).handled.map Prod.fst = (link side).handled.map Prod.fst ++ events ∧
      next side.peer = (link side.peer).put true (done.2.flatMap fun entry => entry.2.map landing) := by
  induction events generalizing c surroundings done link with
  | nil =>
    cases completes
    refine ⟨[],link,.nil,fun _ => rfl,state,queue,rfl,by rw [List.append_nil],?_⟩
    simp [Port.put]
  | cons packet rest ih =>
    cases surroundings with
    | nil => cases completes
    | cons s more =>
      simp only [complete_all,Option.bind_eq_some_iff,Option.map_eq_some_iff] at completes
      obtain ⟨first,analyzed,after,completes,rfl⟩ := completes
      have handles : handle (link side).state packet s = some (first.1.2,first.2.map landing) := by
        rw [state,handle,analyzed]
        rfl
      obtain ⟨middle,taken⟩ : ∃ middle, deliver handle link side s = some middle := by
        rw [deliver,queue]
        simp only [List.cons_append,handles,Option.map_some]
        exact ⟨_,rfl⟩
      obtain ⟨message,answers,⟨others,state',queue',handles',here⟩,there⟩ := deliver_parts taken
      rw [queue,List.cons_append,List.cons.injEq] at queue'
      obtain ⟨rfl,rfl⟩ := queue'
      obtain ⟨rfl,rfl⟩ := Prod.mk.inj (Option.some.inj (handles.symm.trans handles'))
      have state : (middle side).state = first.1.2 := by rw [here]; rfl
      have queue : (middle side).inbox = rest ++ later := by rw [here]; rfl
      obtain ⟨moves,next,run,unposted,last,inbox,sent,handled,peer⟩ := ih completes state queue
      have delivered : Follows (Exchange.advance handle) link (.deliver side s) middle := taken
      refine ⟨_,next,run.cons delivered,fun other => ?_,last,inbox,?_,?_,?_⟩
      · exact unposted other
      · rw [sent,here]
        rfl
      · rw [handled,here]
        simp [Port.taken]
      · rw [peer,there]
        simp [Port.put]

-- What the packet level says of an end, beside what the end holds.
structure Carried (station : Station) (port : Port Responder Delivered) : Prop where
  synced : Synced station.conn station.received
  state : port.state = station.responder
  stream : ∃ packets : List WirePacket, packets.map WirePacket.delivered = port.sent.map Prod.snd ∧
    station.received ++ station.wire = encodeAll packets
  handled : port.handled.map Prod.fst = station.completed
  completed : station.completed = (feedAll feed (.head 0) station.received).2.filterMap Signal.completed

-- What is on the way at the packet level is what the bytes on the way complete.
theorem Carried.inbox {station : Station} {port : Port Responder Delivered} (carried : Carried station port)
    (order : port.handled.map Prod.fst ++ port.inbox = port.sent.map Prod.snd) :
    port.inbox = (feedAll feed (scan station.conn) station.wire).2.filterMap Signal.completed := by
  obtain ⟨packets,same,stream⟩ := carried.stream
  have all : (feedAll feed (.head 0) (station.received ++ station.wire)).2.filterMap Signal.completed =
      port.handled.map Prod.fst ++ port.inbox := by
    rw [stream,feed_encodeAll,signals_completed,same,order]
  rw [feedAll_append,List.filterMap_append,← carried.completed,← carried.handled,← carried.synced.scan] at all
  exact (List.append_cancel_left all).symm

theorem Carried.more {station : Station} {port : Port Responder Delivered} (carried : Carried station port)
    (answer : Bool) (packets : List WirePacket) :
    Carried {station with wire := station.wire ++ encodeAll packets} (port.put answer (packets.map WirePacket.delivered)) := by
  obtain ⟨earlier,same,stream⟩ := carried.stream
  refine ⟨carried.synced,carried.state,⟨earlier ++ packets,?_,?_⟩,carried.handled,carried.completed⟩
  · simp [Port.put,same,Function.comp_def]
  · rw [← List.append_assoc,stream,encodeAll,encodeAll,encodeAll,List.flatMap_append]

-- The packet level beside the bytes: each end carried, the same packets posted.
structure Follow (moves : List (Move Stations Event)) (stations : Stations)
    (done : List (Move (Duplex Responder Delivered) (Act Delivered Surroundings))) (link : Duplex Responder Delivered) : Prop where
  carried : ∀ side, Carried (stations side) (link side)
  faithful : Faithful link
  posts : ∀ side, posts side done = written side moves

theorem written_snoc (side : Side) (moves : List (Move Stations Event)) (move : Move Stations Event) :
    written side (moves ++ [move]) = written side moves ++ written side [move] := List.filterMap_append

theorem posts_append (side : Side) (early late : List (Move (Duplex Responder Delivered) (Act Delivered Surroundings))) :
    posts side (early ++ late) = posts side early ++ posts side late := List.filterMap_append

theorem write_follows {before : List (Move Stations Event)} {link : Duplex Responder Delivered}
    {done : List (Move (Duplex Responder Delivered) (Act Delivered Surroundings))} {packet : WirePacket} {send : Nat → Int}
    (follow : Follow before stations done link) (taken : advance stations (.write side packet send) = some next)
    (whole : Whole stations (.write side packet send)) :
    ∃ more t, Run (Follows (Exchange.advance handle)) link more t ∧
      Follow (before ++ [⟨stations,.write side packet send,next⟩]) next (done ++ more) t := by
  cases taken
  have bytes := (send_packet_encodes send packet whole).2
  have single : encodeAll [packet] = encode packet := List.flatMap_singleton _ _
  have posted : Follows (Exchange.advance handle) link (.post side packet.delivered)
      (Function.update link side ((link side).put false [packet.delivered])) := rfl
  refine ⟨_,_,Run.nil.snoc posted,⟨(forall_side side).mpr ⟨?_,?_⟩,step_faithful follow.faithful posted,fun other => ?_⟩⟩
  · rw [Function.update_self,Function.update_self,bytes,← single]
    exact (follow.carried side).more false [packet]
  · rw [Function.update_of_ne (peer_ne side),Function.update_of_ne (peer_ne side)]
    exact follow.carried side.peer
  · rw [posts_append,written_snoc,follow.posts other]
    rfl

theorem recv_follows {before : List (Move Stations Event)} {link : Duplex Responder Delivered}
    {done : List (Move (Duplex Responder Delivered) (Act Delivered Surroundings))} {count : Nat} {outcome : Nat → Outcome}
    (follow : Follow before stations done link) (taken : recv stations side count outcome surroundings = some next)
    (whole : Whole stations (.recv side count outcome surroundings)) :
    ∃ more t, Run (Follows (Exchange.advance handle)) link more t ∧
      Follow (before ++ [⟨stations,.recv side count outcome surroundings,next⟩]) next (done ++ more) t := by
  obtain ⟨admissible,succeed,chunk,fits⟩ := whole
  have here := follow.carried side
  obtain ⟨last,events,signals,proc,fed,stored⟩ := proc_feeds succeed here.synced.safe here.synced.plain
    here.synced.status admissible chunk
  simp only [recv,proc,Option.bind_some,Option.map_eq_some_iff] at taken
  obtain ⟨result,completes,rfl⟩ := taken
  obtain ⟨packets,answers,bytes⟩ := complete_travels events completes (fits _ proc _ completes)
  -- what is on the way at the packet level starts with what this chunk completes
  have split : (stations side).wire.take count ++ (stations side).wire.drop count = (stations side).wire :=
    List.take_append_drop count _
  have inbox := here.inbox (follow.faithful.order side)
  rw [← split,feedAll_append,List.filterMap_append,fed.scan,← fed.events] at inbox
  obtain ⟨more,t,run,unposted,state,queue,sent,handled,peer⟩ := complete_delivers events completes here.state inbox
  have synced := taken_synced here.synced admissible stored (by rw [fed.scan])
  refine ⟨more,t,run,⟨(forall_side side).mpr ⟨?_,?_⟩,(run.invariant follow.faithful step_faithful).1,fun other => ?_⟩⟩
  · rw [Function.update_of_ne (ne_peer side),Function.update_self]
    obtain ⟨earlier,same,stream⟩ := here.stream
    refine ⟨synced,state,⟨earlier,by rw [sent]; exact same,?_⟩,?_,?_⟩
    · rw [List.append_assoc,split]
      exact stream
    · rw [handled,here.handled]
    · rw [feedAll_append,List.filterMap_append,← here.completed,← here.synced.scan,fed.scan,← fed.events]
  · rw [Function.update_self,peer,bytes,← answers]
    exact (follow.carried side.peer).more true packets
  · rw [posts_append,unposted,List.append_nil,written_snoc,follow.posts other]
    exact (List.append_nil _).symm

theorem step_follows {before : List (Move Stations Event)} {event : Event} {link : Duplex Responder Delivered}
    {done : List (Move (Duplex Responder Delivered) (Act Delivered Surroundings))}
    (follow : Follow before stations done link) (taken : Follows advance stations event next) (whole : Whole stations event) :
    ∃ more t, Run (Follows (Exchange.advance handle)) link more t ∧
      Follow (before ++ [⟨stations,event,next⟩]) next (done ++ more) t := by
  cases event with
  | write side packet send => exact write_follows follow taken whole
  | recv side count outcome surroundings => exact recv_follows follow taken whole

-- However the bytes of both directions are cut, as long as no cut breaks a packet's
-- data, the ends go through a run of the packet level: the packets that a side has
-- completed are the first ones sent to it, and all of them when no byte is on its way.
theorem bytes_carry_packets (ends : Side → Responder) (is_async : Side → Bool) (moves : List (Move Stations Event))
    (run : Run (Follows advance) (started ends is_async) moves stations) (whole : Meets Whole moves) :
    ∃ done link, Run (Follows (Exchange.advance handle)) (opened ends) done link ∧ ∀ side,
      posts side done = written side moves ∧ (link side).state = (stations side).responder ∧
      (link side).handled.map Prod.fst = (stations side).completed ∧
      ((stations side).wire = [] → (link side).inbox = []) := by
  have start : Follow [] (started ends is_async) [] (opened ends) :=
    ⟨fun side => ⟨connected_synced _,rfl,⟨[],rfl,rfl⟩,rfl,rfl⟩,opened_faithful ends,fun _ => rfl⟩
  obtain ⟨done,link,followed,follow⟩ := run.followed Whole start step_follows whole
  refine ⟨done,link,followed,fun side => ⟨follow.posts side,(follow.carried side).state,(follow.carried side).handled,?_⟩⟩
  intro none
  have inbox := (follow.carried side).inbox (follow.faithful.order side)
  rw [none] at inbox
  exact inbox

-- Sends that take what they are given.
def sends_all (given : List (List UInt8)) (k : Nat) : Int := ((given[k]?).getD []).length

theorem sends_all_takes (given : List (List UInt8)) : TakesAll (sends_all given) 0 given := by
  intro i piece there
  rw [Nat.zero_add,sends_all,there]
  rfl

def beat : WirePacket := ⟨1,IPC_CMD_HEARTBEAT,[],by decide,by decide⟩

instance (scan : Scan) : Decidable (MidPayload scan) := by cases scan <;> unfold MidPayload <;> infer_instance

instance (c : Conn) (bytes : List UInt8) : Decidable (WholeChunk c bytes) := inferInstanceAs (Decidable (_ ∨ ¬ _))

instance (send : Nat → Int) (k : Nat) (given : List (List UInt8)) : Decidable (TakesAll send k given) :=
  decidable_of_iff (∀ i : Fin given.length, send (k + i) = (given.get i).length)
    ⟨fun all i piece there => by
      obtain ⟨inside,rfl⟩ := List.getElem?_eq_some_iff.mp there
      exact all ⟨i,inside⟩,
    fun taken i => taken i _ (List.getElem?_eq_getElem i.isLt)⟩

-- A callback that answers one byte.
def echo : Surroundings := ⟨some fun _ => 0,some fun _ => 0,⟨0,[9],1,one_counts⟩,⟨0,[],1,one_counts⟩,
  sends_all (pieces ⟨2,IPC_CMD_RESPONSE,1,some [9]⟩)⟩

theorem request_known : IPC_CMD_REQUEST < IPC_CMD_MAX := by decide

theorem long_fits : (List.replicate 600 (7 : UInt8)).length ≤ MAX_PACKET_DATA_SIZE := by
  rw [List.length_replicate]
  decide

-- More data than recv_bufs has room for.
def long_request : WirePacket := ⟨2,IPC_CMD_REQUEST,List.replicate 600 7,request_known,long_fits⟩

def long_written : Stations := Function.update (started (fun _ => Response.created true) fun _ => true) .right
  {started (fun _ => Response.created true) (fun _ => true) .right with wire := encode long_request}

theorem long_begins : Whole long_written (.recv .right 512 zeroed []) := by
  refine ⟨by decide +kernel,fun _ => Option.some_ne_none _,.inl (by decide +kernel),?_⟩
  intro proc _ done completes entry member
  cases events : proc.2 with
  | nil =>
    rw [events] at completes
    cases completes
    cases member
  | cons packet rest =>
    rw [events] at completes
    cases completes

-- A request whose data comes in two chunks, the first of which fills recv_bufs, and
-- the answer on the wire back.
theorem long_carried : ∃ moves stations, Run (Follows advance) (started (fun _ => Response.created true) fun _ => true) moves stations ∧
    (stations .right).completed = [long_request.delivered] ∧ (stations .left).wire.length = 13 ∧
    ∃ done link, Run (Follows (Exchange.advance handle)) (opened fun _ => Response.created true) done link ∧
      (link .right).handled.map Prod.fst = [long_request.delivered] := by
  have bytes := (send_packet_encodes (sends_all (pieces long_request.packet)) long_request (sends_all_takes _)).2
  have write : Follows advance (started (fun _ => Response.created true) fun _ => true)
      (.write .right long_request (sends_all (pieces long_request.packet))) long_written := by
    simp only [Follows,advance,bytes]
    rfl
  have brought : (recv long_written .right 512 zeroed []).any (fun stations : Stations => decide (
      (Admissible (stations .right).conn (.data ((stations .right).wire.take 512)) ∧
        WholeChunk (stations .right).conn ((stations .right).wire.take 512)) ∧
      ∀ proc ∈ ipc_conn_proc zeroed (stations .right).conn (.data ((stations .right).wire.take 512)),
      ∀ done ∈ complete_all (stations .right).responder proc.2 [echo], ∀ entry ∈ done.2, ∀ packet ∈ entry.2,
        TakesAll entry.1.send 0 (pieces packet) ∧ packet.data_len ≤ MAX_PACKET_DATA_SIZE) &&
      (recv stations .right 512 zeroed [echo]).any fun next =>
        decide ((next .right).completed = [long_request.delivered] ∧ (next .left).wire.length = 13)) = true := by
    decide +kernel
  obtain ⟨middle,first,found⟩ := (Option.any_eq_true _ _).mp brought
  obtain ⟨fits,brought⟩ := (Bool.and_eq_true_iff).mp found
  obtain ⟨stations,second,found⟩ := (Option.any_eq_true _ _).mp brought
  obtain ⟨⟨admissible,chunk⟩,answers⟩ := of_decide_eq_true fits
  obtain ⟨completed,wire⟩ := of_decide_eq_true found
  have begins : Follows advance long_written (.recv .right 512 zeroed []) middle := first
  have ends : Follows advance middle (.recv .right 512 zeroed [echo]) stations := second
  have whole : Whole middle (.recv .right 512 zeroed [echo]) :=
    ⟨admissible,fun _ => Option.some_ne_none _,chunk,answers⟩
  have run := ((Run.nil.snoc write).snoc begins).snoc ends
  obtain ⟨done,link,followed,sides⟩ := bytes_carry_packets _ _ _ run
    (meets_snoc.mpr ⟨meets_snoc.mpr ⟨meets_snoc.mpr ⟨meets_nil,sends_all_takes _⟩,long_begins⟩,whole⟩)
  exact ⟨_,stations,run,completed,wire,done,link,followed,by rw [(sides .right).2.2.1,completed]⟩

end Libcplus.Ipc.Channel
