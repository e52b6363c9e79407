import Libcplus.Ipc.Safety

namespace Libcplus.Ipc
open Bytes Memory Transition Typedef

def TOLERANCE_TO_DIFF_SEQUENCE : Nat := 3

def ACCUMULATE_SEQUENCE_NUMBER (seqn : Nat) : Nat := if 255 ≤ seqn then 0 else seqn + 1

-- struct ipc_client, less the socket and its callback.
structure Client where
  is_async : Bool
  seqn : Nat
  ipc_conn : Conn
  deriving DecidableEq, Repr

-- What one recv of the waiting loop brings, and the milliseconds it took.
structure Arrival where
  received : Received
  elapsed : Nat
  deriving DecidableEq, Repr

-- The arguments of one request, with what the system does during it: `send k` is
-- what the k-th send returns. The buffers are as long as the caller says.
structure Call where
  input_bufs_len : Nat
  input_bufs : Option (List UInt8)
  output_bufs_len : Nat
  output_bufs : Option (List UInt8)
  timeout : Nat
  send : Nat → Int
  arrivals : List Arrival
  input_small : input_bufs_len < 2^32
  input_room : ∀ block, input_bufs = some block → block.length = input_bufs_len
  output_room : ∀ block, output_bufs = some block → block.length = output_bufs_len

structure Reply where
  res : Int
  error : Option Errno
  output : Option (List UInt8)
  client : Client
  completed : List Delivered

-- `diff` for a packet that does not carry the request's number.
def sequence_diff (request packet : UInt8) : Nat :=
  if packet < request then request.toNat - packet.toNat else (255 - request.toNat) + packet.toNat

inductive Waiting where
  | again (c : Conn)
  | done (res : Int) (error : Option Errno) (c : Conn)

structure Waited where
  res : Int
  error : Option Errno
  conn : Conn
  completed : List Delivered

-- "Refresh timeout."
def refresh_timeout (c : Conn) (elapsed : Nat) : Conn :=
  {c with recv_timeout := c.recv_timeout - elapsed}

section
variable (outcome : Nat → Outcome)

-- The body of the waiting loop, with the packets completed in it. A wait of no
-- duration on an event that is not set gives EAGAIN; a null event is not passed.
def wait_step (seqn : UInt8) (c : Conn) (arrival : Arrival) :
    Option (Waiting × List Delivered) :=
  (ipc_conn_proc outcome c arrival.received).bind fun proc =>
    let c := proc.1
    if c.recv_count ≤ 0 then some (.done CPLUS_FAIL none c,proc.2)
    else if c.recv_timeout ≤ arrival.elapsed then
      some (.done CPLUS_FAIL (some .ETIMEDOUT) c,proc.2)
    else
      let c := refresh_timeout c arrival.elapsed
      match c.evt_packet_received with
      | none => none
      | some false => some (.again c,proc.2)
      | some true =>
        if seqn = c.packet.seqn then some (.done CPLUS_SUCCESS none c,proc.2)
        else if sequence_diff seqn c.packet.seqn < TOLERANCE_TO_DIFF_SEQUENCE then
          some (.again (reset_event c),proc.2)
        else some (.done CPLUS_FAIL (some .EILSEQ) c,proc.2)

-- While nothing more arrives the call has not returned.
def wait_response (seqn : UInt8) : Conn → List Arrival → Option Waited
  | _,[] => none
  | c,arrival :: rest =>
    (wait_step outcome seqn c arrival).bind fun step =>
      match step.1 with
      | .done res error c => some ⟨res,error,c,step.2⟩
      | .again c => (wait_response seqn c rest).map fun waited =>
          {waited with completed := step.2 ++ waited.completed}

def packet_data (c : Conn) : Option (List UInt8) :=
  match c.packet.data with
  | .null => none
  | .packet_databufs => c.packet_databufs

def request_packet (clt : Client) (call : Call) : Packet (Option (List UInt8)) :=
  ⟨.ofNat (ACCUMULATE_SEQUENCE_NUMBER clt.seqn),IPC_CMD_REQUEST,call.input_bufs_len,call.input_bufs⟩

-- After the loop: the error, or the copy to the caller's buffer.
def finish_request (clt : Client) (call : Call) (waited : Waited) : Option Reply :=
  let conn := reset_event waited.conn
  let clt := {clt with ipc_conn := conn}
  if waited.res = CPLUS_FAIL ∨ conn.sock_error ≠ none then
    some ⟨CPLUS_FAIL,if conn.sock_error ≠ none then conn.sock_error else waited.error,
      call.output_bufs,clt,waited.completed⟩
  else if call.output_bufs = none then
    some ⟨CPLUS_FAIL,some .EINVAL,call.output_bufs,clt,waited.completed⟩
  else if call.output_bufs_len = 0 then
    some ⟨CPLUS_FAIL,some .EINVAL,call.output_bufs,clt,waited.completed⟩
  else
    (cplus_mem_cpy_ex call.output_bufs 0 call.output_bufs_len (packet_data conn) 0
      conn.packet.data_len).map fun copied =>
        ⟨int32 conn.packet.data_len,none,copied.2,clt,waited.completed⟩

def cplus_ipc_client_send_request (clt : Client) (call : Call) : Option Reply :=
  let request := request_packet clt call
  let clt := {clt with seqn := ACCUMULATE_SEQUENCE_NUMBER clt.seqn}
  let count := (ipc_send_packet call.send request).1
  if 0 < count then
    if clt.is_async then some ⟨CPLUS_SUCCESS,none,call.output_bufs,clt,[]⟩
    else
      (wait_response outcome request.seqn {clt.ipc_conn with recv_timeout := call.timeout}
        call.arrivals).bind fun waited => finish_request clt call waited
  else some ⟨CPLUS_SUCCESS,none,call.output_bufs,clt,[]⟩

-- Each recv of the loop keeps to what it is asked for.
def Brings (seqn : UInt8) : Conn → List Arrival → Prop
  | _,[] => True
  | c,arrival :: rest => Admissible c arrival.received ∧
    ∀ next events, wait_step outcome seqn c arrival = some (.again next,events) →
      Brings seqn next rest

end

variable {c next : Conn} {outcome : Nat → Outcome} {log events : List Delivered}

-- The packet a connection holds when its event is set is the last it completed,
-- and its data is all there.
structure Pending (c : Conn) (log : List Delivered) : Prop where
  tail : c.recv_stage = .recv_tail → (delivered c).data.length = c.packet.data_len
  stage : c.evt_packet_received = some true → c.recv_stage = .recv_head
  last : c.evt_packet_received = some true → log.getLast? = some (delivered c)
  data : c.evt_packet_received = some true → (delivered c).data.length = c.packet.data_len

theorem pending_elsewhere (quiet : c.evt_packet_received ≠ some true)
    (elsewhere : (c.recv_stage == .recv_tail) = false) : Pending c log :=
  ⟨fun at_tail => absurd elsewhere (by rw [at_tail]; decide),fun set => absurd set quiet,fun set => absurd set quiet,
    fun set => absurd set quiet⟩

theorem pass_pending {event : Option Delivered} (pending : Pending c log)
    (pass : Pass outcome c next event) : Pending next (log ++ event.toList) := by
  have quiet : ∀ {stage}, c.recv_stage = stage → stage ≠ .recv_head →
      c.evt_packet_received ≠ some true :=
    fun at_stage other set => other (at_stage.symm.trans (pending.stage set))
  cases pass with
  | head_dropped stage =>
    rw [Option.toList_none,List.append_nil]
    exact ⟨(fun at_tail => by cases at_tail),fun _ => rfl,pending.last,pending.data⟩
  | head_matched stage =>
    rw [Option.toList_none,List.append_nil]
    exact ⟨fun at_tail => absurd (stage.symm.trans at_tail) (by decide),fun _ => stage,pending.last,
      pending.data⟩
  | head_complete stage =>
    refine pending_elsewhere ?_ rfl
    simp [consume,reset_event]
  | seqn stage | cmd stage | length_some stage | tail_dropped stage =>
    exact pending_elsewhere (quiet stage (by decide)) rfl
  | length_byte stage =>
    exact pending_elsewhere (quiet stage (by decide)) (by show (c.recv_stage == _) = _; rw [stage]; rfl)
  | length_none stage last zero =>
    have unset := quiet stage (by decide)
    refine ⟨fun _ => ?_,fun set => absurd set unset,fun set => absurd set unset,
      fun set => absurd set unset⟩
    simp only [delivered,zero]
    cases c.packet.data <;> simp
  | data_refused stage provided missing =>
    have unset := quiet stage (by decide)
    cases provided with
    | kept there => rw [there] at missing; cases missing
    | refused => exact pending_elsewhere unset rfl
    | obtained => cases missing
  | @data_copied found block written stage provided there length enough spliced =>
    have unset := quiet stage (by decide)
    have same : found.evt_packet_received = c.evt_packet_received ∧ found.packet = c.packet ∧
        found.recv_stage = c.recv_stage := by cases provided <;> exact ⟨rfl,rfl,rfl⟩
    have written_length := splice_length spliced
    unfold filled
    split
    · refine ⟨fun _ => ?_,fun set => absurd (same.1.symm.trans set) unset,
        fun set => absurd (same.1.symm.trans set) unset,
        fun set => absurd (same.1.symm.trans set) unset⟩
      simp only [delivered,Option.getD_some,List.length_take,same.2.1]
      omega
    · refine pending_elsewhere (fun set => unset (same.1.symm.trans set)) ?_
      show (found.recv_stage == _) = _
      rw [same.2.2,stage]
      rfl
  | tail_matched stage =>
    have unset := quiet stage (by decide)
    exact ⟨fun _ => pending.tail stage,fun set => absurd set unset,fun set => absurd set unset,
      fun set => absurd set unset⟩
  | tail_complete stage tag read last moves =>
    refine ⟨(fun at_tail => by cases at_tail),fun _ => rfl,fun _ => ?_,fun _ => pending.tail stage⟩
    rw [Option.toList_some,List.getLast?_concat]
    rfl
  | tail_stays stage =>
    refine ⟨(fun at_tail => by cases at_tail),fun _ => rfl,fun _ => ?_,fun _ => pending.tail stage⟩
    rw [Option.toList_some,List.getLast?_concat]
    rfl

theorem recv_pending {received : Received} (pending : Pending c log)
    (stored : ipc_conn_recv c received = some next) : Pending next log := by
  obtain ⟨_,stage,event,packet,databufs,_⟩ := recv_untouched stored
  have same : delivered next = delivered c := by simp only [delivered,packet,databufs]
  refine ⟨?_,?_,?_,?_⟩
  · rw [stage,same,packet]; exact pending.tail
  · rw [stage,event]; exact pending.stage
  · rw [event,same]; exact pending.last
  · rw [event,same,packet]; exact pending.data

-- The connection of a synchronous client: it has an event, a closed one has
-- received nothing in its last recv, and bytes clear the socket error.
structure Settled (c : Conn) : Prop where
  sync : c.is_async = false
  event : c.evt_packet_received.isSome = true
  closed : c.status = .not_connected → c.recv_count ≤ 0
  clear : 0 < c.recv_count → c.sock_error = none

theorem settled_of_outer (settled : Settled c) (same : outer next = outer c) : Settled next := by
  simp only [outer,Prod.mk.injEq] at same
  obtain ⟨async,_,status,error,count,event⟩ := same
  exact ⟨async.trans settled.sync,event.trans settled.event,
    by rw [status,count]; exact settled.closed,by rw [error,count]; exact settled.clear⟩

theorem recv_settled {received : Received} (settled : Settled c)
    (stored : ipc_conn_recv c received = some next) : Settled next := by
  have wrapped := settled_of_outer settled (wrap_offset_outer c)
  cases received with
  | data bytes =>
    simp only [ipc_conn_recv,store_received,Option.map_eq_some_iff] at stored
    obtain ⟨_,_,rfl⟩ := stored
    exact ⟨wrapped.sync,wrapped.event,(fun closed => by cases closed),fun _ => rfl⟩
  | closed =>
    cases stored
    exact ⟨wrapped.sync,wrapped.event,fun _ => Int.le_refl 0,fun more => by cases more⟩
  | error =>
    cases stored
    exact ⟨wrapped.sync,wrapped.event,fun _ => by show (-1 : Int) ≤ 0; omega,
      fun more => by cases more⟩

structure Waits (c : Conn) (log : List Delivered) : Prop where
  safe : Safe c
  pending : Pending c log
  settled : Settled c

-- A call of ipc_conn_proc keeps the parser's bounds and knows what it holds.
theorem proc_waits {received : Received} (waits : Waits c log)
    (admissible : Admissible c received)
    (result : ipc_conn_proc outcome c received = some (next,events)) :
    Waits next (log ++ events) := by
  have bounded : (Session.mk c 0 log).Bounded := ⟨waits.safe,Nat.zero_le _⟩
  obtain ⟨last,other,walker,moves,same,run,_⟩ :=
    proc_runs (s := ⟨c,0,log⟩) outcome bounded (Nat.zero_le _) admissible
  have agree : some (last,other) = some (next,events) := same.symm.trans result
  cases agree
  obtain ⟨bounded,pending,settled⟩ := (run.invariant
    (J := fun s => s.Bounded ∧ Pending s.conn s.completed ∧ Settled s.conn)
    ⟨bounded,waits.pending,waits.settled⟩ fun {s a t} held taken => by
      refine ⟨step_bounded held.1 taken,?_⟩
      cases a with
      | recv received =>
        obtain ⟨_,_,stored,store,rfl⟩ := recv_parts taken
        exact ⟨recv_pending held.2.1 store,recv_settled held.2.2 store⟩
      | pass =>
        obtain ⟨_,_,event,completed,_,pass⟩ := pass_parts held.1 taken
        rw [completed]
        exact ⟨pass_pending held.2.1 pass,settled_of_outer held.2.2 (pass_outer pass)⟩).1
  exact ⟨bounded.safe,pending,settled⟩

theorem timeout_waits (waits : Waits c log) (recv_timeout : Nat) :
    Waits {c with recv_timeout := recv_timeout} log := by
  obtain ⟨⟨bufs,size,offset,sub,completed,data_len,databufs,positive,idle,filling⟩,
    ⟨tail,stage,last,data⟩,⟨sync,event,closed,clear⟩⟩ := waits
  exact ⟨⟨bufs,size,offset,sub,completed,data_len,databufs,positive,idle,filling⟩,
    ⟨tail,stage,last,data⟩,⟨sync,event,closed,clear⟩⟩

-- Without a packet to look at, what was completed before does not matter.
theorem quiet_waits (waits : Waits c log) (unset : c.evt_packet_received = some false)
    (later : List Delivered) : Waits c later := by
  have quiet : c.evt_packet_received ≠ some true := by rw [unset]; nofun
  exact ⟨waits.safe,⟨waits.pending.tail,fun set => absurd set quiet,fun set => absurd set quiet,
    fun set => absurd set quiet⟩,waits.settled⟩

theorem reset_waits (waits : Waits c log) (later : List Delivered) :
    Waits (reset_event c) later := by
  obtain ⟨⟨bufs,size,offset,sub,completed,data_len,databufs,positive,idle,filling⟩,
    ⟨tail,stage,last,data⟩,⟨sync,event,closed,clear⟩⟩ := waits
  have unset : (reset_event c).evt_packet_received ≠ some true := by
    simp [reset_event]
  exact ⟨⟨bufs,size,offset,sub,completed,data_len,databufs,positive,idle,filling⟩,
    ⟨tail,fun set => absurd set unset,fun set => absurd set unset,fun set => absurd set unset⟩,
    ⟨sync,by simpa [reset_event] using event,closed,clear⟩⟩

-- The arrivals of a call bring the answer to its request: every recv before is
-- in time and leaves no packet or one to be dropped, and this one leaves a
-- packet that carries the request's number.
inductive Answers (outcome : Nat → Outcome) (seqn : UInt8) :
    Conn → List Arrival → Conn → Prop where
  | now {c d arrival rest events} (proc : ipc_conn_proc outcome c arrival.received = some (d,events))
      (received : 0 < d.recv_count) (in_time : arrival.elapsed < d.recv_timeout)
      (set : d.evt_packet_received = some true) (own : seqn = d.packet.seqn) :
      Answers outcome seqn c (arrival :: rest) (refresh_timeout d arrival.elapsed)
  | later {c d arrival rest events answered}
      (proc : ipc_conn_proc outcome c arrival.received = some (d,events))
      (received : 0 < d.recv_count) (in_time : arrival.elapsed < d.recv_timeout)
      (unset : d.evt_packet_received = some false)
      (more : Answers outcome seqn (refresh_timeout d arrival.elapsed) rest answered) :
      Answers outcome seqn c (arrival :: rest) answered
  | dropped {c d arrival rest events answered}
      (proc : ipc_conn_proc outcome c arrival.received = some (d,events))
      (received : 0 < d.recv_count) (in_time : arrival.elapsed < d.recv_timeout)
      (set : d.evt_packet_received = some true) (other : seqn ≠ d.packet.seqn)
      (tolerable : sequence_diff seqn d.packet.seqn < TOLERANCE_TO_DIFF_SEQUENCE)
      (more : Answers outcome seqn
        (reset_event (refresh_timeout d arrival.elapsed)) rest answered) :
      Answers outcome seqn c (arrival :: rest) answered

-- Everything one turn of the loop can come to, once the recv is done.
inductive Turn (seqn : UInt8) (elapsed : Nat) (d : Conn) : Waiting → Prop where
  | nothing (received : d.recv_count ≤ 0) : Turn seqn elapsed d (.done CPLUS_FAIL none d)
  | timed_out (received : 0 < d.recv_count) (late : d.recv_timeout ≤ elapsed) :
      Turn seqn elapsed d (.done CPLUS_FAIL (some .ETIMEDOUT) d)
  | unset (received : 0 < d.recv_count) (in_time : elapsed < d.recv_timeout)
      (unset : d.evt_packet_received = some false) :
      Turn seqn elapsed d (.again (refresh_timeout d elapsed))
  | own (received : 0 < d.recv_count) (in_time : elapsed < d.recv_timeout)
      (set : d.evt_packet_received = some true) (own : seqn = d.packet.seqn) :
      Turn seqn elapsed d
        (.done CPLUS_SUCCESS none (refresh_timeout d elapsed))
  | dropped (received : 0 < d.recv_count) (in_time : elapsed < d.recv_timeout)
      (set : d.evt_packet_received = some true) (other : seqn ≠ d.packet.seqn)
      (tolerable : sequence_diff seqn d.packet.seqn < TOLERANCE_TO_DIFF_SEQUENCE) :
      Turn seqn elapsed d
        (.again (reset_event (refresh_timeout d elapsed)))
  | foreign (received : 0 < d.recv_count) (in_time : elapsed < d.recv_timeout)
      (set : d.evt_packet_received = some true) (other : seqn ≠ d.packet.seqn)
      (far : ¬ sequence_diff seqn d.packet.seqn < TOLERANCE_TO_DIFF_SEQUENCE) :
      Turn seqn elapsed d (.done CPLUS_FAIL (some .EILSEQ)
        (refresh_timeout d elapsed))

theorem wait_step_parts (seqn : UInt8) (arrival : Arrival) {d : Conn}
    (proc : ipc_conn_proc outcome c arrival.received = some (d,events))
    (event : d.evt_packet_received.isSome = true) :
    ∃ waiting, wait_step outcome seqn c arrival = some (waiting,events) ∧
      Turn seqn arrival.elapsed d waiting := by
  unfold wait_step
  simp only [proc,Option.bind_some]
  by_cases received : d.recv_count ≤ 0
  · exact ⟨_,by rw [if_pos received],.nothing received⟩
  · by_cases late : d.recv_timeout ≤ arrival.elapsed
    · exact ⟨_,by rw [if_neg received,if_pos late],.timed_out (by omega) late⟩
    · have some : 0 < d.recv_count := by omega
      have in_time : arrival.elapsed < d.recv_timeout := by omega
      have same : (refresh_timeout d arrival.elapsed).evt_packet_received = d.evt_packet_received := rfl
      rw [if_neg received,if_neg late,same]
      cases set : d.evt_packet_received with
      | none => rw [set] at event; cases event
      | some flag =>
        cases flag with
        | false => exact ⟨_,rfl,.unset some in_time set⟩
        | true =>
          by_cases own : seqn = (refresh_timeout d arrival.elapsed).packet.seqn
          · exact ⟨_,by simp only [if_pos own],.own some in_time set own⟩
          · by_cases tolerable : sequence_diff seqn (refresh_timeout d arrival.elapsed).packet.seqn <
                TOLERANCE_TO_DIFF_SEQUENCE
            · exact ⟨_,by simp only [if_neg own,if_pos tolerable],
                .dropped some in_time set own tolerable⟩
            · exact ⟨_,by simp only [if_neg own,if_neg tolerable],
                .foreign some in_time set own tolerable⟩

-- What a finished wait knows: it succeeded on the packet that answers, or
-- nothing does.
structure Ended (outcome : Nat → Outcome) (seqn : UInt8) (c : Conn) (arrivals : List Arrival)
    (log : List Delivered) (waited : Waited) : Prop where
  waits : Waits waited.conn (log ++ waited.completed)
  result : waited.res = CPLUS_SUCCESS ∧ Answers outcome seqn c arrivals waited.conn ∧
      waited.conn.evt_packet_received = some true ∧ waited.conn.packet.seqn = seqn ∧
      waited.conn.sock_error = none ∨
    waited.res = CPLUS_FAIL
  only : ∀ d, Answers outcome seqn c arrivals d → waited.res = CPLUS_SUCCESS ∧ d = waited.conn

theorem answers_parts {seqn : UInt8} {arrival : Arrival} {rest : List Arrival} {d answered : Conn}
    (proc : ipc_conn_proc outcome c arrival.received = some (d,events))
    (answers : Answers outcome seqn c (arrival :: rest) answered) :
    0 < d.recv_count ∧ arrival.elapsed < d.recv_timeout ∧
    (d.evt_packet_received = some true ∧ seqn = d.packet.seqn ∧
        answered = refresh_timeout d arrival.elapsed ∨
      d.evt_packet_received = some false ∧
        Answers outcome seqn (refresh_timeout d arrival.elapsed) rest answered ∨
      d.evt_packet_received = some true ∧ seqn ≠ d.packet.seqn ∧
        sequence_diff seqn d.packet.seqn < TOLERANCE_TO_DIFF_SEQUENCE ∧
        Answers outcome seqn (reset_event (refresh_timeout d arrival.elapsed)) rest answered) := by
  cases answers with
  | now same received in_time set own =>
    cases proc.symm.trans same
    exact ⟨received,in_time,.inl ⟨set,own,rfl⟩⟩
  | later same received in_time unset more =>
    cases proc.symm.trans same
    exact ⟨received,in_time,.inr (.inl ⟨unset,more⟩)⟩
  | dropped same received in_time set other tolerable more =>
    cases proc.symm.trans same
    exact ⟨received,in_time,.inr (.inr ⟨set,other,tolerable,more⟩)⟩

theorem wait_response_ended {seqn : UInt8} (arrivals : List Arrival) (waits : Waits c log)
    (brings : Brings outcome seqn c arrivals) {waited : Waited}
    (ended : wait_response outcome seqn c arrivals = some waited) :
    Ended outcome seqn c arrivals log waited := by
  induction arrivals generalizing c log waited with
  | nil => cases ended
  | cons arrival rest ih =>
    obtain ⟨admissible,later⟩ := brings
    cases proc : ipc_conn_proc outcome c arrival.received with
    | none => simp [wait_response,wait_step,proc] at ended
    | some result =>
      obtain ⟨d,brought⟩ := result
      have held := proc_waits waits admissible proc
      have refreshed : Waits (refresh_timeout d arrival.elapsed) (log ++ brought) :=
        timeout_waits held _
      obtain ⟨waiting,step,turn⟩ := wait_step_parts seqn arrival proc held.settled.event
      rw [wait_response,step,Option.bind_some] at ended
      cases turn with
      | nothing received =>
        cases ended
        refine ⟨held,.inr rfl,fun answered answers => ?_⟩
        have := (answers_parts proc answers).1
        omega
      | timed_out received late =>
        cases ended
        refine ⟨held,.inr rfl,fun answered answers => ?_⟩
        have := (answers_parts proc answers).2.1
        omega
      | unset received in_time unset =>
        simp only [Option.map_eq_some_iff] at ended
        obtain ⟨tail,final,rfl⟩ := ended
        have last := ih refreshed (later _ _ step) final
        have joined := last.waits
        rw [List.append_assoc] at joined
        refine ⟨joined,?_,fun answered answers => ?_⟩
        · rcases last.result with ⟨res,answers,rest⟩ | failed
          · exact .inl ⟨res,.later proc received in_time unset answers,rest⟩
          · exact .inr failed
        · rcases (answers_parts proc answers).2.2 with ⟨set,_⟩ | ⟨_,more⟩ | ⟨set,_⟩
          · rw [unset] at set; cases set
          · exact last.only answered more
          · rw [unset] at set; cases set
      | own received in_time set own =>
        cases ended
        refine ⟨refreshed,.inl ⟨rfl,.now proc received in_time set own,set,own.symm,
          held.settled.clear received⟩,fun answered answers => ?_⟩
        rcases (answers_parts proc answers).2.2 with ⟨_,_,same⟩ | ⟨unset,_⟩ | ⟨_,other,_⟩
        · exact ⟨rfl,same⟩
        · rw [set] at unset; cases unset
        · exact absurd own other
      | dropped received in_time set other tolerable =>
        simp only [Option.map_eq_some_iff] at ended
        obtain ⟨tail,final,rfl⟩ := ended
        have last := ih (reset_waits refreshed (log ++ brought)) (later _ _ step) final
        have joined := last.waits
        rw [List.append_assoc] at joined
        refine ⟨joined,?_,fun answered answers => ?_⟩
        · rcases last.result with ⟨res,answers,rest⟩ | failed
          · exact .inl ⟨res,.dropped proc received in_time set other tolerable answers,rest⟩
          · exact .inr failed
        · rcases (answers_parts proc answers).2.2 with ⟨_,own,_⟩ | ⟨unset,_⟩ | ⟨_,_,_,more⟩
          · exact absurd own other
          · rw [set] at unset; cases unset
          · exact last.only answered more
      | foreign received in_time set other far =>
        cases ended
        refine ⟨refreshed,.inr rfl,fun answered answers => ?_⟩
        rcases (answers_parts proc answers).2.2 with ⟨_,own,_⟩ | ⟨unset,_⟩ | ⟨_,_,tolerable,_⟩
        · exact absurd own other
        · rw [set] at unset; cases unset
        · exact absurd tolerable far

-- The request went out: it has data, and every send took its piece whole.
structure Sent (clt : Client) (call : Call) : Prop where
  positive : 0 < call.input_bufs_len
  small : call.input_bufs_len < 2^31
  pointed : call.input_bufs.isSome = true
  taken : TakesAll call.send 0 (pieces (request_packet clt call))

variable {clt : Client} {call : Call}

theorem request_pieces {block : List UInt8} (pointed : call.input_bufs = some block)
    (positive : 0 < call.input_bufs_len) :
    pieces (request_packet clt call) =
      [[0x53,0x54,0x58],[(request_packet clt call).seqn],[IPC_CMD_REQUEST],
        bigEndian32 call.input_bufs_len,block,[0x45,0x54,0x58]] := by
  have whole : block.take call.input_bufs_len = block :=
    List.take_of_length_le (call.input_room block pointed).le
  simp [pieces,request_packet,pointed,positive,whole,IPC_CONN_PACKET_BEGIN_TAG,
    IPC_CONN_PACKET_END_TAG,IPC_CONN_PACKET_TAG_SIZE]

theorem request_sent : 0 < (ipc_send_packet call.send (request_packet clt call)).1 ↔ Sent clt call := by
  constructor
  · intro sent
    unfold ipc_send_packet at sent
    split at sent
    · cases sent
    · split at sent
      · cases sent
      · rename_i pointed
        simp only at sent
        split at sent
        · rename_i all
          have positive : 0 < call.input_bufs_len := Int.natCast_pos.mp sent
          cases there : call.input_bufs with
          | none => exact absurd ⟨positive,there⟩ pointed
          | some block =>
            obtain ⟨taken,sizes⟩ := send_each_parts _ _ _ all
            have size := sizes block (by rw [request_pieces there positive]; simp)
            rw [call.input_room block there] at size
            exact ⟨positive,(int32_positive call.input_small size).2,by rw [there]; rfl,taken⟩
        · cases sent
  · intro sent
    obtain ⟨block,there⟩ := Option.isSome_iff_exists.mp sent.pointed
    have length := call.input_room block there
    have all : send_each call.send 0 (pieces (request_packet clt call)) =
        (true,pieces (request_packet clt call)) := by
      refine send_each_takes _ _ _ (fun piece member => ?_) sent.taken
      rw [request_pieces there sent.positive] at member
      have := sent.positive
      have := sent.small
      simp only [List.mem_cons,List.not_mem_nil,or_false] at member
      rcases member with rfl | rfl | rfl | rfl | rfl | rfl <;> simp
      omega
    have command : ¬ IPC_CMD_MAX - 1 < (request_packet clt call).cmd := by
      show ¬ IPC_CMD_MAX - 1 < IPC_CMD_REQUEST
      decide
    have pointed : ¬ (0 < (request_packet clt call).data_len ∧
        (request_packet clt call).data = none) := by
      simp [request_packet,there]
    unfold ipc_send_packet
    rw [if_neg command,if_neg pointed,all]
    exact Int.natCast_pos.mpr sent.positive

-- The connection of a synchronous client between two calls.
structure Idle (clt : Client) : Prop where
  sync : clt.is_async = false
  waits : Waits clt.ipc_conn []
  unset : clt.ipc_conn.evt_packet_received = some false
  seqn : clt.seqn ≤ 255

-- ipc_client_new without a callback for what is received. The heartbeat it
-- sends takes the first number.
def ipc_client_new : Client := ⟨false,ACCUMULATE_SEQUENCE_NUMBER 0,connected false⟩

-- The calls on a client: a request, or a oneway or heartbeat packet, of which
-- the client keeps the number only.
inductive Calling where
  | request (call : Call)
  | notify

-- What the recvs of one call bring, and the packet among it that ends the wait.
def Call.Brings (outcome : Nat → Outcome) (clt : Client) (call : Call) : Prop :=
  Ipc.Brings outcome (request_packet clt call).seqn
    {clt.ipc_conn with recv_timeout := call.timeout} call.arrivals

def Call.Answers (outcome : Nat → Outcome) (clt : Client) (call : Call) (c : Conn) : Prop :=
  Ipc.Answers outcome (request_packet clt call).seqn
    {clt.ipc_conn with recv_timeout := call.timeout} call.arrivals c

def Client.Step (outcome : Nat → Outcome) (clt : Client) : Calling → Client → Prop
  | .request call,after => call.Brings outcome clt ∧
    ∃ reply, cplus_ipc_client_send_request outcome clt call = some reply ∧ reply.client = after
  | .notify,after => after = {clt with seqn := ACCUMULATE_SEQUENCE_NUMBER clt.seqn}

variable {waited : Waited} {reply : Reply}

theorem accumulate_small (seqn : Nat) : ACCUMULATE_SEQUENCE_NUMBER seqn ≤ 255 := by
  unfold ACCUMULATE_SEQUENCE_NUMBER
  split <;> omega

theorem client_new_idle : Idle ipc_client_new where
  sync := rfl
  waits := ⟨connected_safe false,pending_elsewhere nofun rfl,rfl,rfl,nofun,fun _ => rfl⟩
  unset := rfl
  seqn := accumulate_small 0

-- What follows the loop: a failure that leaves the caller's buffer alone, or the copy.
theorem finish_parts (finished : finish_request clt call waited = some reply) :
    reply.client = {clt with ipc_conn := reset_event waited.conn} ∧
    reply.completed = waited.completed ∧
    (reply.res = CPLUS_FAIL ∧ (waited.res = CPLUS_FAIL ∨ waited.conn.sock_error ≠ none ∨
        call.output_bufs = none ∨ call.output_bufs_len = 0) ∨
      waited.res ≠ CPLUS_FAIL ∧ call.output_bufs.isSome = true ∧ 0 < call.output_bufs_len ∧
        reply.res = int32 waited.conn.packet.data_len ∧
        ∃ flag, cplus_mem_cpy_ex call.output_bufs 0 call.output_bufs_len (packet_data waited.conn) 0
          waited.conn.packet.data_len = some (flag,reply.output)) := by
  unfold finish_request at finished
  simp only at finished
  split at finished
  · rename_i failed
    cases finished
    refine ⟨rfl,rfl,.inl ⟨rfl,?_⟩⟩
    rcases failed with failed | error
    · exact .inl failed
    · exact .inr (.inl error)
  · rename_i fine
    split at finished
    · rename_i null
      cases finished
      exact ⟨rfl,rfl,.inl ⟨rfl,.inr (.inr (.inl null))⟩⟩
    · rename_i pointed
      split at finished
      · rename_i empty
        cases finished
        exact ⟨rfl,rfl,.inl ⟨rfl,.inr (.inr (.inr empty))⟩⟩
      · rename_i room
        rw [Option.map_eq_some_iff] at finished
        obtain ⟨⟨flag,output⟩,copied,rfl⟩ := finished
        exact ⟨rfl,rfl,.inr ⟨fun failed => fine (.inl failed),Option.isSome_iff_ne_none.mpr pointed,
          by omega,rfl,flag,copied⟩⟩

theorem request_parts (idle : Idle clt) (brings : call.Brings outcome clt)
    (returned : cplus_ipc_client_send_request outcome clt call = some reply) :
    ¬ Sent clt call ∧ reply = ⟨CPLUS_SUCCESS,none,call.output_bufs,
        {clt with seqn := ACCUMULATE_SEQUENCE_NUMBER clt.seqn},[]⟩ ∨
      Sent clt call ∧ ∃ waited, Ended outcome (request_packet clt call).seqn
          {clt.ipc_conn with recv_timeout := call.timeout} call.arrivals [] waited ∧
        finish_request {clt with seqn := ACCUMULATE_SEQUENCE_NUMBER clt.seqn} call waited =
          some reply := by
  have sync := idle.sync
  unfold cplus_ipc_client_send_request at returned
  simp only at returned
  split at returned
  · rename_i sent
    rw [if_neg (by simp [sync])] at returned
    obtain ⟨waited,ended,finished⟩ := Option.bind_eq_some_iff.mp returned
    exact .inr ⟨request_sent.mp sent,waited,
      wait_response_ended call.arrivals (timeout_waits idle.waits _) brings ended,finished⟩
  · rename_i unsent
    cases returned
    exact .inl ⟨fun sent => unsent (request_sent.mpr sent),rfl⟩

-- Every call leaves the connection as a fresh call needs it.
theorem step_idle {calling : Calling} {after : Client} (idle : Idle clt)
    (step : Client.Step outcome clt calling after) : Idle after := by
  have counted : Idle {clt with seqn := ACCUMULATE_SEQUENCE_NUMBER clt.seqn} :=
    ⟨idle.sync,idle.waits,idle.unset,accumulate_small _⟩
  cases calling with
  | notify =>
    obtain rfl : after = _ := step
    exact counted
  | request call =>
    obtain ⟨brings,reply,returned,rfl⟩ := step
    rcases request_parts idle brings returned with ⟨_,rfl⟩ | ⟨_,waited,ended,finished⟩
    · exact counted
    · rw [(finish_parts finished).1]
      refine ⟨idle.sync,reset_waits ended.waits [],?_,accumulate_small _⟩
      obtain ⟨flag,event⟩ := Option.isSome_iff_exists.mp ended.waits.settled.event
      simp only [reset_event,event,Option.map_some]

theorem run_idle {moves : List (Move Client Calling)}
    (run : Run (Client.Step outcome) ipc_client_new moves clt) : Idle clt :=
  (run.invariant client_new_idle step_idle).1

-- A value n ≥ 0 is the length of the response to this request, and the
-- caller's buffer holds its bytes.
def Sound (seqn : UInt8) (reply : Reply) : Prop :=
  0 ≤ reply.res → ∃ d, reply.completed.getLast? = some d ∧ d.seqn = seqn ∧
    d.cmd = IPC_CMD_RESPONSE ∧ reply.res = d.data_len ∧ d.data.length = d.data_len ∧
    ∃ block, reply.output = some block ∧ block.take d.data_len = d.data

-- A response that the copy to the caller's buffer takes whole, or that the
-- buffer happens to hold.
def Fits (call : Call) (d : Delivered) : Prop :=
  d.cmd = IPC_CMD_RESPONSE ∧
    (d.data_len = 0 ∨ d.data_len ≤ call.output_bufs_len ∧ call.output_bufs_len ≤ RSIZE_MAX_MEM ∨
      ∃ block, call.output_bufs = some block ∧ block.take d.data_len = d.data)

theorem response_copied (waits : Waits c log) (set : c.evt_packet_received = some true)
    {block : List UInt8} (length : block.length = call.output_bufs_len)
    (pointed : call.output_bufs = some block) :
    ∃ flag written, cplus_mem_cpy_ex call.output_bufs 0 call.output_bufs_len (packet_data c) 0
        c.packet.data_len = some (flag,some written) ∧
      (written.take c.packet.data_len = (delivered c).data ↔
        c.packet.data_len = 0 ∨ c.packet.data_len ≤ call.output_bufs_len ∧
            call.output_bufs_len ≤ RSIZE_MAX_MEM ∨ block.take c.packet.data_len = (delivered c).data) := by
  have whole := waits.pending.data set
  rw [pointed]
  by_cases refused : packet_data c = none ∨ (call.output_bufs_len = 0 ∨
      call.output_bufs_len > RSIZE_MAX_MEM ∨ c.packet.data_len = 0 ∨
      c.packet.data_len > call.output_bufs_len)
  · refine ⟨false,block,mem_cpy_ex_refuses refused,fun same => .inr (.inr same),fun held => ?_⟩
    have empty : c.packet.data_len = 0 → block.take c.packet.data_len = (delivered c).data := by
      intro zero
      rw [zero] at whole ⊢
      rw [List.take_zero,List.length_eq_zero_iff.mp whole]
    have missing : packet_data c = none → c.packet.data_len = 0 := by
      intro none
      rw [← whole]
      unfold packet_data at none
      unfold delivered
      cases pointer : c.packet.data <;> simp_all
    rcases held with zero | ⟨room,small⟩ | same
    · exact empty zero
    · rcases refused with none | empty_buffer | large | zero | long
      · exact empty (missing none)
      · exact empty (by omega)
      · omega
      · exact empty zero
      · omega
    · exact same
  · simp only [not_or,gt_iff_lt,Nat.not_lt] at refused
    obtain ⟨there,room,small,positive,fits⟩ := refused
    obtain ⟨source,found⟩ := Option.ne_none_iff_exists'.mp there
    have data : (delivered c).data = source.take c.packet.data_len := by
      unfold packet_data at found
      unfold delivered
      cases pointer : c.packet.data <;> simp_all
    have enough : 0 + c.packet.data_len ≤ source.length := by
      rw [data,List.length_take] at whole
      omega
    obtain ⟨written,spliced,done⟩ := mem_cpy_ex_copies
      (show 0 + c.packet.data_len ≤ block.length by omega) enough (by omega) fits small
    rw [found]
    refine ⟨true,written,done,fun _ => .inr (.inl ⟨fits,small⟩),fun _ => ?_⟩
    have taken := splice_take spliced
    have length : ((source.drop 0).take c.packet.data_len).length = c.packet.data_len := by
      rw [List.drop_zero,List.length_take]
      omega
    rw [length,Nat.zero_add,List.drop_zero,List.take_zero,List.nil_append] at taken
    rw [taken,data]

theorem int32_sign {n : Nat} (small : n < 2^32) : 0 ≤ int32 n ↔ n < 2^31 := by
  unfold int32
  rw [Nat.mod_eq_of_lt small]
  split <;> omega

theorem response_sound {moves : List (Move Client Calling)}
    (run : Run (Client.Step outcome) ipc_client_new moves clt)
    (brings : call.Brings outcome clt)
    (returned : cplus_ipc_client_send_request outcome clt call = some reply) :
    Sound (request_packet clt call).seqn reply ↔
      Sent clt call ∧ ∀ c, call.Answers outcome clt c →
        call.output_bufs.isSome = true → 0 < call.output_bufs_len → c.packet.data_len < 2^31 →
        Fits call (delivered c) := by
  rcases request_parts (run_idle run) brings returned with ⟨unsent,rfl⟩ | ⟨sent,waited,ended,finished⟩
  · refine ⟨fun sound => ?_,fun held => absurd held.1 unsent⟩
    obtain ⟨_,none,_⟩ := sound (Int.le_refl 0)
    cases none
  · obtain ⟨_,completed,failed | ⟨result,pointed,room,res,flag,copied⟩⟩ := finish_parts finished
    · -- a failure is sound, and no packet that answers came with a usable buffer
      refine ⟨fun _ => ⟨sent,fun c answers pointed room _ => ?_⟩,fun _ positive => ?_⟩
      · obtain ⟨success,rfl⟩ := ended.only c answers
        rcases ended.result with ⟨_,_,_,_,clear⟩ | failure
        · rcases failed.2 with failure | error | null | empty
          · rw [success] at failure; cases failure
          · exact absurd clear error
          · rw [null] at pointed; cases pointed
          · omega
        · rw [success] at failure; cases failure
      · rw [failed.1] at positive
        cases positive
    · rcases ended.result with ⟨_,answers,set,own,_⟩ | failure
      · have length := ended.waits.pending.data set
        have last : reply.completed.getLast? = some (delivered waited.conn) := by
          rw [completed]
          exact ended.waits.pending.last set
        obtain ⟨block,there⟩ := Option.isSome_iff_exists.mp pointed
        obtain ⟨_,written,done,same⟩ := response_copied ended.waits set
          (call.output_room block there) there
        have output : reply.output = some written :=
          (Prod.mk.inj (Option.some.inj (copied.symm.trans done))).2
        have sign : 0 ≤ reply.res ↔ waited.conn.packet.data_len < 2^31 := by
          rw [res]
          exact int32_sign ended.waits.safe.data_len
        constructor
        · refine fun sound => ⟨sent,fun c other _ _ small => ?_⟩
          obtain rfl := (ended.only c other).2
          obtain ⟨d,held,_,response,_,_,taken,found,bytes⟩ := sound (sign.mpr small)
          cases last.symm.trans held
          cases output.symm.trans found
          refine ⟨response,?_⟩
          rcases same.mp bytes with zero | fits | coincide
          · exact .inl zero
          · exact .inr (.inl fits)
          · exact .inr (.inr ⟨block,there,coincide⟩)
        · refine fun held positive => ?_
          have small := sign.mp positive
          obtain ⟨response,fits⟩ := held.2 _ answers pointed room small
          refine ⟨_,last,own,response,?_,length,written,output,same.mpr ?_⟩
          · rw [res,int32_small small]
            rfl
          · rcases fits with zero | fits | ⟨_,again,coincide⟩
            · exact .inl zero
            · exact .inr (.inl fits)
            · cases there.symm.trans again
              exact .inr (.inr coincide)
      · exact absurd failure result

-- One byte out, and a response of one byte in.
def ping : Call where
  input_bufs_len := 1
  input_bufs := some [7]
  output_bufs_len := 4
  output_bufs := some [0,0,0,0]
  timeout := 1000
  send k := [3,1,1,4,1,3].getD k 0
  arrivals := [⟨.data [0x53,0x54,0x58,2,3,0,0,0,1,9,0x45,0x54,0x58],5⟩]
  input_small := by decide
  input_room := by simp
  output_room := by simp

theorem ping_sound : ∃ reply,
    cplus_ipc_client_send_request (fun _ => some fun _ => 0) ipc_client_new ping = some reply ∧
      Sound (request_packet ipc_client_new ping).seqn reply ∧ Sent ipc_client_new ping := by
  have shown : (cplus_ipc_client_send_request (fun _ => some fun _ => 0) ipc_client_new ping).map
      (fun reply => (reply.res,reply.completed,reply.output)) =
        some (1,[⟨2,IPC_CMD_RESPONSE,1,[9]⟩],some [9,0,0,0]) := by decide +kernel
  obtain ⟨reply,returned,same⟩ := Option.map_eq_some_iff.mp shown
  simp only [Prod.mk.injEq] at same
  obtain ⟨res,completed,output⟩ := same
  have sound : Sound (request_packet ipc_client_new ping).seqn reply := fun _ => by
    rw [res,completed,output]
    exact ⟨_,rfl,rfl,rfl,rfl,rfl,_,rfl,rfl⟩
  have brings : ping.Brings (fun _ => some fun _ => 0) ipc_client_new :=
    ⟨by decide +kernel,fun _ _ _ => trivial⟩
  have held := (response_sound .nil brings returned).mp sound
  exact ⟨reply,returned,sound,held.1⟩

-- A request without data goes out, but the count of its send stays 0, and the
-- call returns 0 without a wait.
def silence : Call :=
  {ping with
    input_bufs_len := 0
    input_bufs := some []
    send := fun k => [3,1,1,4,3].getD k 0
    arrivals := []
    input_small := by decide
    input_room := by simp}

theorem silence_unsound :
    ¬ ∀ (outcome : Nat → Outcome) (moves : List (Move Client Calling)) (clt : Client) (call : Call)
      (reply : Reply), Run (Client.Step outcome) ipc_client_new moves clt →
      call.Brings outcome clt →
      cplus_ipc_client_send_request outcome clt call = some reply →
      Sound (request_packet clt call).seqn reply := by
  intro claim
  have unsent : ¬ 0 < (ipc_send_packet silence.send (request_packet ipc_client_new silence)).1 := by
    decide
  have returned : cplus_ipc_client_send_request (fun _ => none) ipc_client_new silence =
      some ⟨CPLUS_SUCCESS,none,silence.output_bufs,
        {ipc_client_new with seqn := ACCUMULATE_SEQUENCE_NUMBER ipc_client_new.seqn},[]⟩ := by
    simp only [cplus_ipc_client_send_request,if_neg unsent]
  obtain ⟨_,none,_⟩ := claim _ [] _ silence _ .nil trivial returned (Int.le_refl 0)
  cases none

end Libcplus.Ipc
