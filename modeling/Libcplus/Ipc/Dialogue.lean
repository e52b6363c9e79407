import Libcplus.Exchange
import Libcplus.Ipc.Parser
import Libcplus.Ipc.Response

-- The packets that the two ends of a connection send each other: packet_analyze_completed
-- answers each completed packet to the end that it came from.
namespace Libcplus.Ipc.Dialogue
open Bytes Memory Transition Exchange Typedef
open Response (Responder Completed created)

abbrev Outgoing := Packet (Option (List UInt8))

def ack (e : Completed) : Outgoing := ⟨e.seqn,IPC_CMD_ACK,0,none⟩

abbrev Handling := (Int × Responder) × List Outgoing

-- packet_analyze_completed beside the packets that it gives to ipc_send_packet: only
-- the end of a branch gives one.
def respond (c : Responder) (e : Completed) (block : List UInt8) (dataout_size : Nat) (last : Response.Answer) : Option Handling :=
  (Response.respond c e block dataout_size last).map fun result => (result,
    if e.cmd = IPC_CMD_REQUEST then
      if c.response_data_size ≠ 0 then [⟨e.seqn,IPC_CMD_RESPONSE,dataout_size,some block⟩] else []
    else if e.cmd = IPC_CMD_RESPONSE then [ack e] else [])

def grow (c : Responder) (e : Completed) (block : List UInt8) : Option Handling :=
  match cplus_realloc e.growth block e.first.length with
  | none => some ((CPLUS_FAIL,{c with response_data := none}),[])
  | some larger => (cplus_mem_set (some larger) 0 e.first.length).bind fun cleared =>
      cleared.2.bind fun larger => (e.second.write e.first.length larger).bind fun block =>
        let c := {c with response_data_size := e.second.length}
        if e.second.res = CPLUS_FAIL then some ((CPLUS_FAIL,{c with response_data := some block}),[])
        else respond c e block e.first.length e.second

def receive (c : Responder) (e : Completed) (block : List UInt8) : Option Handling :=
  (e.first.write c.response_data_size block).bind fun block =>
    if e.first.res = CPLUS_FAIL then some ((CPLUS_FAIL,{c with response_data := some block}),[])
    else if c.response_data_size < e.first.length then grow c e block
    else respond c e block e.first.length e.first

def packet_analyze_completed (c : Responder) (e : Completed) : Option Handling :=
  if e.cmd = IPC_CMD_HEARTBEAT then some ((Response.acknowledge e,c),[ack e])
  else if e.cmd = IPC_CMD_ONEWAY ∨ e.cmd = IPC_CMD_REQUEST ∨ e.cmd = IPC_CMD_RESPONSE then
    if c.on_received = true then
      match c.response_data with
      | some block => receive c e block
      | none =>
        match cplus_malloc e.allocation c.response_data_size with
        | none => some ((CPLUS_FAIL,c),[])
        | some block => (cplus_mem_set (some block) 0 c.response_data_size).bind fun cleared =>
            cleared.2.bind fun block => receive c e block
    else some ((CPLUS_SUCCESS,c),[])
  else some ((CPLUS_SUCCESS,c),[])

variable {c : Responder} {e : Completed} {block : List UInt8}

theorem respond_agrees (c : Responder) (e : Completed) (block : List UInt8) (dataout_size : Nat) (last : Response.Answer) :
    (respond c e block dataout_size last).map Prod.fst = Response.respond c e block dataout_size last := by
  simp [respond,Function.comp_def]

theorem grow_agrees (c : Responder) (e : Completed) (block : List UInt8) :
    (grow c e block).map Prod.fst = Response.grow c e block := by
  unfold grow Response.grow
  cases cplus_realloc e.growth block e.first.length with
  | none => rfl
  | some larger =>
    simp only [Option.map_bind,Function.comp_def]
    refine congrArg _ (funext fun cleared => congrArg _ (funext fun larger => congrArg _ (funext fun block => ?_)))
    split
    · rfl
    · exact respond_agrees _ _ _ _ _

theorem receive_agrees (c : Responder) (e : Completed) (block : List UInt8) :
    (receive c e block).map Prod.fst = Response.receive c e block := by
  unfold receive Response.receive
  simp only [Option.map_bind,Function.comp_def]
  refine congrArg _ (funext fun block => ?_)
  split
  · rfl
  · split
    · exact grow_agrees _ _ _
    · exact respond_agrees _ _ _ _ _

theorem analyzed_agrees (c : Responder) (e : Completed) :
    (packet_analyze_completed c e).map Prod.fst = Response.packet_analyze_completed c e := by
  unfold packet_analyze_completed Response.packet_analyze_completed
  split
  · rfl
  · split
    · split
      · cases c.response_data with
        | some block => exact receive_agrees _ _ _
        | none =>
          cases cplus_malloc e.allocation c.response_data_size with
          | none => rfl
          | some block =>
            simp only [Option.map_bind,Function.comp_def]
            exact congrArg _ (funext fun cleared => congrArg _ (funext fun block => receive_agrees _ _ _))
      · rfl
    · rfl

-- The command that a packet is answered with, if it is.
def reply (cmd : UInt8) : Option UInt8 :=
  if cmd = IPC_CMD_HEARTBEAT ∨ cmd = IPC_CMD_RESPONSE then some IPC_CMD_ACK
  else if cmd = IPC_CMD_REQUEST then some IPC_CMD_RESPONSE
  else none

theorem reply_command {cmd answer : UInt8} (replies : reply cmd = some answer) : answer < IPC_CMD_MAX := by
  unfold reply at replies
  split at replies
  · rw [← Option.some.inj replies]
    decide
  · split at replies
    · rw [← Option.some.inj replies]
      decide
    · cases replies

-- At most one answer, under the number of the packet it answers and with all the
-- data that it announces.
def Replies (seqn cmd : UInt8) (given : List Outgoing) : Prop :=
  given = [] ∨ ∃ packet, given = [packet] ∧ packet.seqn = seqn ∧ reply cmd = some packet.cmd ∧
    packet.data_len ≤ (packet.data.getD []).length

-- An end that has the callback and a size to answer with.
def Serving (c : Responder) : Prop := c.on_received = true ∧ c.response_data_size ≠ 0

-- The allocator provides, the callback succeeds, and the size that it reports for a
-- larger buffer is not zero.
structure Serves (c : Responder) (e : Completed) : Prop where
  allocation : e.allocation ≠ none
  growth : e.growth ≠ none
  first : e.first.res ≠ CPLUS_FAIL
  second : c.response_data_size < e.first.length → e.second.res ≠ CPLUS_FAIL ∧ e.second.length ≠ 0

-- Everything that handling a packet can come to.
inductive Analyzed (c : Responder) (e : Completed) : Handling → Prop where
  | heartbeat (asked : e.cmd = IPC_CMD_HEARTBEAT) : Analyzed c e ((Response.acknowledge e,c),[ack e])
  | response {res : Int} {t : Responder} {block : List UInt8} {dataout_size : Nat} {last : Response.Answer}
      (asked : e.cmd = IPC_CMD_REQUEST) (kept : t.on_received = c.on_received) (size : t.response_data_size ≠ 0)
      (fits : dataout_size ≤ block.length)
      (sent : t.sent = c.sent ++ [⟨e.seqn,dataout_size,block.take dataout_size,last.length,block.take last.length⟩]) :
      Analyzed c e ((res,t),[⟨e.seqn,IPC_CMD_RESPONSE,dataout_size,some block⟩])
  | acknowledged {res : Int} {t : Responder} (asked : e.cmd = IPC_CMD_RESPONSE) (kept : t.on_received = c.on_received)
      (called : c.on_received = true) (size : Serving c → Serves c e → t.response_data_size ≠ 0) :
      Analyzed c e ((res,t),[ack e])
  | silent {res : Int} {t : Responder} (kept : t.on_received = c.on_received)
      (why : Serving c → Serves c e → reply e.cmd = none ∧ t.response_data_size ≠ 0) : Analyzed c e ((res,t),[])

theorem respond_analyzed {ending : Responder} {dataout_size : Nat} {last : Response.Answer} {result : Handling}
    (called : c.on_received = true) (kept : ending.on_received = c.on_received) (sent : ending.sent = c.sent)
    (size : Serving c → Serves c e → ending.response_data_size ≠ 0) (other : e.cmd ≠ IPC_CMD_HEARTBEAT)
    (responds : respond ending e block dataout_size last = some result) : Analyzed c e result := by
  simp only [respond,Option.map_eq_some_iff] at responds
  obtain ⟨ends,responds,rfl⟩ := responds
  unfold Response.respond at responds
  dsimp only at responds
  by_cases request : e.cmd = IPC_CMD_REQUEST
  · rw [if_pos request] at responds ⊢
    by_cases some_size : ending.response_data_size ≠ 0
    · rw [if_pos some_size] at responds ⊢
      obtain ⟨data,read,rfl⟩ := Option.map_eq_some_iff.mp responds
      obtain ⟨fits,rfl⟩ := slice_parts read
      have logged : ending.sent ++ [⟨e.seqn,dataout_size,block.take dataout_size,last.length,block.take last.length⟩] =
          c.sent ++ [⟨e.seqn,dataout_size,block.take dataout_size,last.length,block.take last.length⟩] := by rw [sent]
      exact .response request kept some_size (by simpa using fits) logged
    · rw [if_neg some_size] at responds ⊢
      cases responds
      exact .silent kept fun serving serves => absurd (size serving serves) some_size
  · rw [if_neg request] at responds ⊢
    by_cases response : e.cmd = IPC_CMD_RESPONSE
    · rw [if_pos response] at responds ⊢
      cases responds
      exact .acknowledged response kept called size
    · rw [if_neg response] at responds ⊢
      cases responds
      refine .silent kept fun serving serves => ⟨?_,size serving serves⟩
      rw [reply,if_neg (not_or.mpr ⟨other,response⟩),if_neg request]

theorem grow_analyzed {result : Handling} (called : c.on_received = true) (other : e.cmd ≠ IPC_CMD_HEARTBEAT)
    (larger : c.response_data_size < e.first.length) (grows : grow c e block = some result) : Analyzed c e result := by
  unfold grow at grows
  cases obtained : cplus_realloc e.growth block e.first.length with
  | none =>
    simp only [obtained] at grows
    cases grows
    exact .silent rfl fun _ serves => absurd (realloc_none_iff.mp obtained) serves.growth
  | some fresh =>
    simp only [obtained,Option.bind_eq_some_iff] at grows
    obtain ⟨_,_,_,_,_,_,ends⟩ := grows
    split at ends
    · rename_i failed
      cases ends
      exact .silent rfl fun _ serves => absurd failed (serves.second larger).1
    · exact respond_analyzed called (by rfl) (by rfl) (fun _ serves => (serves.second larger).2) other ends

theorem receive_analyzed {result : Handling} (called : c.on_received = true) (other : e.cmd ≠ IPC_CMD_HEARTBEAT)
    (receives : receive c e block = some result) : Analyzed c e result := by
  simp only [receive,Option.bind_eq_some_iff] at receives
  obtain ⟨written,_,ends⟩ := receives
  split at ends
  · rename_i failed
    cases ends
    exact .silent rfl fun _ serves => absurd failed serves.first
  · split at ends
    · rename_i larger
      exact grow_analyzed called other larger ends
    · exact respond_analyzed called rfl rfl (fun serving _ => serving.2) other ends

theorem analyzed_parts {result : Handling} (analyzed : packet_analyze_completed c e = some result) : Analyzed c e result := by
  unfold packet_analyze_completed at analyzed
  split at analyzed
  · rename_i heartbeat
    cases analyzed
    exact .heartbeat heartbeat
  · rename_i other
    split at analyzed
    · split at analyzed
      · rename_i called
        cases there : c.response_data with
        | some block =>
          simp only [there] at analyzed
          exact receive_analyzed called other analyzed
        | none =>
          cases obtained : cplus_malloc e.allocation c.response_data_size with
          | none =>
            simp only [there,obtained] at analyzed
            cases analyzed
            exact .silent rfl fun _ serves => absurd (malloc_none_iff.mp obtained) serves.allocation
          | some block =>
            simp only [there,obtained,Option.bind_eq_some_iff] at analyzed
            obtain ⟨_,_,_,_,receives⟩ := analyzed
            exact receive_analyzed called other receives
      · rename_i uncalled
        cases analyzed
        exact .silent rfl fun serving _ => absurd serving.1 uncalled
    · rename_i another
      cases analyzed
      refine .silent rfl fun serving _ => ⟨?_,serving.2⟩
      obtain ⟨_,request,response⟩ : e.cmd ≠ IPC_CMD_ONEWAY ∧ e.cmd ≠ IPC_CMD_REQUEST ∧ e.cmd ≠ IPC_CMD_RESPONSE := by
        simpa [not_or] using another
      rw [reply,if_neg (not_or.mpr ⟨other,response⟩),if_neg request]

theorem Analyzed.replies {result : Handling} (analyzed : Analyzed c e result) : Replies e.seqn e.cmd result.2 := by
  cases analyzed with
  | heartbeat asked => exact .inr ⟨_,rfl,rfl,by rw [asked]; rfl,Nat.le_refl _⟩
  | response asked kept size fits => exact .inr ⟨_,rfl,rfl,by rw [asked]; rfl,fits⟩
  | acknowledged asked => exact .inr ⟨_,rfl,rfl,by rw [asked]; rfl,Nat.le_refl _⟩
  | silent => exact .inl rfl

-- Served, a packet is answered if it is one to be answered.
theorem Analyzed.serves {result : Handling} (analyzed : Analyzed c e result) (serving : Serving c) (serves : Serves c e) :
    Serving result.1.2 ∧ (reply e.cmd ≠ none → result.2 ≠ []) := by
  cases analyzed with
  | heartbeat => exact ⟨serving,fun _ => List.cons_ne_nil _ _⟩
  | response asked kept size => exact ⟨⟨kept.trans serving.1,size⟩,fun _ => List.cons_ne_nil _ _⟩
  | acknowledged asked kept called size => exact ⟨⟨kept.trans serving.1,size serving serves⟩,fun _ => List.cons_ne_nil _ _⟩
  | silent kept why =>
    obtain ⟨none,size⟩ := why serving serves
    exact ⟨⟨kept.trans serving.1,size⟩,fun answered => absurd none answered⟩

-- Without the callback only a heartbeat is answered.
theorem Analyzed.unregistered {result : Handling} (analyzed : Analyzed c e result) (off : c.on_received = false) :
    result.1.2.on_received = false ∧ (e.cmd ≠ IPC_CMD_HEARTBEAT → e.cmd ≠ IPC_CMD_REQUEST → result.2 = []) := by
  cases analyzed with
  | heartbeat asked => exact ⟨off,fun other => absurd asked other⟩
  | response asked kept => exact ⟨kept.trans off,fun _ other => absurd asked other⟩
  | acknowledged asked kept called =>
    rw [off] at called
    cases called
  | silent kept => exact ⟨kept.trans off,fun _ _ => rfl⟩

-- What the allocator, the callback and the socket do while a packet is handled.
structure Surroundings where
  allocation : Outcome
  growth : Outcome
  first : Response.Answer
  second : Response.Answer
  send : Nat → Int

def Surroundings.completed (s : Surroundings) (packet : Delivered) : Completed :=
  ⟨packet.seqn,packet.cmd,s.allocation,s.growth,s.first,s.second,s.send⟩

-- A packet that was sent, as the other end completes it.
def landing (packet : Outgoing) : Delivered :=
  ⟨packet.seqn,packet.cmd,packet.data_len,(packet.data.getD []).take packet.data_len⟩

def handle (c : Responder) (packet : Delivered) (s : Surroundings) : Option (Responder × List Delivered) :=
  (packet_analyze_completed c (s.completed packet)).map fun result => (result.1.2,result.2.map landing)

-- A request brings a response, and that an acknowledgement, as a heartbeat does.
def weight (packet : Delivered) : Nat :=
  if packet.cmd = IPC_CMD_REQUEST then 3
  else if packet.cmd = IPC_CMD_RESPONSE ∨ packet.cmd = IPC_CMD_HEARTBEAT then 2
  else 1

theorem reply_lighter {cmd answer : UInt8} (replies : reply cmd = some answer) {packet received : Delivered}
    (asked : received.cmd = cmd) (sent : packet.cmd = answer) : weight packet < weight received := by
  subst asked
  subst sent
  unfold reply at replies
  split at replies
  · rename_i acked
    have light : weight packet = 1 := by
      rw [weight,← Option.some.inj replies]
      decide
    have heavy : weight received = 2 := by
      rcases acked with eq | eq <;> rw [weight,eq] <;> decide
    omega
  · split at replies
    · rename_i request
      have light : weight packet = 2 := by
        rw [weight,← Option.some.inj replies]
        decide
      have heavy : weight received = 3 := by rw [weight,if_pos request]
      omega
    · cases replies

theorem weight_positive (packet : Delivered) : 0 < weight packet := by
  unfold weight
  split
  · decide
  · split <;> decide

theorem handle_replies {packet : Delivered} {s : Surroundings} {t : Responder} {answers : List Delivered}
    (handles : handle c packet s = some (t,answers)) :
    answers = [] ∨ ∃ answer, answers = [answer] ∧ answer.seqn = packet.seqn ∧ reply packet.cmd = some answer.cmd := by
  simp only [handle,Option.map_eq_some_iff,Prod.mk.injEq] at handles
  obtain ⟨result,analyzed,_,rfl⟩ := handles
  rcases (analyzed_parts analyzed).replies with none | ⟨answer,one,number,command,_⟩
  · exact .inl (by rw [none]; rfl)
  · exact .inr ⟨landing answer,by rw [one]; rfl,number,command⟩

theorem handle_lowers : Lowers weight handle := by
  intro c packet s t answers handles
  rcases handle_replies handles with rfl | ⟨answer,rfl,_,command⟩
  · exact weight_positive packet
  · simpa [load] using reply_lighter command rfl rfl

-- Whatever the two ends post and however the deliveries interleave, a connection
-- carries no more packets than these bring, and falls silent when they stop.
theorem no_packet_storm (state : Side → Responder) (moves : List (Move (Duplex Responder Delivered) (Act Delivered Surroundings)))
    (link : Duplex Responder Delivered) (run : Run (Follows (advance handle)) (opened state) moves link) :
    deliveries moves + traffic weight link ≤ posted weight moves ∧
    ∀ states : Nat → Duplex Responder Delivered,
      ¬ Endless (fun s (act : Act Delivered Surroundings) t => Follows (advance handle) s act t ∧ act.delivers = true) states := by
  refine ⟨?_,fun states => deliveries_end handle_lowers⟩
  have bound := run_deliveries handle_lowers run
  have empty : traffic weight (opened (μ := Delivered) state) = 0 := rfl
  omega

theorem one_counts : 1 < 2^32 := by decide

def calm : Surroundings := ⟨some fun _ => 0,some fun _ => 0,⟨0,[],1,one_counts⟩,⟨0,[],1,one_counts⟩,fun _ => 0⟩

def heartbeat : Delivered := ⟨1,IPC_CMD_HEARTBEAT,0,[]⟩

-- A heartbeat, its acknowledgement, and nothing more.
theorem heartbeat_acknowledged : ∃ moves link, Run (Follows (advance handle)) (opened fun _ => created true) moves link ∧
    moves.map Move.action = [.post .right heartbeat,.deliver .right calm,.deliver .left calm] ∧
    deliveries moves + traffic weight link ≤ 2 := by
  obtain ⟨moves,link,run,actions,few⟩ := Run.of_check (advance handle) (opened fun _ => created true)
    [.post .right heartbeat,.deliver .right calm,.deliver .left calm]
    (fun result => decide (posted weight result.1 = 2)) (by decide)
  have bound := (no_packet_storm _ moves link run).1
  rw [of_decide_eq_true few] at bound
  exact ⟨moves,link,run,actions,bound⟩

-- A packet's number and command, and those of the answer to it.
def heading (packet : Delivered) : UInt8 × UInt8 := (packet.seqn,packet.cmd)

def expected (packet : Delivered) : Option (UInt8 × UInt8) := (reply packet.cmd).map fun answer => (packet.seqn,answer)

theorem answers_heading {packet : Delivered} {s : Surroundings} {t : Responder} {answers : List Delivered}
    (handles : handle c packet s = some (t,answers)) :
    answers = [] ∨ answers.map heading = (expected packet).toList := by
  rcases handle_replies handles with none | ⟨answer,rfl,number,command⟩
  · exact .inl none
  · refine .inr ?_
    rw [expected,command,List.map_singleton,heading,number]
    rfl

theorem handle_serves {packet : Delivered} {s : Surroundings} {t : Responder} {answers : List Delivered}
    (serving : Serving c) (serves : Serves c (s.completed packet)) (handles : handle c packet s = some (t,answers)) :
    Serving t ∧ answers.map heading = (expected packet).toList := by
  have headed := answers_heading handles
  simp only [handle,Option.map_eq_some_iff,Prod.mk.injEq] at handles
  obtain ⟨result,analyzed,rfl,rfl⟩ := handles
  obtain ⟨kept,answered⟩ := (analyzed_parts analyzed).serves serving serves
  refine ⟨kept,headed.elim (fun empty => ?_) id⟩
  have silent : reply packet.cmd = none := by
    by_contra asked
    exact answered asked (List.map_eq_nil_iff.mp empty)
  rw [empty,expected,silent]
  rfl

theorem handle_unregistered {packet : Delivered} {s : Surroundings} {t : Responder} {answers : List Delivered}
    (off : c.on_received = false) (handles : handle c packet s = some (t,answers)) : t.on_received = false ∧
      (packet.cmd ≠ IPC_CMD_HEARTBEAT → packet.cmd ≠ IPC_CMD_REQUEST → answers = []) := by
  simp only [handle,Option.map_eq_some_iff,Prod.mk.injEq] at handles
  obtain ⟨result,analyzed,rfl,rfl⟩ := handles
  obtain ⟨kept,silent⟩ := (analyzed_parts analyzed).unregistered off
  exact ⟨kept,fun heartbeat request => by rw [silent heartbeat request]; rfl⟩

-- A client of the library on the left, which ipc_client_new gives no callback, and on
-- the right the connection that a server made for it.
def ends (registered : Bool) : Side → Responder
  | .left => created false
  | .right => created registered

-- What the client's functions send; a server sends nothing of its own accord.
def Asks (_ : Duplex Responder Delivered) : Act Delivered Surroundings → Prop
  | .post side packet => side = .right ∧
      (packet.cmd = IPC_CMD_HEARTBEAT ∨ packet.cmd = IPC_CMD_ONEWAY ∨ packet.cmd = IPC_CMD_REQUEST)
  | .deliver _ _ => True

def Served (link : Duplex Responder Delivered) : Act Delivered Surroundings → Prop
  | .deliver .right s => ∀ packet, Serves (link .right).state (s.completed packet)
  | _ => True

-- The answers that have come to the client or are on the way to it.
def answered (link : Duplex Responder Delivered) : List (UInt8 × UInt8) :=
  ((link .left).handled.map Prod.fst ++ (link .left).inbox).map heading

variable {registered : Bool} {moves : List (Move (Duplex Responder Delivered) (Act Delivered Surroundings))}
  {link : Duplex Responder Delivered}

theorem asks_unposted (asks : Meets Asks moves) : posts .left moves = [] := by
  refine List.filterMap_eq_nil_iff.mpr fun move member => ?_
  have here := asks move member
  cases action : move.action with
  | post side packet =>
    rw [action] at here
    rw [here.1]
    rfl
  | deliver side s => rfl

theorem expected_answers {packet : Delivered} {answers : List Delivered} {answer : Delivered}
    (headed : answers = [] ∨ answers.map heading = (expected packet).toList) (member : answer ∈ answers) :
    answer.cmd ≠ IPC_CMD_HEARTBEAT ∧ answer.cmd ≠ IPC_CMD_REQUEST := by
  rcases headed with none | same
  · rw [none] at member
    cases member
  · have there : heading answer ∈ (expected packet).toList := same ▸ List.mem_map_of_mem member
    rw [Option.mem_toList,expected,Option.map_eq_some_iff] at there
    obtain ⟨command,replies,pair⟩ := there
    have is : command = answer.cmd := congrArg Prod.snd pair
    rw [is] at replies
    unfold reply at replies
    split at replies
    · rw [← Option.some.inj replies]
      decide
    · split at replies
      · rw [← Option.some.inj replies]
        decide
      · cases replies

-- The client only listens.
theorem client_listens (run : Run (Follows (advance handle)) (opened (ends registered)) moves link)
    (asks : Meets Asks moves) :
    (link .left).handled.map Prod.fst ++ (link .left).inbox = (link .right).handled.flatMap Prod.snd ∧
    (link .right).handled.map Prod.fst ++ (link .right).inbox = posts .right moves := by
  have handled := run_handled (J := fun side c => side = .left → c.on_received = false)
    (P := fun side packet answers => (answers = [] ∨ answers.map heading = (expected packet).toList) ∧
      (side = .left → packet.cmd ≠ IPC_CMD_HEARTBEAT → packet.cmd ≠ IPC_CMD_REQUEST → answers = [])) run (fun _ _ => True)
    (fun side left => by rw [left]; rfl)
    (fun {_ side _ _ _ _} _ held handles => ⟨fun left => (handle_unregistered (held left) handles).1,
      answers_heading handles,fun left => (handle_unregistered (held left) handles).2⟩)
    (fun _ _ => trivial)
  have faithful := run_faithful run
  have heard : (link .left).handled.map Prod.fst ++ (link .left).inbox = (link .right).handled.flatMap Prod.snd := by
    have none : (link .left).unasked = [] := by rw [run_unasked run,asks_unposted asks]
    have answers : ((link .left).sent.filter Prod.fst).map Prod.snd = (link .right).handled.flatMap Prod.snd :=
      faithful.answers .left
    rw [faithful.order,← answers_all none,answers]
  refine one_way run .left (asks_unposted asks) fun entry member => ?_
  have there : entry.1 ∈ (link .right).handled.flatMap Prod.snd := by
    rw [← heard]
    exact List.mem_append_left _ (List.mem_map_of_mem member)
  obtain ⟨other,asked,among⟩ := List.mem_flatMap.mp there
  obtain ⟨heartbeat,request⟩ := expected_answers (handled.2 .right other asked).1 among
  exact (handled.2 .left entry member).2 rfl heartbeat request

-- Each heartbeat and request is answered at most once, under its own number and in
-- the order sent; and while the server's callback serves, none is left out.
theorem answers_in_order (run : Run (Follows (advance handle)) (opened (ends registered)) moves link)
    (asks : Meets Asks moves) :
    (answered link).Sublist ((posts .right moves).filterMap expected) ∧
    (registered = true → Meets Served moves → answered link <+: (posts .right moves).filterMap expected ∧
      ((link .right).inbox = [] → answered link = (posts .right moves).filterMap expected)) := by
  obtain ⟨heard,asked⟩ := client_listens run asks
  have split : (posts .right moves).filterMap expected =
      (link .right).handled.flatMap (fun entry => (expected entry.1).toList) ++ (link .right).inbox.filterMap expected := by
    rw [← asked,List.filterMap_append,List.filterMap_map]
    congr 1
    induction (link .right).handled with
    | nil => rfl
    | cons entry rest ih =>
      rw [List.flatMap_cons,← ih]
      cases found : expected entry.1 <;> simp [found]
  have said : answered link = (link .right).handled.flatMap fun entry => entry.2.map heading := by
    rw [answered,heard,List.map_flatMap]
  constructor
  · have handled := run_handled (J := fun _ _ => True)
      (P := fun _ packet answers => (answers.map heading).Sublist (expected packet).toList) run (fun _ _ => True)
      (fun _ => trivial) (fun _ _ handles => ⟨trivial,(answers_heading handles).elim
        (fun none => by rw [none]; exact List.nil_sublist _) (fun same => by rw [same])⟩) (fun _ _ => trivial)
    rw [said,split]
    exact (List.Sublist.flatMap_right _ (handled.2 .right)).trans (List.sublist_append_left _ _)
  · intro on served
    have handled := run_handled (J := fun side c => side = .right → Serving c)
      (P := fun side packet answers => side = .right → answers.map heading = (expected packet).toList) run Served
      (fun side right => by rw [right,ends,on]; exact ⟨rfl,by decide⟩)
      (fun {_ side _ _ _ _} here held handles => by
        cases side with
        | left => exact ⟨(fun right => by cases right),fun right => by cases right⟩
        | right => exact ⟨fun _ => (handle_serves (held rfl) (here _) handles).1,
            fun _ => (handle_serves (held rfl) (here _) handles).2⟩) served
    have exact_answers : answered link = (link .right).handled.flatMap fun entry => (expected entry.1).toList := by
      rw [said]
      exact List.flatMap_congr fun entry member => handled.2 .right entry member rfl
    refine ⟨?_,fun empty => ?_⟩
    · rw [exact_answers,split]
      exact List.prefix_append _ _
    · rw [exact_answers,split,empty,List.filterMap_nil,List.append_nil]

theorem heartbeat_answered : ∃ moves link, Run (Follows (advance handle)) (opened (ends true)) moves link ∧
    posts .right moves = [heartbeat] ∧ answered link = [(1,IPC_CMD_ACK)] := by
  obtain ⟨moves,link,run,actions,checks⟩ := Run.of_check (advance handle) (opened (ends true))
    [.post .right heartbeat,.deliver .right calm,.deliver .left calm]
    (fun result => decide (posts .right result.1 = [heartbeat] ∧ (result.2 .right).inbox = [])) (by decide)
  obtain ⟨asked,empty⟩ := of_decide_eq_true checks
  have asks : Meets Asks moves := fun move member => by
    have among : move.action ∈ moves.map Move.action := List.mem_map_of_mem member
    rw [actions] at among
    generalize move.action = act at among
    simp only [List.mem_cons,List.not_mem_nil,or_false] at among
    rcases among with rfl | rfl | rfl
    · exact ⟨rfl,.inl rfl⟩
    · trivial
    · trivial
  have served : Meets Served moves := fun move member => by
    have among : move.action ∈ moves.map Move.action := List.mem_map_of_mem member
    rw [actions] at among
    generalize move.action = act at among
    simp only [List.mem_cons,List.not_mem_nil,or_false] at among
    rcases among with rfl | rfl | rfl
    · trivial
    · have succeeds : (0 : Int) ≠ CPLUS_FAIL := by decide
      exact fun _ => ⟨Option.some_ne_none _,Option.some_ne_none _,succeeds,fun _ => ⟨succeeds,Nat.one_ne_zero⟩⟩
    · trivial
  have answers := ((answers_in_order run asks).2 rfl served).2 empty
  rw [asked] at answers
  exact ⟨moves,link,run,asked,answers⟩

end Libcplus.Ipc.Dialogue
