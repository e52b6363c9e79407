import Libcplus.Ipc.Packet
import Libcplus.Transition

-- packet_analyze_completed and the buffer that a connection keeps for responses.
namespace Libcplus.Ipc.Response
open Bytes Memory Transition Typedef

def DEFAULT_RESPONSE_BUFS_SIZE : Nat := 8192

-- What one call of on_received does: it writes to the front of the buffer and reports
-- the length of its response.
structure Answer where
  res : Int
  written : List UInt8
  length : Nat
  counts : length < 2^32
  deriving DecidableEq

-- A RESPONSE packet that was given to ipc_send_packet, beside the length that the last
-- call for it reported and the bytes of that length which it left in the buffer.
structure Sent where
  seqn : UInt8
  data_len : Nat
  data : List UInt8
  reported : Nat
  answered : List UInt8
  deriving DecidableEq

-- What the function uses of struct ipc_conn. A null response_data is `none`.
structure Responder where
  on_received : Bool
  response_data : Option (List UInt8)
  response_data_size : Nat
  sent : List Sent
  deriving DecidableEq

def created (on_received : Bool) : Responder := ⟨on_received,none,DEFAULT_RESPONSE_BUFS_SIZE,[]⟩

-- A completed packet, with what the allocator, the callback and the socket do while it
-- is handled.
structure Completed where
  seqn : UInt8
  cmd : UInt8
  allocation : Outcome
  growth : Outcome
  first : Answer
  second : Answer
  send : Nat → Int

-- The callback writes no more than it is told and no more than its response has;
-- `none` is a write outside the block.
def Answer.write (answer : Answer) (told : Nat) (block : List UInt8) : Option (List UInt8) :=
  splice block 0 (answer.written.take (min told answer.length))

def acknowledge (e : Completed) : Int := (ipc_send_packet e.send ⟨e.seqn,IPC_CMD_ACK,0,none⟩).1

-- The end of the branch, when the last call answered `last`.
def respond (c : Responder) (e : Completed) (block : List UInt8) (dataout_size : Nat) (last : Answer) :
    Option (Int × Responder) :=
  let c := {c with response_data := some block}
  if e.cmd = IPC_CMD_REQUEST then
    if c.response_data_size ≠ 0 then (slice block 0 dataout_size).map fun data =>
      ((ipc_send_packet e.send ⟨e.seqn,IPC_CMD_RESPONSE,dataout_size,some data⟩).1,
        {c with sent := c.sent ++ [⟨e.seqn,dataout_size,data,last.length,block.take last.length⟩]})
    else some (last.res,c)
  else if e.cmd = IPC_CMD_RESPONSE then some (acknowledge e,c)
  else some (last.res,c)

-- A buffer of the reported length, which the callback fills once more. The second
-- report goes to response_data_size, the first is still in dataout_size.
def grow (c : Responder) (e : Completed) (block : List UInt8) : Option (Int × Responder) :=
  match cplus_realloc e.growth block e.first.length with
  | none => some (CPLUS_FAIL,{c with response_data := none})
  | some larger => (cplus_mem_set (some larger) 0 e.first.length).bind fun cleared =>
      cleared.2.bind fun larger => (e.second.write e.first.length larger).bind fun block =>
        let c := {c with response_data_size := e.second.length}
        if e.second.res = CPLUS_FAIL then some (CPLUS_FAIL,{c with response_data := some block})
        else respond c e block e.first.length e.second

def receive (c : Responder) (e : Completed) (block : List UInt8) : Option (Int × Responder) :=
  (e.first.write c.response_data_size block).bind fun block =>
    if e.first.res = CPLUS_FAIL then some (CPLUS_FAIL,{c with response_data := some block})
    else if c.response_data_size < e.first.length then grow c e block
    else respond c e block e.first.length e.first

def packet_analyze_completed (c : Responder) (e : Completed) : Option (Int × Responder) :=
  if e.cmd = IPC_CMD_HEARTBEAT then some (acknowledge e,c)
  else if e.cmd = IPC_CMD_ONEWAY ∨ e.cmd = IPC_CMD_REQUEST ∨ e.cmd = IPC_CMD_RESPONSE then
    if c.on_received = true then
      match c.response_data with
      | some block => receive c e block
      | none =>
        match cplus_malloc e.allocation c.response_data_size with
        | none => some (CPLUS_FAIL,c)
        | some block => (cplus_mem_set (some block) 0 c.response_data_size).bind fun cleared =>
            cleared.2.bind fun block => receive c e block
    else some (CPLUS_SUCCESS,c)
  else some (CPLUS_SUCCESS,c)

def advance (c : Responder) (e : Completed) : Option Responder := (packet_analyze_completed c e).map Prod.snd

-- The buffer has room for what its size says, and each response went out as the
-- callback gave it.
structure Disciplined (c : Responder) : Prop where
  capacity : ∀ block, c.response_data = some block → c.response_data_size ≤ block.length
  sent : ∀ response ∈ c.sent, response.data_len = response.reported ∧ response.data = response.answered

-- The packet needs a larger buffer and gets it, so that the callback is called again.
def Grows (c : Responder) (e : Completed) : Prop :=
  (e.cmd = IPC_CMD_ONEWAY ∨ e.cmd = IPC_CMD_REQUEST ∨ e.cmd = IPC_CMD_RESPONSE) ∧ c.on_received = true ∧
    (c.response_data = none → e.allocation ≠ none) ∧ e.first.res ≠ CPLUS_FAIL ∧
    c.response_data_size < e.first.length ∧ e.growth ≠ none

-- Then the second report is no longer than the first and, where it is answered, the
-- same or zero.
def Consistent (c : Responder) (e : Completed) : Prop :=
  Grows c e → e.second.length ≤ e.first.length ∧
    (e.cmd = IPC_CMD_REQUEST → e.second.res ≠ CPLUS_FAIL → e.second.length ≠ 0 → e.second.length = e.first.length)

-- What a response adds to the packets sent.
def answered (e : Completed) (size : Nat) (block : List UInt8) (dataout_size : Nat) (last : Answer) : List Sent :=
  if e.cmd = IPC_CMD_REQUEST ∧ size ≠ 0 then
    [⟨e.seqn,dataout_size,block.take dataout_size,last.length,block.take last.length⟩]
  else []

variable {c t : Responder} {e : Completed} {block : List UInt8} {told : Nat} {answer : Answer}

-- Everything the handling of a packet can come to while the buffer has the room that
-- it is said to have.
inductive Handled (c : Responder) (e : Completed) : Responder → Prop where
  | unchanged (single : ¬ Grows c e) : Handled c e c
  | lost (single : ¬ Grows c e) : Handled c e {c with response_data := none}
  | kept {block : List UInt8} {extra : List Sent} (single : ¬ Grows c e) (room : c.response_data_size ≤ block.length)
      (exact : ∀ response ∈ extra, response.data_len = response.reported ∧ response.data = response.answered) :
      Handled c e {c with response_data := some block,sent := c.sent ++ extra}
  | grown {block : List UInt8} (grows : Grows c e) (length : block.length = e.first.length) :
      Handled c e {c with
        response_data := some block
        response_data_size := e.second.length
        sent := c.sent ++
          if e.second.res = CPLUS_FAIL then [] else answered e e.second.length block e.first.length e.second}

theorem write_fits (answer : Answer) (room : told ≤ block.length) :
    ∃ written, answer.write told block = some written ∧ written.length = block.length := by
  have fits : 0 + (answer.written.take (min told answer.length)).length ≤ block.length := by
    rw [List.length_take]
    omega
  exact ⟨_,splice_some fits,splice_length (splice_some fits)⟩

theorem respond_answers {dataout_size : Nat} (fits : dataout_size ≤ block.length) (last : Answer) :
    ∃ res, respond c e block dataout_size last = some (res,{c with
      response_data := some block
      sent := c.sent ++ answered e c.response_data_size block dataout_size last}) := by
  have read : slice block 0 dataout_size = some (block.take dataout_size) := slice_some (by omega)
  unfold respond
  by_cases request : e.cmd = IPC_CMD_REQUEST
  · rw [if_pos request]
    by_cases some_size : c.response_data_size ≠ 0
    · rw [if_pos some_size,read,answered,if_pos ⟨request,some_size⟩]
      exact ⟨_,rfl⟩
    · have silent : answered e c.response_data_size block dataout_size last = [] := if_neg fun both => some_size both.2
      rw [if_neg some_size,silent,List.append_nil]
      exact ⟨_,rfl⟩
  · have silent : answered e c.response_data_size block dataout_size last = [] := if_neg fun both => request both.1
    rw [if_neg request,silent,List.append_nil]
    by_cases response : e.cmd = IPC_CMD_RESPONSE
    · rw [if_pos response]
      exact ⟨_,rfl⟩
    · rw [if_neg response]
      exact ⟨_,rfl⟩

-- A block that is cleared, or that cplus_mem_set finds too large to clear.
theorem clear_keeps (block : List UInt8) : ∃ done cleared,
    cplus_mem_set (some block) 0 block.length = some (done,some cleared) ∧ cleared.length = block.length :=
  mem_set_keeps 0 (Nat.le_refl _)

theorem grow_handled (called : e.cmd = IPC_CMD_ONEWAY ∨ e.cmd = IPC_CMD_REQUEST ∨ e.cmd = IPC_CMD_RESPONSE)
    (registered : c.on_received = true) (provided : c.response_data = none → e.allocation ≠ none)
    (succeeds : e.first.res ≠ CPLUS_FAIL) (larger : c.response_data_size < e.first.length) (block : List UInt8) :
    ∃ res t, grow c e block = some (res,t) ∧ Handled c e t := by
  unfold grow
  cases obtained : cplus_realloc e.growth block e.first.length with
  | none => exact ⟨_,_,rfl,.lost fun grows => grows.2.2.2.2.2 (realloc_none_iff.mp obtained)⟩
  | some fresh =>
    have granted : e.growth ≠ none := fun refused => by
      rw [realloc_none_iff.mpr refused] at obtained
      cases obtained
    have grows : Grows c e := ⟨called,registered,provided,succeeds,larger,granted⟩
    have length := realloc_length obtained
    obtain ⟨done,cleared,clears,kept⟩ := clear_keeps fresh
    obtain ⟨written,writes,same⟩ := write_fits e.second (Nat.le_of_eq (kept.trans length).symm)
    have whole : written.length = e.first.length := same.trans (kept.trans length)
    rw [length] at clears
    simp only [clears,Option.bind_some,writes]
    by_cases failed : e.second.res = CPLUS_FAIL
    · have handled : Handled c e _ := .grown grows whole
      rw [if_pos failed,List.append_nil] at handled
      rw [if_pos failed]
      exact ⟨_,_,rfl,handled⟩
    · have handled : Handled c e _ := .grown grows whole
      obtain ⟨res,responds⟩ := respond_answers (c := {c with response_data_size := e.second.length}) (e := e)
        (Nat.le_of_eq whole.symm) e.second
      rw [if_neg failed] at handled
      rw [if_neg failed,responds]
      exact ⟨_,_,rfl,handled⟩

theorem receive_handled (called : e.cmd = IPC_CMD_ONEWAY ∨ e.cmd = IPC_CMD_REQUEST ∨ e.cmd = IPC_CMD_RESPONSE)
    (registered : c.on_received = true) (provided : c.response_data = none → e.allocation ≠ none)
    (room : c.response_data_size ≤ block.length) : ∃ res t, receive c e block = some (res,t) ∧ Handled c e t := by
  obtain ⟨written,writes,length⟩ := write_fits e.first room
  unfold receive
  rw [writes,Option.bind_some]
  by_cases failed : e.first.res = CPLUS_FAIL
  · have single : ¬ Grows c e := fun grows => grows.2.2.2.1 failed
    have same : {c with response_data := some written} = {c with response_data := some written,sent := c.sent ++ []} := by
      rw [List.append_nil]
    rw [if_pos failed,same]
    exact ⟨_,_,rfl,.kept single (length ▸ room) (fun _ member => absurd member List.not_mem_nil)⟩
  · rw [if_neg failed]
    by_cases larger : c.response_data_size < e.first.length
    · rw [if_pos larger]
      exact grow_handled called registered provided failed larger written
    · have single : ¬ Grows c e := fun grows => larger grows.2.2.2.2.1
      have fits : e.first.length ≤ written.length := by omega
      obtain ⟨res,responds⟩ := respond_answers (c := c) (e := e) fits e.first
      rw [if_neg larger,responds]
      refine ⟨res,_,rfl,.kept single (length ▸ room) fun response member => ?_⟩
      unfold answered at member
      split at member
      · obtain rfl := List.mem_singleton.mp member
        exact ⟨rfl,rfl⟩
      · cases member

theorem packet_handled (disciplined : Disciplined c) (e : Completed) : ∃ t, advance c e = some t ∧ Handled c e t := by
  suffices handled : ∃ res t, packet_analyze_completed c e = some (res,t) ∧ Handled c e t by
    obtain ⟨res,t,handles,handled⟩ := handled
    exact ⟨t,by rw [advance,handles]; rfl,handled⟩
  unfold packet_analyze_completed
  by_cases heartbeat : e.cmd = IPC_CMD_HEARTBEAT
  · rw [if_pos heartbeat]
    refine ⟨_,_,rfl,.unchanged fun grows => ?_⟩
    have called := grows.1
    rw [heartbeat] at called
    revert called
    decide
  · rw [if_neg heartbeat]
    by_cases called : e.cmd = IPC_CMD_ONEWAY ∨ e.cmd = IPC_CMD_REQUEST ∨ e.cmd = IPC_CMD_RESPONSE
    · rw [if_pos called]
      by_cases registered : c.on_received = true
      · rw [if_pos registered]
        cases there : c.response_data with
        | some block =>
          exact receive_handled called registered (fun missing => absurd (there.symm.trans missing) (Option.some_ne_none block))
            (disciplined.capacity block there)
        | none =>
          cases obtained : cplus_malloc e.allocation c.response_data_size with
          | none => exact ⟨_,_,rfl,.unchanged fun grows => grows.2.2.1 there (malloc_none_iff.mp obtained)⟩
          | some block =>
            have granted : e.allocation ≠ none := fun refused => by
              rw [malloc_none_iff.mpr refused] at obtained
              cases obtained
            have length := malloc_length obtained
            obtain ⟨done,cleared,clears,kept⟩ := clear_keeps block
            rw [length] at clears
            simp only [clears,Option.bind_some]
            exact receive_handled called registered (fun _ => granted) (Nat.le_of_eq (kept.trans length).symm)
      · rw [if_neg registered]
        exact ⟨_,_,rfl,.unchanged fun grows => registered grows.2.1⟩
    · rw [if_neg called]
      exact ⟨_,_,rfl,.unchanged fun grows => called grows.1⟩

theorem exact_append {old extra : List Sent}
    (before : ∀ response ∈ old, response.data_len = response.reported ∧ response.data = response.answered)
    (more : ∀ response ∈ extra, response.data_len = response.reported ∧ response.data = response.answered) :
    ∀ response ∈ old ++ extra, response.data_len = response.reported ∧ response.data = response.answered := by
  intro response member
  rcases List.mem_append.mp member with early | late
  · exact before response early
  · exact more response late

theorem handled_keeps (disciplined : Disciplined c) (handled : Handled c e t) (consistent : Consistent c e) : Disciplined t := by
  cases handled with
  | unchanged => exact disciplined
  | lost => exact ⟨no_block,disciplined.sent⟩
  | kept single room exact =>
    refine ⟨fun block same => ?_,exact_append disciplined.sent exact⟩
    cases same
    exact room
  | @grown block grows length =>
    obtain ⟨shorter,same⟩ := consistent grows
    refine ⟨fun other there => ?_,exact_append disciplined.sent fun response member => ?_⟩
    · cases there
      rw [length]
      exact shorter
    · split at member
      · cases member
      · rename_i succeeds
        unfold answered at member
        split at member
        · rename_i sends
          obtain rfl := List.mem_singleton.mp member
          have equal := same sends.1 succeeds sends.2
          exact ⟨equal.symm,by rw [equal]⟩
        · cases member

-- A second report that differs goes into the size, or out with the first one's length.
theorem handled_breaks (handled : Handled c e t) (inconsistent : ¬ Consistent c e) : ¬ Disciplined t := by
  intro disciplined
  apply inconsistent
  intro grows
  cases handled with
  | unchanged single | lost single | kept single => exact absurd grows single
  | @grown block _ length =>
    have shorter : e.second.length ≤ block.length := disciplined.capacity block rfl
    refine ⟨length ▸ shorter,fun request succeeds some_size => ?_⟩
    have sends : ⟨e.seqn,e.first.length,block.take e.first.length,e.second.length,block.take e.second.length⟩ ∈
        answered e e.second.length block e.first.length e.second := by
      rw [answered,if_pos ⟨request,some_size⟩]
      exact List.mem_singleton_self _
    have late := disciplined.sent ⟨e.seqn,e.first.length,block.take e.first.length,e.second.length,block.take e.second.length⟩
      (List.mem_append_right _ (by rw [if_neg succeeds]; exact sends))
    exact late.1.symm

theorem created_disciplined (on_received : Bool) : Disciplined (created on_received) :=
  ⟨no_block,fun _ member => absurd member List.not_mem_nil⟩

theorem step_handled (disciplined : Disciplined c) (taken : Follows advance c e t) : Handled c e t := by
  obtain ⟨next,handles,handled⟩ := packet_handled disciplined e
  cases handles.symm.trans taken
  exact handled

-- And while the reports agree, every packet is handled without an access outside a block.
theorem response_exact {on_received : Bool} {moves : List (Move Responder Completed)} {c : Responder}
    (run : Run (Follows advance) (created on_received) moves c) : (Throughout Disciplined moves ↔ Meets Consistent moves) ∧
    (Meets Consistent moves → ∀ e, (advance c e).isSome) := by
  have keep : ∀ {c e t}, Disciplined c → Follows advance c e t → Consistent c e → Disciplined t :=
    fun disciplined taken consistent => handled_keeps disciplined (step_handled disciplined taken) consistent
  refine ⟨run.exact (created_disciplined on_received) keep id
    fun disciplined taken inconsistent => handled_breaks (step_handled disciplined taken) inconsistent,fun met e => ?_⟩
  obtain ⟨t,handles,_⟩ := packet_handled (run.keeps _ (created_disciplined on_received) keep met).1 e
  rw [handles]
  rfl

-- A request whose response has one byte more than the first buffer has room for.
def long_request (second : Answer) : Completed where
  seqn := 1
  cmd := IPC_CMD_REQUEST
  allocation := some fun _ => 0
  growth := some fun _ => 0
  first := ⟨0,[],8193,by decide⟩
  second := second
  send := fun _ => 0

theorem long_response_sent : ∃ moves c, Run (Follows advance) (created true) moves c ∧
    moves.map Move.action = [long_request ⟨0,[1,2,3],8193,by decide⟩] ∧ Throughout Disciplined moves := by
  obtain ⟨t,taken,_⟩ := packet_handled (created_disciplined true) (long_request ⟨0,[1,2,3],8193,by decide⟩)
  have run : Run (Follows advance) (created true) _ t := Run.nil.snoc taken
  refine ⟨_,t,run,rfl,(response_exact run).1.mpr fun m member grows => ?_⟩
  obtain rfl := List.mem_singleton.mp member
  exact ⟨Nat.le_refl _,fun _ _ _ => rfl⟩

-- The second call reports more than the buffer that was made for the first.
theorem growing_report : ¬ ∀ (on_received : Bool) (moves : List (Move Responder Completed)) (c : Responder),
    Run (Follows advance) (created on_received) moves c → Throughout Disciplined moves := by
  intro claim
  obtain ⟨t,taken,handled⟩ := packet_handled (created_disciplined true) (long_request ⟨0,[],10000,by decide⟩)
  have grows : Grows (created true) (long_request ⟨0,[],10000,by decide⟩) :=
    ⟨.inr (.inl rfl),rfl,fun _ => Option.some_ne_none _,by decide,by decide,Option.some_ne_none _⟩
  have inconsistent : ¬ Consistent (created true) (long_request ⟨0,[],10000,by decide⟩) := fun consistent =>
    absurd (consistent grows).1 (by decide)
  have run : Run (Follows advance) (created true) _ t := Run.nil.snoc taken
  exact handled_breaks handled inconsistent (claim true _ t run _ (List.mem_singleton_self _))

end Libcplus.Ipc.Response
