import Libcplus.Transition
import Libcplus.Ipc.Parser

namespace Libcplus.Ipc
open Bytes Memory Transition

def sub_offset_bound : Stage → Nat
  | .recv_head | .recv_tail => 2
  | .recv_data_len => 4
  | _ => 0

-- The joint bounds of the parser's three offsets and of its payload buffer.
structure Safe (c : Conn) : Prop where
  bufs : c.recv_bufs.length = c.recv_bufs_size
  size : c.recv_bufs_size = DEFAULT_RECEVICE_BUFFER_SIZE
  offset : c.recv_bufs_offset ≤ c.recv_bufs_size
  sub : c.sub_offset ≤ sub_offset_bound c.recv_stage
  completed : c.recv_stage ≠ .recv_completed
  data_len : c.packet.data_len < 2^32
  databufs : ∀ block, c.packet_databufs = some block → block.length = c.packet_databufs_size
  positive : 0 < c.packet_databufs_size
  idle : c.recv_stage ≠ .recv_data → c.packet_databufs_offset = 0
  filling : c.recv_stage = .recv_data → c.packet_databufs_offset < c.packet.data_len ∧
    (c.packet_databufs_offset = 0 ∨
      ∃ block, c.packet_databufs = some block ∧ c.packet.data_len ≤ c.packet_databufs_size)

theorem create_safe (is_async : Bool) : Safe (ipc_conn_create is_async) := by
  refine ⟨?_,rfl,Nat.zero_le _,Nat.zero_le _,?_,Nat.two_pow_pos 32,?_,?_,fun _ => rfl,?_⟩
  · simp [ipc_conn_create]
  · intro stage; cases stage
  · intro block there; cases there
  · simp [ipc_conn_create,DEFAULT_PACKET_DATA_SIZE]
  · intro stage; cases stage

theorem connected_safe (is_async : Bool) : Safe (connected is_async) := by
  obtain ⟨bufs,size,offset,sub,completed,data_len,databufs,positive,idle,filling⟩ :=
    create_safe is_async
  exact ⟨bufs,size,offset,sub,completed,data_len,databufs,positive,idle,filling⟩

variable {c next : Conn} {outcome : Nat → Outcome} {event : Option Delivered}

-- Where a pass through RECV_DATA stands once it has looked for a buffer: the one
-- it was filling, none, or a fresh one of sufficient size.
inductive Provided (outcome : Nat → Outcome) (c : Conn) : Conn → Prop where
  | kept {block} (there : c.packet_databufs = some block)
      (enough : c.packet.data_len ≤ c.packet_databufs_size) : Provided outcome c c
  | refused (first : c.packet_databufs_offset = 0) (refusal : outcome c.allocations = none) :
      Provided outcome c {c with packet_databufs := none,allocations := c.allocations + 1}
  | obtained {block size} (first : c.packet_databufs_offset = 0) (length : block.length = size)
      (enough : c.packet.data_len ≤ size) (positive : 0 < size) :
      Provided outcome c {c with
        packet_databufs := some block
        packet_databufs_size := size
        allocations := c.allocations + 1}

theorem enlarge_parts (outcome : Nat → Outcome) (c : Conn) :
    (outcome c.allocations = none ∧ enlarge outcome c = none) ∨
      ∃ block, enlarge outcome c = some block ∧ block.length = c.packet.data_len := by
  cases request : outcome c.allocations with
  | none =>
    refine .inl ⟨rfl,?_⟩
    unfold enlarge
    cases c.packet_databufs <;> simp [request,cplus_malloc,cplus_realloc]
  | some garbage =>
    unfold enlarge
    rw [request]
    cases c.packet_databufs with
    | none => exact .inr ⟨_,rfl,malloc_length (show cplus_malloc (some garbage) _ = _ from rfl)⟩
    | some old => exact .inr ⟨_,rfl,realloc_length (show cplus_realloc (some garbage) old _ = _ from rfl)⟩

theorem provide_parts (outcome : Nat → Outcome) (safe : Safe c) (stage : c.recv_stage = .recv_data) :
    ∃ next, provide_databufs outcome c = some next ∧ Provided outcome c next := by
  obtain ⟨lacking,placed⟩ := safe.filling stage
  by_cases small : c.packet_databufs_size < c.packet.data_len
  · -- a buffer that is too small has not been filled from
    have first : c.packet_databufs_offset = 0 := by
      rcases placed with first | ⟨_,_,enough⟩
      · exact first
      · omega
    rcases enlarge_parts outcome c with ⟨refusal,refused⟩ | ⟨block,obtained,length⟩
    · refine ⟨_,?_,.refused first refusal⟩
      simp only [provide_databufs,if_pos small,refused]
    · obtain ⟨done,cleared,set,same⟩ :=
        mem_set_keeps 0 (show c.packet.data_len ≤ block.length by omega)
      refine ⟨_,?_,.obtained first (same.trans length) (Nat.le_refl _) (by omega)⟩
      simp only [provide_databufs,if_pos small,obtained,set,Option.map_some]
  · have enough : c.packet.data_len ≤ c.packet_databufs_size := by omega
    cases there : c.packet_databufs with
    | some block =>
      refine ⟨c,?_,.kept there enough⟩
      simp only [provide_databufs,if_neg small,there]
    | none =>
      have first : c.packet_databufs_offset = 0 := by
        rcases placed with first | ⟨_,missing,_⟩
        · exact first
        · rw [there] at missing; cases missing
      cases request : outcome c.allocations with
      | none =>
        refine ⟨_,?_,.refused first request⟩
        simp only [provide_databufs,if_neg small,there,request,cplus_malloc,Option.map_none,
          cplus_mem_set,Option.map_some]
      | some garbage =>
        obtain ⟨block,obtained⟩ : ∃ block,
            cplus_malloc (outcome c.allocations) c.packet_databufs_size = some block := by
          rw [request]; exact ⟨_,rfl⟩
        have length := malloc_length obtained
        obtain ⟨done,cleared,set,same⟩ :=
          mem_set_keeps 0 (show c.packet_databufs_size ≤ block.length by omega)
        refine ⟨_,?_,.obtained first (same.trans length) enough safe.positive⟩
        simp only [provide_databufs,if_neg small,there,obtained,set,Option.map_some]

-- How many bytes one pass through RECV_DATA takes.
def copied (c : Conn) : Nat :=
  min (c.packet.data_len - c.packet_databufs_offset) (c.recv_bufs_size - c.recv_bufs_offset)

def filled (c : Conn) (written : List UInt8) : Conn :=
  let next := {c with
    packet := {c.packet with data := .packet_databufs}
    packet_databufs := some written
    packet_databufs_offset := c.packet_databufs_offset + copied c
    recv_bufs_offset := c.recv_bufs_offset + copied c}
  if c.packet.data_len ≤ c.packet_databufs_offset + copied c then
    {next with recv_stage := .recv_tail,packet_databufs_offset := 0}
  else next

theorem diff_copied (lacking : c.packet_databufs_offset < c.packet.data_len)
    (data_len : c.packet.data_len < 2^32) (size : c.recv_bufs_size = DEFAULT_RECEVICE_BUFFER_SIZE)
    (room : c.recv_bufs_offset < c.recv_bufs_size) :
    min (sub32 c.packet.data_len c.packet_databufs_offset)
      (sub32 c.recv_bufs_size c.recv_bufs_offset) = copied c := by
  have size : c.recv_bufs_size = 512 := size
  rw [sub32_le (by omega) data_len,sub32_le (by omega) (by omega)]
  rfl

theorem copy_parts {block : List UInt8} (there : c.packet_databufs = some block)
    (lacking : c.packet_databufs_offset < c.packet.data_len) (data_len : c.packet.data_len < 2^32)
    (enough : c.packet.data_len ≤ block.length)
    (bufs : c.recv_bufs.length = c.recv_bufs_size)
    (size : c.recv_bufs_size = DEFAULT_RECEVICE_BUFFER_SIZE)
    (room : c.recv_bufs_offset < c.recv_bufs_size) :
    ∃ written, splice block c.packet_databufs_offset
        ((c.recv_bufs.drop c.recv_bufs_offset).take (copied c)) = some written ∧
      copy_databufs c = some {c with
        packet := {c.packet with data := .packet_databufs}
        packet_databufs := some written
        packet_databufs_offset := c.packet_databufs_offset + copied c
        recv_bufs_offset := c.recv_bufs_offset + copied c} := by
  have count := diff_copied lacking data_len size room
  have size : c.recv_bufs_size = 512 := size
  have bounds : 0 < copied c ∧ copied c ≤ c.packet.data_len - c.packet_databufs_offset ∧
      copied c ≤ c.recv_bufs_size - c.recv_bufs_offset := by
    unfold copied
    omega
  obtain ⟨written,spliced,copies⟩ := mem_cpy_ex_copies
    (show c.packet_databufs_offset + copied c ≤ block.length by omega)
    (show c.recv_bufs_offset + copied c ≤ c.recv_bufs.length by omega) (by omega)
    (Nat.le_refl (copied c)) (by simp only [RSIZE_MAX_MEM]; omega)
  refine ⟨written,spliced,?_⟩
  simp only [copy_databufs,count,there,copies,Option.map_some]

theorem recv_data_parts (outcome : Nat → Outcome) (safe : Safe c)
    (stage : c.recv_stage = .recv_data) (room : c.recv_bufs_offset < c.recv_bufs_size) :
    ∃ found, Provided outcome c found ∧
      (found.packet_databufs = none ∧ recv_data outcome c = some (drop_packet found,none) ∨
       ∃ block written, found.packet_databufs = some block ∧
        block.length = found.packet_databufs_size ∧
        c.packet.data_len ≤ found.packet_databufs_size ∧
        splice block c.packet_databufs_offset
          ((c.recv_bufs.drop c.recv_bufs_offset).take (copied c)) = some written ∧
        recv_data outcome c = some (filled found written,none)) := by
  obtain ⟨found,provide,provided⟩ := provide_parts outcome safe stage
  have lacking := (safe.filling stage).1
  -- the buffer is the only thing that looking for it changes
  have finish : ∀ block, found.packet_databufs = some block →
      found.packet_databufs_offset < found.packet.data_len → found.packet.data_len < 2^32 →
      ∀ written, copy_databufs found = some {found with
        packet := {found.packet with data := .packet_databufs}
        packet_databufs := some written
        packet_databufs_offset := found.packet_databufs_offset + copied found
        recv_bufs_offset := found.recv_bufs_offset + copied found} →
      recv_data outcome c = some (filled found written,none) := by
    intro block there below small written result
    have within : copied found ≤ found.packet.data_len - found.packet_databufs_offset :=
      Nat.min_le_left _ _
    have remaining : sub32 found.packet.data_len (found.packet_databufs_offset + copied found) ≤ 0 ↔
        found.packet.data_len ≤ found.packet_databufs_offset + copied found := by
      rw [sub32_le (by omega) small]
      omega
    simp only [recv_data,provide,Option.bind_some,there,result,Option.map_some,finish_data,
      remaining,filled]
  refine ⟨found,provided,?_⟩
  cases provided with
  | @kept block there enough =>
    have length := safe.databufs block there
    obtain ⟨written,spliced,result⟩ := copy_parts there lacking safe.data_len (by omega) safe.bufs
      safe.size room
    exact .inr ⟨block,written,there,length,enough,spliced,
      finish block there lacking safe.data_len written result⟩
  | refused first refusal =>
    refine .inl ⟨rfl,?_⟩
    simp only [recv_data,provide,Option.bind_some]
  | @obtained block size first length enough positive =>
    obtain ⟨written,spliced,result⟩ := copy_parts (c := {c with
        packet_databufs := some block
        packet_databufs_size := size
        allocations := c.allocations + 1}) rfl lacking safe.data_len (length.symm ▸ enough) safe.bufs
        safe.size room
    exact .inr ⟨block,written,rfl,length,enough,spliced,
      finish block rfl lacking safe.data_len written result⟩

-- The length read so far; the first byte starts from 0.
def length_read (c : Conn) : Nat := if c.sub_offset = 0 then 0 else c.packet.data_len

-- Everything one pass through the loop can do from a safe state.
inductive Pass (outcome : Nat → Outcome) (c : Conn) : Conn → Option Delivered → Prop where
  | head_dropped {expected byte} (stage : c.recv_stage = .recv_head)
      (tag : IPC_CONN_PACKET_BEGIN_TAG[c.sub_offset]? = some expected)
      (read : c.recv_bufs[c.recv_bufs_offset]? = some byte) (differs : expected ≠ byte) :
      Pass outcome c (consume (drop_packet c)) none
  | head_matched {byte} (stage : c.recv_stage = .recv_head)
      (tag : IPC_CONN_PACKET_BEGIN_TAG[c.sub_offset]? = some byte)
      (read : c.recv_bufs[c.recv_bufs_offset]? = some byte) (more : c.sub_offset < 2) :
      Pass outcome c (consume {c with sub_offset := c.sub_offset + 1}) none
  | head_complete {byte} (stage : c.recv_stage = .recv_head)
      (tag : IPC_CONN_PACKET_BEGIN_TAG[c.sub_offset]? = some byte)
      (read : c.recv_bufs[c.recv_bufs_offset]? = some byte) (last : c.sub_offset = 2) :
      Pass outcome c (consume {reset_event c with recv_stage := .recv_seqn,sub_offset := 0}) none
  | seqn {byte} (stage : c.recv_stage = .recv_seqn)
      (read : c.recv_bufs[c.recv_bufs_offset]? = some byte) :
      Pass outcome c (consume {c with
        packet := {c.packet with seqn := byte},recv_stage := .recv_cmd}) none
  | cmd {byte} (stage : c.recv_stage = .recv_cmd)
      (read : c.recv_bufs[c.recv_bufs_offset]? = some byte) :
      Pass outcome c (consume {c with
        packet := {c.packet with cmd := byte},recv_stage := .recv_data_len}) none
  | length_byte {byte} (stage : c.recv_stage = .recv_data_len)
      (read : c.recv_bufs[c.recv_bufs_offset]? = some byte) (more : c.sub_offset < 4) :
      Pass outcome c (consume {c with
        packet := {c.packet with data_len := readNext (length_read c) byte}
        sub_offset := c.sub_offset + 1}) none
  | length_some (stage : c.recv_stage = .recv_data_len) (last : c.sub_offset = 4)
      (positive : 0 < c.packet.data_len) :
      Pass outcome c {c with sub_offset := 0,recv_stage := .recv_data} none
  | length_none (stage : c.recv_stage = .recv_data_len) (last : c.sub_offset = 4)
      (zero : c.packet.data_len = 0) :
      Pass outcome c {c with sub_offset := 0,recv_stage := .recv_tail} none
  | data_refused {found} (stage : c.recv_stage = .recv_data) (provided : Provided outcome c found)
      (missing : found.packet_databufs = none) : Pass outcome c (drop_packet found) none
  | data_copied {found block written} (stage : c.recv_stage = .recv_data)
      (provided : Provided outcome c found) (there : found.packet_databufs = some block)
      (length : block.length = found.packet_databufs_size)
      (enough : c.packet.data_len ≤ found.packet_databufs_size)
      (spliced : splice block c.packet_databufs_offset
        ((c.recv_bufs.drop c.recv_bufs_offset).take (copied c)) = some written) :
      Pass outcome c (filled found written) none
  | tail_dropped {expected byte} (stage : c.recv_stage = .recv_tail)
      (tag : IPC_CONN_PACKET_END_TAG[c.sub_offset]? = some expected)
      (read : c.recv_bufs[c.recv_bufs_offset]? = some byte) (differs : expected ≠ byte) :
      Pass outcome c (consume (drop_packet c)) none
  | tail_matched {byte} (stage : c.recv_stage = .recv_tail)
      (tag : IPC_CONN_PACKET_END_TAG[c.sub_offset]? = some byte)
      (read : c.recv_bufs[c.recv_bufs_offset]? = some byte) (more : c.sub_offset < 2) :
      Pass outcome c (consume {c with sub_offset := c.sub_offset + 1}) none
  | tail_complete {byte} (stage : c.recv_stage = .recv_tail)
      (tag : IPC_CONN_PACKET_END_TAG[c.sub_offset]? = some byte)
      (read : c.recv_bufs[c.recv_bufs_offset]? = some byte) (last : c.sub_offset = 2)
      (moves : c.is_async = false ∨ c.evt_packet_received = none) :
      Pass outcome c (consume (set_event (drop_packet c))) (some (delivered c))
  | tail_stays {byte} (stage : c.recv_stage = .recv_tail)
      (tag : IPC_CONN_PACKET_END_TAG[c.sub_offset]? = some byte)
      (read : c.recv_bufs[c.recv_bufs_offset]? = some byte) (last : c.sub_offset = 2)
      (stays : c.is_async = true ∧ c.evt_packet_received ≠ none) :
      Pass outcome c (set_event (drop_packet c)) (some (delivered c))

theorem tag_byte (table : List UInt8) (length : table.length = 4) (sub : c.sub_offset ≤ 2) :
    ∃ expected, table[c.sub_offset]? = some expected :=
  ⟨_,List.getElem?_eq_getElem (by omega)⟩

theorem recv_head_pass (outcome : Nat → Outcome) (stage : c.recv_stage = .recv_head)
    (sub : c.sub_offset ≤ 2) {byte : UInt8} (read : c.recv_bufs[c.recv_bufs_offset]? = some byte) :
    ∃ next event, recv_head c = some (next,event) ∧ Pass outcome c next event := by
  obtain ⟨expected,tag⟩ := tag_byte IPC_CONN_PACKET_BEGIN_TAG rfl sub
  by_cases same : expected = byte
  · subst same
    by_cases last : IPC_CONN_PACKET_TAG_SIZE ≤ c.sub_offset + 1
    · have two : c.sub_offset = 2 := by simp only [IPC_CONN_PACKET_TAG_SIZE] at last; omega
      refine ⟨_,_,?_,.head_complete stage tag read two⟩
      simp only [recv_head,tag,read,Option.bind_some,Option.map_some,if_pos last,if_true]
      rfl
    · have more : c.sub_offset < 2 := by simp only [IPC_CONN_PACKET_TAG_SIZE] at last; omega
      refine ⟨_,_,?_,.head_matched stage tag read more⟩
      simp only [recv_head,tag,read,Option.bind_some,Option.map_some,if_neg last,if_true]
  · refine ⟨_,_,?_,.head_dropped stage tag read same⟩
    simp only [recv_head,tag,read,Option.bind_some,Option.map_some,if_neg same]

theorem recv_data_len_pass (outcome : Nat → Outcome) (stage : c.recv_stage = .recv_data_len)
    (sub : c.sub_offset ≤ 4) {byte : UInt8} (read : c.recv_bufs[c.recv_bufs_offset]? = some byte) :
    ∃ next event, recv_data_len c = some (next,event) ∧ Pass outcome c next event := by
  by_cases more : c.sub_offset < 4
  · refine ⟨_,_,?_,.length_byte stage read more⟩
    simp only [recv_data_len,if_pos more,read,Option.map_some,length_read]
  · have last : c.sub_offset = 4 := by omega
    have begun : ¬ c.sub_offset = 0 := by omega
    by_cases positive : 0 < c.packet.data_len
    · refine ⟨_,_,?_,.length_some stage last positive⟩
      simp only [recv_data_len,if_neg more,if_neg begun,if_pos positive]
      split <;> rfl
    · refine ⟨_,_,?_,.length_none stage last (by omega)⟩
      simp only [recv_data_len,if_neg more,if_neg begun,if_neg positive]
      split <;> rfl

theorem recv_tail_pass (outcome : Nat → Outcome) (stage : c.recv_stage = .recv_tail)
    (sub : c.sub_offset ≤ 2) {byte : UInt8} (read : c.recv_bufs[c.recv_bufs_offset]? = some byte) :
    ∃ next event, recv_tail c = some (next,event) ∧ Pass outcome c next event := by
  obtain ⟨expected,tag⟩ := tag_byte IPC_CONN_PACKET_END_TAG rfl sub
  by_cases same : expected = byte
  · subst same
    by_cases last : IPC_CONN_PACKET_TAG_SIZE ≤ c.sub_offset + 1
    · have two : c.sub_offset = 2 := by simp only [IPC_CONN_PACKET_TAG_SIZE] at last; omega
      cases evt : c.evt_packet_received with
      | none =>
        refine ⟨_,_,?_,.tail_complete stage tag read two (.inr evt)⟩
        simp only [recv_tail,tag,read,Option.bind_some,Option.map_some,if_pos last,if_true,
          drop_packet,set_event,evt,Option.map_none]
        rfl
      | some flag =>
        cases async : c.is_async with
        | false =>
          refine ⟨_,_,?_,.tail_complete stage tag read two (.inl async)⟩
          simp only [recv_tail,tag,read,Option.bind_some,Option.map_some,if_pos last,if_true,
            drop_packet,set_event,evt,async]
          rfl
        | true =>
          refine ⟨_,_,?_,.tail_stays stage tag read two ⟨async,by simp [evt]⟩⟩
          simp only [recv_tail,tag,read,Option.bind_some,Option.map_some,if_pos last,if_true,
            drop_packet,set_event,evt,async]
          rfl
    · have more : c.sub_offset < 2 := by simp only [IPC_CONN_PACKET_TAG_SIZE] at last; omega
      refine ⟨_,_,?_,.tail_matched stage tag read more⟩
      simp only [recv_tail,tag,read,Option.bind_some,Option.map_some,if_neg last,if_true]
  · refine ⟨_,_,?_,.tail_dropped stage tag read same⟩
    simp only [recv_tail,tag,read,Option.bind_some,Option.map_some,if_neg same]

-- A pass from a safe state makes no access outside its arrays.
theorem iterate_pass (outcome : Nat → Outcome) (safe : Safe c)
    (room : c.recv_bufs_offset < c.recv_bufs_size) :
    ∃ next event, iterate outcome c = some (next,event) ∧ Pass outcome c next event := by
  have inside : c.recv_bufs_offset < c.recv_bufs.length := by rw [safe.bufs]; exact room
  have read := List.getElem?_eq_getElem inside
  have sub := safe.sub
  unfold iterate
  cases stage : c.recv_stage with
  | recv_head => exact recv_head_pass outcome stage (by rw [stage] at sub; exact sub) read
  | recv_seqn =>
    exact ⟨_,_,by simp only [recv_seqn,read,Option.map_some],.seqn stage read⟩
  | recv_cmd =>
    exact ⟨_,_,by simp only [recv_cmd,read,Option.map_some],.cmd stage read⟩
  | recv_data_len => exact recv_data_len_pass outcome stage (by rw [stage] at sub; exact sub) read
  | recv_data =>
    obtain ⟨found,provided,⟨missing,result⟩ | ⟨block,written,there,length,enough,spliced,result⟩⟩ :=
      recv_data_parts outcome safe stage room
    · exact ⟨_,_,result,.data_refused stage provided missing⟩
    · exact ⟨_,_,result,.data_copied stage provided there length enough spliced⟩
  | recv_tail => exact recv_tail_pass outcome stage (by rw [stage] at sub; exact sub) read
  | recv_completed => exact absurd stage safe.completed

-- Outside RECV_DATA a pass leaves both buffers alone.
theorem Safe.outside_data (safe : Safe c) (idle : c.recv_stage ≠ .recv_data)
    (bufs : next.recv_bufs = c.recv_bufs) (size : next.recv_bufs_size = c.recv_bufs_size)
    (databufs : next.packet_databufs = c.packet_databufs)
    (databufs_size : next.packet_databufs_size = c.packet_databufs_size)
    (databufs_offset : next.packet_databufs_offset = c.packet_databufs_offset)
    (offset : next.recv_bufs_offset ≤ c.recv_bufs_size)
    (sub : next.sub_offset ≤ sub_offset_bound next.recv_stage)
    (completed : next.recv_stage ≠ .recv_completed) (data_len : next.packet.data_len < 2^32)
    (begun : next.recv_stage = .recv_data → 0 < next.packet.data_len) : Safe next := by
  have zero : next.packet_databufs_offset = 0 := databufs_offset.trans (safe.idle idle)
  refine ⟨?_,size.trans safe.size,size ▸ offset,sub,completed,data_len,?_,?_,fun _ => zero,?_⟩
  · rw [bufs,size]; exact safe.bufs
  · rw [databufs,databufs_size]; exact safe.databufs
  · rw [databufs_size]; exact safe.positive
  · intro stage
    have positive := begun stage
    exact ⟨by omega,.inl zero⟩

theorem readNext_lt (n : Nat) (b : UInt8) : readNext n b < 2^32 := Nat.mod_lt _ (Nat.two_pow_pos 32)

theorem refused_safe {found : Conn} (safe : Safe c) (provided : Provided outcome c found)
    (missing : found.packet_databufs = none) : Safe (drop_packet found) := by
  cases provided with
  | kept there enough => rw [there] at missing; cases missing
  | refused first refusal =>
    refine ⟨safe.bufs,safe.size,safe.offset,Nat.zero_le _,?_,safe.data_len,?_,safe.positive,
      fun _ => first,?_⟩
    · intro stage; cases stage
    · intro block there; cases there
    · intro stage; cases stage
  | obtained first length enough positive => cases missing

theorem copied_bounds (lacking : c.packet_databufs_offset < c.packet.data_len)
    (room : c.recv_bufs_offset < c.recv_bufs_size) :
    0 < copied c ∧ c.packet_databufs_offset + copied c ≤ c.packet.data_len ∧
      c.recv_bufs_offset + copied c ≤ c.recv_bufs_size := by
  unfold copied
  omega

theorem filled_safe {found : Conn} {block written : List UInt8}
    (bufs : found.recv_bufs.length = found.recv_bufs_size)
    (size : found.recv_bufs_size = DEFAULT_RECEVICE_BUFFER_SIZE)
    (sub : found.sub_offset = 0) (data_len : found.packet.data_len < 2^32)
    (stage : found.recv_stage = .recv_data)
    (lacking : found.packet_databufs_offset < found.packet.data_len)
    (room : found.recv_bufs_offset < found.recv_bufs_size)
    (length : block.length = found.packet_databufs_size)
    (enough : found.packet.data_len ≤ found.packet_databufs_size)
    (same : written.length = block.length) : Safe (filled found written) := by
  obtain ⟨some,whole,within⟩ := copied_bounds lacking room
  have databufs : written.length = found.packet_databufs_size := same.trans length
  unfold filled
  by_cases full : found.packet.data_len ≤ found.packet_databufs_offset + copied found
  · rw [if_pos full]
    refine ⟨bufs,size,within,?_,?_,data_len,?_,?_,fun _ => rfl,?_⟩
    · exact sub.trans_le (Nat.zero_le _)
    · intro completed; cases completed
    · intro b there; cases there; exact databufs
    · exact Nat.lt_of_lt_of_le (Nat.zero_lt_of_lt lacking) enough
    · intro filling; cases filling
  · rw [if_neg full]
    refine ⟨bufs,size,within,?_,?_,data_len,?_,?_,?_,?_⟩
    · exact sub.trans_le (Nat.zero_le _)
    · intro completed; rw [stage] at completed; cases completed
    · intro b there; cases there; exact databufs
    · exact Nat.lt_of_lt_of_le (Nat.zero_lt_of_lt lacking) enough
    · intro idle; exact absurd stage idle
    · intro _
      have left : found.packet_databufs_offset + copied found < found.packet.data_len := by omega
      exact ⟨left,.inr ⟨written,rfl,enough⟩⟩

theorem pass_safe (safe : Safe c) (room : c.recv_bufs_offset < c.recv_bufs_size)
    (pass : Pass outcome c next event) : Safe next := by
  have sub := safe.sub
  have data_len := safe.data_len
  have elsewhere : ∀ {stage}, c.recv_stage = stage → stage ≠ .recv_data →
      c.recv_stage ≠ .recv_data := fun at_stage other same => other (at_stage.symm.trans same)
  cases pass with
  | head_dropped stage =>
    exact safe.outside_data (elsewhere stage (by decide)) rfl rfl rfl rfl rfl room (Nat.zero_le _)
      nofun data_len nofun
  | head_matched stage tag read more =>
    refine safe.outside_data (elsewhere stage (by decide)) rfl rfl rfl rfl rfl room ?_
      safe.completed data_len fun h => absurd h (elsewhere stage (by decide))
    show c.sub_offset + 1 ≤ sub_offset_bound c.recv_stage
    rw [stage]; exact more
  | head_complete stage =>
    exact safe.outside_data (elsewhere stage (by decide)) rfl rfl rfl rfl rfl room (Nat.zero_le _)
      nofun data_len nofun
  | seqn stage =>
    rw [stage] at sub
    exact safe.outside_data (elsewhere stage (by decide)) rfl rfl rfl rfl rfl room sub
      nofun data_len nofun
  | cmd stage =>
    rw [stage] at sub
    exact safe.outside_data (elsewhere stage (by decide)) rfl rfl rfl rfl rfl room
      (sub.trans (Nat.zero_le _)) nofun data_len nofun
  | length_byte stage read more =>
    refine safe.outside_data (elsewhere stage (by decide)) rfl rfl rfl rfl rfl room ?_
      safe.completed (readNext_lt _ _) fun h => absurd h (elsewhere stage (by decide))
    show c.sub_offset + 1 ≤ sub_offset_bound c.recv_stage
    rw [stage]; exact more
  | length_some stage last positive =>
    exact safe.outside_data (elsewhere stage (by decide)) rfl rfl rfl rfl rfl safe.offset
      (Nat.zero_le _) nofun data_len (fun _ => positive)
  | length_none stage last zero =>
    exact safe.outside_data (elsewhere stage (by decide)) rfl rfl rfl rfl rfl safe.offset
      (Nat.zero_le _) nofun data_len nofun
  | data_refused stage provided missing => exact refused_safe safe provided missing
  | data_copied stage provided there length enough spliced =>
    rw [stage] at sub
    have lacking := (safe.filling stage).1
    have same := splice_length spliced
    have zero := Nat.le_zero.mp sub
    cases provided with
    | kept => exact filled_safe safe.bufs safe.size zero data_len stage lacking room length enough same
    | refused => cases there
    | obtained => exact filled_safe safe.bufs safe.size zero data_len stage lacking room length enough same
  | tail_dropped stage =>
    exact safe.outside_data (elsewhere stage (by decide)) rfl rfl rfl rfl rfl room (Nat.zero_le _)
      nofun data_len nofun
  | tail_matched stage tag read more =>
    refine safe.outside_data (elsewhere stage (by decide)) rfl rfl rfl rfl rfl room ?_
      safe.completed data_len fun h => absurd h (elsewhere stage (by decide))
    show c.sub_offset + 1 ≤ sub_offset_bound c.recv_stage
    rw [stage]; exact more
  | tail_complete stage =>
    exact safe.outside_data (elsewhere stage (by decide)) rfl rfl rfl rfl rfl room (Nat.zero_le _)
      nofun data_len nofun
  | tail_stays stage =>
    exact safe.outside_data (elsewhere stage (by decide)) rfl rfl rfl rfl rfl safe.offset
      (Nat.zero_le _) nofun data_len nofun

-- How many passes may still come before one that consumes a byte.
def rank (c : Conn) : Nat :=
  match c.recv_stage with
  | .recv_data | .recv_tail => 1
  | .recv_data_len => if c.sub_offset < 4 then 0 else 2
  | _ => 0

theorem rank_le (c : Conn) : rank c ≤ 2 := by
  unfold rank
  split
  · omega
  · omega
  · split <;> omega
  · omega

theorem pass_progress (safe : Safe c) (room : c.recv_bufs_offset < c.recv_bufs_size)
    (pass : Pass outcome c next event) :
    next.recv_bufs = c.recv_bufs ∧ next.recv_bufs_size = c.recv_bufs_size ∧
    (c.recv_bufs_offset < next.recv_bufs_offset ∨
      next.recv_bufs_offset = c.recv_bufs_offset ∧ rank next < rank c) := by
  cases pass with
  | head_dropped | head_matched | head_complete | seqn | cmd | length_byte | tail_dropped |
    tail_matched | tail_complete => exact ⟨rfl,rfl,.inl (Nat.lt_succ_self _)⟩
  | length_some stage last | length_none stage last =>
    refine ⟨rfl,rfl,.inr ⟨rfl,?_⟩⟩
    simp [rank,stage,last]
  | tail_stays stage =>
    refine ⟨rfl,rfl,.inr ⟨rfl,?_⟩⟩
    simp [rank,stage,set_event,drop_packet]
  | data_refused stage provided missing =>
    cases provided with
    | kept there => rw [there] at missing; cases missing
    | obtained => cases missing
    | refused =>
      refine ⟨rfl,rfl,.inr ⟨rfl,?_⟩⟩
      simp [rank,stage,drop_packet]
  | @data_copied found block written stage provided there length enough spliced =>
    have positive := (copied_bounds (safe.filling stage).1 room).1
    have fields : (filled found written).recv_bufs = found.recv_bufs ∧
        (filled found written).recv_bufs_size = found.recv_bufs_size ∧
        (filled found written).recv_bufs_offset = found.recv_bufs_offset + copied found := by
      unfold filled
      split <;> exact ⟨rfl,rfl,rfl⟩
    rw [fields.1,fields.2.1,fields.2.2]
    cases provided with
    | kept => exact ⟨rfl,rfl,.inl (Nat.lt_add_of_pos_right positive)⟩
    | refused => cases there
    | obtained => exact ⟨rfl,rfl,.inl (Nat.lt_add_of_pos_right positive)⟩

-- What no pass touches: the connection's own state outside the parser.
def outer (c : Conn) : Bool × Nat × Status × Option Errno × Int × Bool :=
  (c.is_async,c.recv_timeout,c.status,c.sock_error,c.recv_count,c.evt_packet_received.isSome)

theorem pass_outer (pass : Pass outcome c next event) : outer next = outer c := by
  cases pass with
  | data_refused stage provided =>
    cases provided <;> rfl
  | @data_copied found block written stage provided =>
    have same : outer (filled found written) = outer found := by unfold filled; split <;> rfl
    rw [same]
    cases provided <;> rfl
  | head_complete => simp [outer,consume,reset_event]
  | tail_complete => simp [outer,consume,set_event,drop_packet]
  | tail_stays => simp [outer,set_event,drop_packet]
  | _ => rfl

-- The session as the connection's own thread runs it, one loop pass at a time,
-- with the packets completed so far. While the loop runs no other recv happens.
structure Session where
  conn : Conn
  walker : Nat
  completed : List Delivered
  deriving DecidableEq, Repr

inductive Action where
  | recv (received : Received)
  | pass
  deriving DecidableEq, Repr

-- What cplus_socket_recv can bring, given the room it is told.
def Admissible (c : Conn) : Received → Prop
  | .data bytes => bytes ≠ [] ∧ bytes.length ≤ recv_room c
  | _ => True

instance (c : Conn) (received : Received) : Decidable (Admissible c received) := by
  cases received <;> unfold Admissible <;> infer_instance

section
variable (outcome : Nat → Outcome)

def Session.advance (s : Session) : Action → Option Session
  | .recv received =>
    if s.walker ≤ s.conn.recv_bufs_offset ∧ s.conn.status ≠ .not_connected ∧
        Admissible s.conn received then
      (ipc_conn_recv s.conn received).map fun c => ⟨c,walker_count c,s.completed⟩
    else none
  | .pass =>
    if s.conn.recv_bufs_offset < s.walker then
      (iterate outcome s.conn).map fun pass =>
        ⟨pass.1,s.walker,s.completed ++ pass.2.toList⟩
    else none

abbrev Session.Step : Session → Action → Session → Prop := Follows (Session.advance outcome)

def Session.start (is_async : Bool) : Session := ⟨connected is_async,0,[]⟩

end

structure Session.Bounded (s : Session) : Prop where
  safe : Safe s.conn
  walker : s.walker ≤ s.conn.recv_bufs_size

variable {s t : Session} {received : Received}

theorem wrap_offset_safe (safe : Safe c) :
    Safe (wrap_offset c) ∧ (wrap_offset c).recv_bufs_offset < (wrap_offset c).recv_bufs_size := by
  have positive : 0 < c.recv_bufs_size := by rw [safe.size]; decide
  unfold wrap_offset
  split
  · exact ⟨⟨safe.bufs,safe.size,Nat.zero_le _,safe.sub,safe.completed,safe.data_len,safe.databufs,
      safe.positive,safe.idle,safe.filling⟩,positive⟩
  · exact ⟨safe,by omega⟩

theorem wrap_offset_outer (c : Conn) : outer (wrap_offset c) = outer c := by
  unfold wrap_offset
  split <;> rfl

-- A recv changes neither where the parser is nor the packet it has.
structure Untouched (c next : Conn) : Prop where
  is_async : next.is_async = c.is_async
  stage : next.recv_stage = c.recv_stage
  event : next.evt_packet_received = c.evt_packet_received
  packet : next.packet = c.packet
  databufs : next.packet_databufs = c.packet_databufs
  allocations : next.allocations = c.allocations

theorem recv_untouched (stored : ipc_conn_recv c received = some next) : Untouched c next := by
  have wrapped : Untouched c (wrap_offset c) := by
    unfold wrap_offset
    split <;> exact ⟨rfl,rfl,rfl,rfl,rfl,rfl⟩
  obtain ⟨is_async,stage,event,packet,databufs,allocations⟩ := wrapped
  cases received with
  | data bytes =>
    simp only [ipc_conn_recv,store_received,Option.map_eq_some_iff] at stored
    obtain ⟨_,_,rfl⟩ := stored
    exact ⟨is_async,stage,event,packet,databufs,allocations⟩
  | closed | error =>
    cases stored
    exact ⟨is_async,stage,event,packet,databufs,allocations⟩

theorem store_received_safe (safe : Safe c) (fits : ∀ bytes, received = .data bytes →
      bytes.length ≤ c.recv_bufs_size - c.recv_bufs_offset) :
    ∃ next, store_received c received = some next ∧ Safe next ∧
      walker_count next ≤ next.recv_bufs_size := by
  have offset := safe.offset
  cases received with
  | data bytes =>
    have room := fits bytes rfl
    obtain ⟨written,spliced⟩ : ∃ written, splice c.recv_bufs c.recv_bufs_offset bytes = some written :=
      ⟨_,splice_some (by rw [safe.bufs]; omega)⟩
    refine ⟨_,by simp only [store_received,spliced,Option.map_some]; rfl,?_,?_⟩
    · exact ⟨(splice_length spliced).trans safe.bufs,safe.size,safe.offset,safe.sub,safe.completed,
        safe.data_len,safe.databufs,safe.positive,safe.idle,safe.filling⟩
    · simp only [walker_count,Int.toNat_natCast]
      omega
  | closed =>
    refine ⟨_,rfl,⟨safe.bufs,safe.size,safe.offset,safe.sub,safe.completed,safe.data_len,
      safe.databufs,safe.positive,safe.idle,safe.filling⟩,?_⟩
    simpa [walker_count] using offset
  | error errno =>
    refine ⟨_,rfl,⟨safe.bufs,safe.size,safe.offset,safe.sub,safe.completed,safe.data_len,
      safe.databufs,safe.positive,safe.idle,safe.filling⟩,?_⟩
    simpa [walker_count] using offset

theorem recv_safe (safe : Safe c) (admissible : Admissible c received) :
    ∃ next, ipc_conn_recv c received = some next ∧ Safe next ∧
      walker_count next ≤ next.recv_bufs_size := by
  refine store_received_safe (wrap_offset_safe safe).1 fun bytes same => ?_
  subst same
  exact admissible.2

theorem start_bounded (is_async : Bool) : (Session.start is_async).Bounded :=
  ⟨connected_safe is_async,Nat.zero_le _⟩

theorem recv_parts (taken : Session.Step outcome s (.recv received) t) :
    s.walker ≤ s.conn.recv_bufs_offset ∧ Admissible s.conn received ∧
      ∃ c, ipc_conn_recv s.conn received = some c ∧ t = ⟨c,walker_count c,s.completed⟩ := by
  simp only [Follows,Session.advance] at taken
  split at taken
  · rename_i guard
    cases stored : ipc_conn_recv s.conn received with
    | none => simp [stored] at taken
    | some c =>
      simp only [stored,Option.map_some,Option.some.injEq] at taken
      exact ⟨guard.1,guard.2.2,c,rfl,taken.symm⟩
  · cases taken

theorem pass_parts (bounded : s.Bounded) (taken : Session.Step outcome s .pass t) :
    s.conn.recv_bufs_offset < s.conn.recv_bufs_size ∧ t.walker = s.walker ∧
      ∃ event, t.completed = s.completed ++ event.toList ∧
        iterate outcome s.conn = some (t.conn,event) ∧ Pass outcome s.conn t.conn event := by
  simp only [Follows,Session.advance] at taken
  split at taken
  · rename_i within
    have room := Nat.lt_of_lt_of_le within bounded.walker
    obtain ⟨next,event,result,pass⟩ := iterate_pass outcome bounded.safe room
    simp only [result,Option.map_some,Option.some.injEq] at taken
    subst taken
    exact ⟨room,rfl,event,rfl,result,pass⟩
  · cases taken

theorem step_bounded (bounded : s.Bounded) (taken : Session.Step outcome s a t) : t.Bounded := by
  cases a with
  | recv received =>
    obtain ⟨_,admissible,c,stored,rfl⟩ := recv_parts taken
    obtain ⟨next,same,safe,walker⟩ := recv_safe bounded.safe admissible
    rw [stored] at same
    cases same
    exact ⟨safe,walker⟩
  | pass =>
    obtain ⟨room,walker,event,_,_,pass⟩ := pass_parts bounded taken
    refine ⟨pass_safe bounded.safe room pass,?_⟩
    rw [walker,(pass_progress bounded.safe room pass).2.1]
    exact bounded.walker

-- A payload buffer in use: it exists, and what is filled of it is less than the
-- packet's length, which it has room for.
def Filling (c : Conn) : Prop :=
  ∃ block, c.packet_databufs = some block ∧ block.length = c.packet_databufs_size ∧
    c.packet_databufs_offset < c.packet.data_len ∧ c.packet.data_len ≤ c.packet_databufs_size

-- A pass that stays in RECV_DATA has copied something.
theorem pass_filling (safe : Safe c) (room : c.recv_bufs_offset < c.recv_bufs_size)
    (pass : Pass outcome c next event) (before : c.recv_stage = .recv_data)
    (after : next.recv_stage = .recv_data) : Filling next := by
  have next_safe := pass_safe safe room pass
  obtain ⟨lacking,first | ⟨block,there,enough⟩⟩ := next_safe.filling after
  · exfalso
    cases pass with
    | data_copied stage provided there length enough spliced =>
      rename_i found block written
      obtain ⟨some,_,_⟩ := copied_bounds (safe.filling stage).1 room
      have more : 0 < copied found := by
        cases provided with
        | kept => exact some
        | refused => cases there
        | obtained => exact some
      revert after first
      unfold filled
      split
      · intro after; cases after
      · intro _ first
        have := Nat.add_eq_zero_iff.mp first
        omega
    | length_some stage => rw [stage] at before; cases before
    | head_matched stage => rw [stage] at before; cases before
    | length_byte stage => rw [stage] at before; cases before
    | tail_matched stage => rw [stage] at before; cases before
    | _ => cases after
  · exact ⟨block,there,next_safe.databufs block there,lacking,enough⟩

-- The loop of ipc_packet_analyze is a run of passes, and its fuel lasts.
theorem loop_runs (outcome : Nat → Outcome) (walker fuel : Nat) (c : Conn) (before : List Delivered)
    (safe : Safe c) (within : walker ≤ c.recv_bufs_size)
    (enough : c.recv_bufs_offset < walker → 3 * (walker - c.recv_bufs_offset) + rank c ≤ fuel) :
    ∃ last events moves, analyze_loop outcome walker fuel c = some (last,events) ∧
      Run (Session.Step outcome) ⟨c,walker,before⟩ moves ⟨last,walker,before ++ events⟩ ∧
      walker ≤ last.recv_bufs_offset := by
  induction fuel generalizing c before with
  | zero =>
    have done : ¬ c.recv_bufs_offset < walker := fun running => by
      have := enough running
      omega
    refine ⟨c,[],[],by simp only [analyze_loop,if_neg done],?_,by omega⟩
    rw [List.append_nil]
    exact .nil
  | succ fuel ih =>
    by_cases running : c.recv_bufs_offset < walker
    · have room := Nat.lt_of_lt_of_le running within
      obtain ⟨next,event,result,pass⟩ := iterate_pass outcome safe room
      obtain ⟨_,size,progress⟩ := pass_progress safe room pass
      have budget := enough running
      have rank := rank_le next
      obtain ⟨last,events,moves,rest,run,finished⟩ := ih next (before ++ event.toList)
        (pass_safe safe room pass) (by rw [size]; exact within) (fun more => by omega)
      have taken : Session.Step outcome ⟨c,walker,before⟩ .pass
          ⟨next,walker,before ++ event.toList⟩ := by
        simp only [Follows,Session.advance,if_pos running,result,Option.map_some]
      have whole := run.cons taken
      rw [List.append_assoc] at whole
      refine ⟨last,event.toList ++ events,_,?_,whole,finished⟩
      simp only [analyze_loop,if_pos running,result,Option.bind_some,rest,Option.map_some]
    · refine ⟨c,[],[],by simp only [analyze_loop,if_neg running],?_,by omega⟩
      rw [List.append_nil]
      exact .nil

theorem analyze_runs (outcome : Nat → Outcome) (before : List Delivered) (safe : Safe c)
    (within : walker_count c ≤ c.recv_bufs_size) :
    ∃ last events moves, ipc_packet_analyze outcome c = some (last,events) ∧
      Run (Session.Step outcome) ⟨c,walker_count c,before⟩ moves
        ⟨last,walker_count c,before ++ events⟩ ∧
      walker_count c ≤ last.recv_bufs_offset := by
  refine loop_runs outcome _ _ c before safe within fun running => ?_
  have rank := rank_le c
  simp only [walker_count] at running ⊢
  omega

-- A call of ipc_conn_proc returns, and is a run of the session's steps.
theorem proc_runs (outcome : Nat → Outcome) (bounded : s.Bounded)
    (waiting : s.walker ≤ s.conn.recv_bufs_offset) (admissible : Admissible s.conn received) :
    ∃ last events walker moves, ipc_conn_proc outcome s.conn received = some (last,events) ∧
      Run (Session.Step outcome) s moves ⟨last,walker,s.completed ++ events⟩ ∧
      walker ≤ last.recv_bufs_offset := by
  by_cases closed : s.conn.status = .not_connected
  · refine ⟨s.conn,[],s.walker,[],by simp only [ipc_conn_proc,if_pos closed],?_,waiting⟩
    rw [List.append_nil]
    exact .nil
  · obtain ⟨next,stored,next_safe,walker⟩ := recv_safe bounded.safe admissible
    have taken : Session.Step outcome s (.recv received) ⟨next,walker_count next,s.completed⟩ := by
      have guard : s.walker ≤ s.conn.recv_bufs_offset ∧ s.conn.status ≠ .not_connected ∧
          Admissible s.conn received := ⟨waiting,closed,admissible⟩
      simp only [Follows,Session.advance,if_pos guard,stored,Option.map_some]
    simp only [ipc_conn_proc,if_neg closed,stored,Option.bind_some]
    cases received with
    | data bytes =>
      obtain ⟨last,events,moves,result,run,finished⟩ :=
        analyze_runs outcome s.completed next_safe walker
      exact ⟨last,events,_,_,result,run.cons taken,finished⟩
    | closed | error errno =>
      have whole := Run.nil.snoc taken
      cases stored
      exact ⟨_,[],_,_,rfl,by rw [List.append_nil]; exact whole,by simp [walker_count]⟩

theorem parser_safe {outcome : Nat → Outcome} {is_async : Bool} {s : Session}
    {moves : List (Move Session Action)}
    (run : Run (Session.Step outcome) (Session.start is_async) moves s) :
    Safe s.conn ∧
    (∀ m ∈ moves, m.action = .pass → m.before.conn.recv_stage = .recv_data →
      m.after.conn.recv_stage = .recv_data → Filling m.after.conn) ∧
    (s.conn.recv_bufs_offset < s.walker → (iterate outcome s.conn).isSome) ∧
    (s.walker ≤ s.conn.recv_bufs_offset → ∀ received, Admissible s.conn received →
      (ipc_conn_proc outcome s.conn received).isSome) := by
  have bounded := (run.invariant (start_bounded is_async) step_bounded).1
  refine ⟨bounded.safe,?_,?_,?_⟩
  · induction run with
    | nil => intro m member; cases member
    | snoc prior taken ih =>
      have before := (prior.invariant (start_bounded is_async) step_bounded).1
      intro m member action before_stage after_stage
      rcases List.mem_append.mp member with old | new
      · exact ih before m old action before_stage after_stage
      · obtain rfl := List.mem_singleton.mp new
        subst action
        obtain ⟨room,_,event,_,_,pass⟩ := pass_parts before taken
        exact pass_filling before.safe room pass before_stage after_stage
  · intro running
    obtain ⟨next,event,result,_⟩ :=
      iterate_pass outcome bounded.safe (Nat.lt_of_lt_of_le running bounded.walker)
    rw [result]
    rfl
  · intro waiting received admissible
    obtain ⟨last,events,_,_,result,_⟩ := proc_runs outcome bounded waiting admissible
    rw [result]
    rfl

-- A header that promises two bytes of data, of which one has arrived.
def shortChunk : List Action :=
  .recv (.data [0x53,0x54,0x58,1,3,0,0,0,2,7]) :: List.replicate 11 .pass

theorem short_chunk_safe : ∃ moves s,
    Run (Session.Step fun _ => some fun _ => 0xAA) (Session.start true) moves s ∧
      moves.map Move.action = shortChunk ∧ Safe s.conn := by
  obtain ⟨moves,s,_,run,actions⟩ := Run.of_executes
    (Session.advance fun _ => some fun _ => 0xAA) (Session.start true) shortChunk (by decide +kernel)
  exact ⟨moves,s,run,actions,(parser_safe run).1⟩

end Libcplus.Ipc
