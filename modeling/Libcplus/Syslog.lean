import Mathlib.Data.Finset.Range
import Libcplus.BlockPool
import Libcplus.History
import Libcplus.Transition

namespace Libcplus
open Transition BlockPool

abbrev Text := List Char

-- The fields of cplus_systime that a message or a file name shows.
structure Systime where
  year : Nat
  month : Nat
  day_of_month : Nat
  hours : Nat
  minutes : Nat
  second : Nat
  millisecond : Nat
  microsecond : Nat
  deriving DecidableEq

-- CPLUS_DEBUG_LEVEL, less CPLUS_SYSLOG_LEVEL_NONE: no call prints with it.
inductive DebugLevel where
  | fatal
  | error
  | warn
  | info
  | debug
  | trace
  deriving DecidableEq

-- An element of message_list: its node, its block of message_buffer_pool and the
-- text in that block.
structure Message where
  node : Nat
  block : Nat
  text : Text
  deriving DecidableEq

-- struct syslog, with the live blocks of the two pools, whether the worker still
-- runs, and the writes to disk so far, each with the path of its file.
structure Syslog where
  debug_level : Int
  logger_level : Int
  program_name : Text
  file_folder_path : Text
  message_buffer_pool : Finset Nat
  node_pool : Finset Nat
  -- The front is the head.
  message_list : List Message
  message_logger_wroker : Bool
  written : List (Text × Text)
  deleted : Bool
  deriving DecidableEq

namespace Syslog

def MAX_MESSAGE_BUFFER_SIZE : Nat := 1023
def MAX_MESSAGE_COUNT : Nat := 512
def CPLUS_SYSLOG_LEVEL_NONE : Int := 0

def DEFAULT_FILE_STORE_LOCATION : Text := "/tmp/log".toList

def value : DebugLevel → Int
  | .fatal => 1
  | .error => 2
  | .warn => 3
  | .info => 4
  | .debug => 5
  | .trace => 6

def debug_level_strings : DebugLevel → Text
  | .fatal => "FATAL".toList
  | .error => "ERROR".toList
  | .warn => "WARN ".toList
  | .info => "INFO ".toList
  | .debug => "DEBUG".toList
  | .trace => "TRACE".toList

def month_strings : List Text :=
  ["Jan","Feb","Mar","Apr","May","Jun","Jul","Aug","Sep","Oct","Nov","Dec"].map String.toList

-- %0<width>d
def digits (width n : Nat) : Text := (Nat.toDigits 10 n).leftpad width '0'

-- What vsnprintf leaves of a text in a buffer of this size.
def printed (size : Nat) (text : Text) : Text := text.take (size - 1)

-- LOG_TIMESTAMP_FORMAT
def timestamp (stime : Systime) (debug_lev : DebugLevel) : Text :=
  month_strings.getD (stime.month - 1) [] ++ [' '] ++ digits 2 stime.day_of_month ++ [' '] ++
    digits 2 stime.hours ++ [':'] ++ digits 2 stime.minutes ++ [':'] ++ digits 2 stime.second ++ ['.'] ++
    digits 3 stime.millisecond ++ digits 3 stime.microsecond ++ [' '] ++ debug_level_strings debug_lev ++ [' ']

def file_path (s : Syslog) (stime : Systime) : Text :=
  s.file_folder_path ++ ['/'] ++ s.program_name ++ ['_'] ++ digits 2 stime.month ++
    digits 2 stime.day_of_month ++ digits 4 stime.year ++ ".log".toList

-- The worker is only made for a file.
def syslog_initialize_object (debug_level logger_level : Int) (program_name : Text) : Syslog where
  debug_level := debug_level
  logger_level := logger_level
  program_name := program_name
  file_folder_path := DEFAULT_FILE_STORE_LOCATION
  message_buffer_pool := ∅
  node_pool := ∅
  message_list := []
  message_logger_wroker := CPLUS_SYSLOG_LEVEL_NONE ≠ logger_level
  written := []
  deleted := false

abbrev blocks : Finset Nat := Finset.range MAX_MESSAGE_COUNT

-- The block of the message stays live when the list refuses it.
def cplus_llist_push_front (s : Syslog) (node : Option Nat) (msg_buf : Nat) (text : Text) : Option Syslog :=
  if Grants blocks s.node_pool node then
    match node with
    | some node => some {s with
        node_pool := insert node s.node_pool
        message_list := ⟨node,msg_buf,text⟩ :: s.message_list}
    | none => some s
  else none

def syslog_logger_print (s : Syslog) (debug_lev : DebugLevel) (msg : Text) (stime : Systime)
    (msg_buf node : Option Nat) : Option Syslog :=
  if MAX_MESSAGE_COUNT > s.message_list.length then
    if Grants blocks s.message_buffer_pool msg_buf then
      match msg_buf with
      | some msg_buf =>
        let stamp := printed MAX_MESSAGE_BUFFER_SIZE (timestamp stime debug_lev)
        let rest := printed (MAX_MESSAGE_BUFFER_SIZE - (timestamp stime debug_lev).length) msg
        cplus_llist_push_front {s with message_buffer_pool := insert msg_buf s.message_buffer_pool} node
          msg_buf (stamp ++ rest)
      | none => some s
    else none
  else some s

-- The section of DEBUG_PRINT, for the text that the format and its arguments give,
-- with the answers of the two pools. What goes to stdout is left out.
def debug_print (s : Syslog) (debug_lev : DebugLevel) (text : Text) (stime : Systime)
    (scratch msg_buf node : Option Nat) : Option Syslog :=
  if CPLUS_SYSLOG_LEVEL_NONE = s.debug_level ∧ CPLUS_SYSLOG_LEVEL_NONE = s.logger_level then some s
  else if value debug_lev ≤ s.logger_level then
    if Grants blocks s.message_buffer_pool scratch then
      match scratch with
      | some scratch =>
        (syslog_logger_print {s with message_buffer_pool := insert scratch s.message_buffer_pool} debug_lev
          (printed MAX_MESSAGE_BUFFER_SIZE text) stime msg_buf node).map fun (after : Syslog) =>
            {after with message_buffer_pool := after.message_buffer_pool.erase scratch}
      | none => some s
    else none
  else some s

-- The two writes for a message. Its text starts with the time, so it is not empty.
def line (text : Text) : Text := if '\n' ≠ text.getLastD '\n' then text ++ ['\n'] else text

-- The loop of pop_back; there are as many iterations as messages.
def write_messages (path : Text) : Nat → Syslog → Syslog
  | 0,s => s
  | fuel + 1,s =>
    match s.message_list.getLast? with
    | none => s
    | some m => write_messages path fuel {s with
        node_pool := s.node_pool.erase m.node
        message_list := s.message_list.dropLast
        written := s.written ++ [(path,line m.text)]
        message_buffer_pool := s.message_buffer_pool.erase m.block}

-- The file opens and its writes succeed.
def custom_logger_executer (s : Syslog) (stime : Systime) : Syslog :=
  if 0 < s.message_list.length then write_messages (s.file_path stime) s.message_list.length s else s

inductive Action where
  | print (debug_lev : DebugLevel) (text : Text) (stime : Systime) (scratch msg_buf node : Option Nat)
  | execute (stime : Systime)
  | stop
  | delete
  deriving DecidableEq

-- A writer's section and the worker's are one step each. The delete first stops the
-- worker, which is then joined or cancelled between two sections, and frees the pool
-- and the list after that.
def advance (s : Syslog) : Action → Option Syslog
  | .print debug_lev text stime scratch msg_buf node =>
    if s.deleted then none else s.debug_print debug_lev text stime scratch msg_buf node
  | .execute stime => if s.message_logger_wroker then some (s.custom_logger_executer stime) else none
  | .stop => if s.message_logger_wroker then some {s with message_logger_wroker := false} else none
  | .delete =>
    if s.message_logger_wroker || s.deleted then none
    else some {s with
      message_buffer_pool := ∅
      node_pool := ∅
      message_list := []
      deleted := true}

abbrev Step : Syslog → Action → Syslog → Prop := Follows advance

-- The text that a print has pushed, which is then at the front.
def pushed (m : Move Syslog Action) : Option Text :=
  match m.action with
  | .print .. =>
    if m.before.message_list.length < m.after.message_list.length then
      m.after.message_list.head?.map Message.text
    else none
  | _ => none

def pushes (moves : List (Move Syslog Action)) : List Text := moves.filterMap pushed

-- The worker has been through its section.
def drains (m : Move Syslog Action) : Bool :=
  match m.action with
  | .execute _ => true
  | _ => false

abbrev pushing (m : Move Syslog Action) : Bool := (pushed m).isSome

-- The live blocks of the message pool are the elements of the list, each once.
structure Accounted (s : Syslog) : Prop where
  nodup : (s.message_list.map Message.block).Nodup
  live : s.message_buffer_pool = (s.message_list.map Message.block).toFinset

-- All that was pushed is on disk, once, and in the order of the pushes.
def Complete (moves : List (Move Syslog Action)) (s : Syslog) : Prop :=
  s.written.map Prod.snd = (pushes moves).map line

instance (moves : List (Move Syslog Action)) (s : Syslog) : Decidable (Complete moves s) :=
  inferInstanceAs (Decidable (_ = _))

structure Accounts (s : Syslog) : Prop where
  messages : Balanced blocks s.message_buffer_pool (s.message_list.map Message.block)
  nodes : Balanced blocks s.node_pool (s.message_list.map Message.node)

-- The lines the worker would write now.
def pending (s : Syslog) : List Text := s.message_list.reverse.map (line ∘ Message.text)

variable {s after : Syslog} {moves : List (Move Syslog Action)} {m : Message} {action : Action}
  {debug_lev : DebugLevel} {text path : Text} {stime : Systime} {scratch msg_buf node : Option Nat}

theorem Accounts.accounted (accounts : Accounts s) : Accounted s :=
  ⟨accounts.messages.nodup,accounts.messages.same⟩

-- What a print leaves as it was.
structure Keeps (s after : Syslog) : Prop where
  written : after.written = s.written
  deleted : after.deleted = s.deleted
  wroker : after.message_logger_wroker = s.message_logger_wroker

-- A block for a message comes with a node for it.
theorem push_front_parts {b : Nat} (nodes : Balanced blocks s.node_pool (s.message_list.map Message.node))
    (room : s.message_list.length < MAX_MESSAGE_COUNT)
    (pushed : s.cplus_llist_push_front node b text = some after) :
    Keeps s after ∧ after.message_buffer_pool = s.message_buffer_pool ∧
      Balanced blocks after.node_pool (after.message_list.map Message.node) ∧
      ∃ n, after.message_list = ⟨n,b,text⟩ :: s.message_list := by
  unfold cplus_llist_push_front at pushed
  split at pushed
  · rename_i granted
    cases node with
    | some n =>
      cases pushed
      exact ⟨⟨rfl,rfl,rfl⟩,rfl,nodes.alloc granted,n,rfl⟩
    | none =>
      have full := nodes.refused granted
      rw [List.length_map,Finset.card_range] at full
      omega
  · cases pushed

theorem logger_print_parts {held : Nat}
    (messages : Balanced blocks s.message_buffer_pool (held :: s.message_list.map Message.block))
    (nodes : Balanced blocks s.node_pool (s.message_list.map Message.node))
    (printed : s.syslog_logger_print debug_lev text stime msg_buf node = some after) :
    Keeps s after ∧ Balanced blocks after.message_buffer_pool (held :: after.message_list.map Message.block) ∧
      Balanced blocks after.node_pool (after.message_list.map Message.node) ∧
      (after.message_list = s.message_list ∨ ∃ m, after.message_list = m :: s.message_list) := by
  unfold syslog_logger_print at printed
  split at printed
  · rename_i room
    split at printed
    · rename_i granted
      cases msg_buf with
      | some b =>
        obtain ⟨keeps,pool,after_nodes,n,front⟩ := push_front_parts
          (s := {s with message_buffer_pool := insert b s.message_buffer_pool}) nodes room printed
        refine ⟨⟨keeps.written,keeps.deleted,keeps.wroker⟩,?_,after_nodes,.inr ⟨_,front⟩⟩
        rw [pool,front,List.map_cons]
        apply (messages.alloc granted).perm
        exact List.Perm.swap _ _ _
      | none =>
        cases printed
        exact ⟨⟨rfl,rfl,rfl⟩,messages,nodes,.inl rfl⟩
    · cases printed
  · cases printed
    exact ⟨⟨rfl,rfl,rfl⟩,messages,nodes,.inl rfl⟩

theorem debug_print_parts (accounts : Accounts s)
    (printed : s.debug_print debug_lev text stime scratch msg_buf node = some after) :
    Keeps s after ∧ Accounts after ∧
      (after.message_list = s.message_list ∨ ∃ m, after.message_list = m :: s.message_list) := by
  unfold debug_print at printed
  split at printed
  · cases printed
    exact ⟨⟨rfl,rfl,rfl⟩,accounts,.inl rfl⟩
  · split at printed
    · split at printed
      · rename_i granted
        cases scratch with
        | some b =>
          obtain ⟨inner,logged,rfl⟩ := Option.map_eq_some_iff.mp printed
          have messages := accounts.messages.alloc granted
          obtain ⟨keeps,held,nodes,grown⟩ := logger_print_parts
            (s := {s with message_buffer_pool := insert b s.message_buffer_pool}) messages accounts.nodes logged
          exact ⟨⟨keeps.written,keeps.deleted,keeps.wroker⟩,⟨held.free,nodes⟩,grown⟩
        | none =>
          cases printed
          exact ⟨⟨rfl,rfl,rfl⟩,accounts,.inl rfl⟩
      · cases printed
    · cases printed
      exact ⟨⟨rfl,rfl,rfl⟩,accounts,.inl rfl⟩

-- The loop ends with the list empty, by induction on its length.
theorem write_messages_spec (path : Text) (fuel : Nat) (accounts : Accounts s)
    (size : s.message_list.length = fuel) :
    Accounts (write_messages path fuel s) ∧ (write_messages path fuel s).message_list = [] ∧
      (write_messages path fuel s).written.map Prod.snd = s.written.map Prod.snd ++ s.pending ∧
      (write_messages path fuel s).deleted = s.deleted ∧
      (write_messages path fuel s).message_logger_wroker = s.message_logger_wroker := by
  induction fuel generalizing s with
  | zero =>
    have empty := List.length_eq_zero_iff.mp size
    refine ⟨accounts,empty,?_,rfl,rfl⟩
    simp [pending,empty,write_messages]
  | succ fuel ih =>
    rcases List.eq_nil_or_concat s.message_list with empty | ⟨front,m,split⟩
    · simp [empty] at size
    · rw [List.concat_eq_append] at split
      have last : s.message_list.getLast? = some m := by rw [split,List.getLast?_concat]
      have rest : s.message_list.dropLast = front := by rw [split,List.dropLast_concat]
      have messages := accounts.messages
      have nodes := accounts.nodes
      rw [split,List.map_append,List.map_cons,List.map_nil] at messages nodes
      have freed_messages := messages.free_between
      have freed_nodes := nodes.free_between
      rw [List.append_nil] at freed_messages freed_nodes
      have shorter : front.length = fuel := by
        rw [split,List.length_append,List.length_singleton] at size
        omega
      unfold write_messages
      rw [last]
      simp only [rest]
      obtain ⟨accounts,empty,written,deleted,wroker⟩ := ih (s := {s with
        node_pool := s.node_pool.erase m.node
        message_list := front
        written := s.written ++ [(path,line m.text)]
        message_buffer_pool := s.message_buffer_pool.erase m.block}) ⟨freed_messages,freed_nodes⟩ shorter
      refine ⟨accounts,empty,?_,deleted,wroker⟩
      rw [written]
      simp [pending,split]

theorem executer_spec (stime : Systime) (accounts : Accounts s) :
    Accounts (s.custom_logger_executer stime) ∧ (s.custom_logger_executer stime).message_list = [] ∧
      (s.custom_logger_executer stime).written.map Prod.snd = s.written.map Prod.snd ++ s.pending ∧
      (s.custom_logger_executer stime).deleted = s.deleted ∧
      (s.custom_logger_executer stime).message_logger_wroker = s.message_logger_wroker := by
  unfold custom_logger_executer
  split
  · exact write_messages_spec _ _ accounts rfl
  · rename_i none
    have empty : s.message_list = [] := by
      apply List.length_eq_zero_iff.mp
      omega
    refine ⟨accounts,empty,?_,rfl,rfl⟩
    simp [pending,empty]

-- Before the delete, what is pushed is on disk or pending, and nothing is pending when
-- the worker has run since the last push. The delete drops what is pending.
structure Records (moves : List (Move Syslog Action)) (s : Syslog) : Prop where
  accounts : Accounts s
  ended : s.deleted = true → s.message_logger_wroker = false
  order : s.deleted = false → s.written.map Prod.snd ++ s.pending = (pushes moves).map line
  drained : s.deleted = false → (s.message_list = [] ↔ History.Since True drains pushing moves)
  complete : s.deleted = true → (Complete moves s ↔ History.Since True drains pushing moves)

theorem pushes_snoc {m : Move Syslog Action} : pushes (moves ++ [m]) = pushes moves ++ (pushed m).toList := by
  unfold pushes
  rw [List.filterMap_append]
  cases found : pushed m <;> simp [found]

theorem print_keeps (records : Records moves s)
    (taken : Step s (.print debug_lev text stime scratch msg_buf node) after) :
    Records (moves ++ [⟨s,.print debug_lev text stime scratch msg_buf node,after⟩]) after := by
  simp only [Step,Follows,advance] at taken
  split at taken
  · cases taken
  · rename_i open_
    have live : s.deleted = false := by simpa using open_
    obtain ⟨keeps,accounts,same | ⟨m,front⟩⟩ := debug_print_parts records.accounts taken
    · have quiet : pushed ⟨s,.print debug_lev text stime scratch msg_buf node,after⟩ = none := by
        simp [pushed,same]
      refine ⟨accounts,?_,?_,?_,?_⟩
      · intro gone
        simp [keeps.deleted,live] at gone
      · intro _
        rw [pushes_snoc,quiet]
        simpa [pending,same,keeps.written] using records.order live
      · intro _
        rw [History.since_snoc,same]
        simpa [drains,pushing,quiet] using records.drained live
      · intro gone
        simp [keeps.deleted,live] at gone
    · have loud : pushed ⟨s,.print debug_lev text stime scratch msg_buf node,after⟩ = some m.text := by
        simp [pushed,front]
      refine ⟨accounts,?_,?_,?_,?_⟩
      · intro gone
        simp [keeps.deleted,live] at gone
      · intro _
        have order := records.order live
        rw [pushes_snoc,loud,keeps.written]
        simp only [pending,front,List.reverse_cons,List.map_append,Option.toList,← order]
        simp
      · intro _
        rw [History.since_snoc,front]
        simp [drains,pushing,loud]
      · intro gone
        simp [keeps.deleted,live] at gone

theorem execute_keeps (records : Records moves s) (taken : Step s (.execute stime) after) :
    Records (moves ++ [⟨s,.execute stime,after⟩]) after := by
  simp only [Step,Follows,advance] at taken
  split at taken
  · rename_i running
    cases taken
    obtain ⟨accounts,empty,written,deleted,wroker⟩ := executer_spec stime records.accounts
    have live : s.deleted = false := by
      by_contra gone
      have ended := records.ended (by simpa using gone)
      simp [running] at ended
    refine ⟨accounts,?_,?_,?_,?_⟩
    · intro gone
      simp [deleted,live] at gone
    · intro _
      have order := records.order live
      rw [pushes_snoc,written,order]
      simp [pending,empty,pushed]
    · intro _
      rw [History.since_snoc]
      simp [empty,drains]
    · intro gone
      simp [deleted,live] at gone
  · cases taken

theorem stop_keeps (records : Records moves s) (taken : Step s .stop after) :
    Records (moves ++ [⟨s,.stop,after⟩]) after := by
  simp only [Step,Follows,advance] at taken
  split at taken
  · cases taken
    have same : pushes (moves ++ [⟨s,.stop,{s with message_logger_wroker := false}⟩]) = pushes moves := by
      simp [pushes_snoc,pushed]
    refine ⟨⟨records.accounts.messages,records.accounts.nodes⟩,fun _ => rfl,?_,?_,?_⟩
    · intro live
      rw [same]
      exact records.order live
    · intro live
      rw [History.since_snoc]
      simpa [drains,pushing,pushed] using records.drained live
    · intro gone
      have complete := records.complete gone
      unfold Complete at *
      rw [History.since_snoc,same]
      simpa [drains,pushing,pushed] using complete
  · cases taken

theorem delete_keeps (records : Records moves s) (taken : Step s .delete after) :
    Records (moves ++ [⟨s,.delete,after⟩]) after := by
  simp only [Step,Follows,advance] at taken
  split at taken
  · cases taken
  · rename_i open_
    cases taken
    obtain ⟨stopped,live⟩ : s.message_logger_wroker = false ∧ s.deleted = false := by simpa using open_
    refine ⟨⟨balanced_nil,balanced_nil⟩,fun _ => stopped,nofun,nofun,?_⟩
    intro _
    have none_pending : s.pending = [] ↔ s.message_list = [] := by simp [pending]
    have order := records.order live
    unfold Complete
    rw [History.since_snoc,pushes_snoc]
    simp only [drains,pushing,pushed,Option.toList,List.append_nil,Option.isSome_none,
      Bool.false_eq_true,false_or,true_and]
    rw [← records.drained live,← none_pending,← order]
    exact List.self_eq_append_right

theorem step_keeps (records : Records moves s) (taken : Step s action after) :
    Records (moves ++ [⟨s,action,after⟩]) after := by
  cases action with
  | print debug_lev text stime scratch msg_buf node => exact print_keeps records taken
  | execute stime => exact execute_keeps records taken
  | stop => exact stop_keeps records taken
  | delete => exact delete_keeps records taken

theorem initialize_records (debug_level logger_level : Int) (program_name : Text) :
    Records [] (syslog_initialize_object debug_level logger_level program_name) where
  accounts := ⟨balanced_nil,balanced_nil⟩
  ended gone := by simp [syslog_initialize_object] at gone
  order _ := rfl
  drained _ := iff_of_true rfl (History.since_nil trivial)
  complete gone := by simp [syslog_initialize_object] at gone

theorem run_records {debug_level logger_level : Int} {program_name : Text}
    (run : Run Step (syslog_initialize_object debug_level logger_level program_name) moves s) :
    Records moves s ∧ Throughout Accounted moves := by
  induction run with
  | nil => exact ⟨initialize_records _ _ _,throughout_nil⟩
  | snoc _ taken ih =>
    obtain ⟨records,all⟩ := ih
    have next := step_keeps records taken
    exact ⟨next,throughout_snoc.mpr ⟨all,next.accounts.accounted⟩⟩

theorem complete_exact {debug_level logger_level : Int} {program_name : Text}
    (run : Run Step (syslog_initialize_object debug_level logger_level program_name) moves s) :
    (Accounted s ∧ Throughout Accounted moves) ∧
      (s.deleted = true → (Complete moves s ↔ History.Since True drains pushing moves)) := by
  obtain ⟨records,all⟩ := run_records run
  exact ⟨⟨records.accounts.accounted,all⟩,records.complete⟩

-- Noon of the first of May, and two messages; the worker runs between them, or also
-- after the second.
def noon : Systime := ⟨2024,5,1,12,0,0,0,0⟩

def first_message : Action := .print .error "first".toList noon (some 0) (some 1) (some 0)
def second_message : Action := .print .trace "second\n".toList noon (some 2) (some 3) (some 4)

def drained_twice : List Action :=
  [first_message,.execute noon,second_message,.execute noon,.stop,.delete]

def drained_once : List Action := [first_message,.execute noon,second_message,.stop,.delete]

theorem drained_twice_complete : ∃ moves s,
    Run Step (syslog_initialize_object 4 6 "device".toList) moves s ∧ moves.map Move.action = drained_twice ∧
      s.deleted = true ∧ Accounted s ∧ Complete moves s ∧ History.Since True drains pushing moves := by
  obtain ⟨moves,s,run,same,checked⟩ := Run.of_check advance (syslog_initialize_object 4 6 "device".toList)
    drained_twice (fun result => result.2.deleted && decide (Complete result.1 result.2)) (by decide +kernel)
  obtain ⟨gone,complete⟩ : s.deleted = true ∧ Complete moves s := by simpa using checked
  obtain ⟨⟨accounted,_⟩,exact_when⟩ := complete_exact run
  exact ⟨moves,s,run,same,gone,accounted,complete,(exact_when gone).mp complete⟩

-- The delete does not look at the list.
theorem drained_once_incomplete : ¬ ∀ moves s,
    Run Step (syslog_initialize_object 4 6 "device".toList) moves s → s.deleted = true → Complete moves s := by
  intro all
  obtain ⟨moves,s,run,_,checked⟩ := Run.of_check advance (syslog_initialize_object 4 6 "device".toList)
    drained_once (fun result => result.2.deleted && !decide (Complete result.1 result.2)) (by decide +kernel)
  obtain ⟨gone,incomplete⟩ : s.deleted = true ∧ ¬ Complete moves s := by simpa using checked
  exact incomplete (all moves s run gone)

end Syslog
end Libcplus
