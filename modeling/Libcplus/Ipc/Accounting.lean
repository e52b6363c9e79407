import Libcplus.Ipc.Server
import Libcplus.Sequence

namespace Libcplus.Ipc.Server
open Transition BlockPool

-- Between the check of the size and the push.
def AcceptTask.expects : AcceptTask → Bool
  | .accepting | .holding _ | .creating _ | .starting _ | .pushing _ => true
  | _ => false

def AcceptTask.inside : AcceptTask → Bool
  | .purging | .releasing _ _ true => true
  | _ => false

-- The connection in its hands has no task.
def AcceptTask.stopped : AcceptTask → List Nat
  | .creating conn | .releasing conn _ false => [conn]
  | .releasing conn .closing true | .releasing conn .freeing true => [conn]
  | _ => []

structure Ledger (s : Server) : Prop where
  pool : Balanced s.blocks s.ipc_conn_pool s.conns
  nodes : Balanced s.blocks s.node_pool (s.ipc_conn_list.map Node.node)
  count : s.free_blocks_count + s.conns.length = s.max_conn
  returns : (s.returned ++ s.conns).Perm s.taken
  closes : (s.closed ++ s.socks).Perm (List.range s.opened)

structure Control (s : Server) : Prop where
  phase : (s.deleter = .idle ∨ s.deleter = .stopping) ∨
    (s.accept_task = .ended ∧ (s.deleter = .popping ∨ (s.deleter = .done ∧ s.ipc_conn_list = [])))
  room : s.accept_task.expects = true → s.ipc_conn_list.length < s.max_conn
  held : s.accept_task.inside = true → s.ipc_conn_sect = some .accept_task
  sections : ∀ b c, (s.conn b).conn_task = some c → c.inside = true → s.ipc_conn_sect = some (.conn_task b)
  stopped : ∀ b ∈ s.accept_task.stopped, (s.conn b).conn_task = none
  tasks : ∀ b, (s.conn b).conn_task ≠ none → b ∈ s.conns

variable {s t : Server} {b : Nat} {c : Connection} {task : AcceptTask} {sect : Option Owner}
  {ok : Bool} {answer : Option Nat} {action : Action}

theorem Control.early (control : Control s) (running : s.accept_task ≠ .ended) :
    s.deleter = .idle ∨ s.deleter = .stopping := by
  rcases control.phase with early | ⟨ended,_⟩
  · exact early
  · exact absurd ended running

theorem Control.quiet (control : Control s) : s.deleter.conns = [] ∧ s.deleter.unclosed = [] := by
  rcases control.phase with (at_ | at_) | ⟨_,at_ | ⟨at_,_⟩⟩ <;> simp [at_,Deleter.conns,Deleter.unclosed]

theorem Control.conns_eq (control : Control s) :
    s.conns = s.accept_task.conns ++ s.ipc_conn_list.map Node.conn := by
  rw [conns,control.quiet.1,List.append_nil]

theorem Control.unclosed_eq (control : Control s) :
    s.unclosed = s.accept_task.unclosed ++ s.ipc_conn_list.map Node.conn := by
  rw [unclosed,control.quiet.2,List.append_nil]

theorem unclosed_sublist : s.unclosed.Sublist s.conns := by
  have accept : s.accept_task.unclosed.Sublist s.accept_task.conns := by
    unfold AcceptTask.unclosed
    split
    · exact List.nil_sublist _
    · exact List.Sublist.refl _
  have delete : s.deleter.unclosed.Sublist s.deleter.conns := by
    unfold Deleter.unclosed
    split
    · exact List.nil_sublist _
    · exact List.Sublist.refl _
  exact (accept.append delete).append (List.Sublist.refl _)

@[simp] theorem set_unclosed : (s.set b c).unclosed = s.unclosed := rfl

theorem set_conn_self : (s.set b c).conn b = c := Function.update_self _ _ _

theorem set_conn_other {d : Nat} (other : d ≠ b) : (s.set b c).conn d = s.conn d :=
  Function.update_of_ne other _ _

theorem set_socks (same : c.owned = (s.conn b).owned) : (s.set b c).socks = s.socks := by
  unfold socks
  rw [set_unclosed]
  congr 1
  apply List.flatMap_congr
  intro d _
  by_cases here : d = b
  · rw [here,set_conn_self,same]
  · rw [set_conn_other here]

theorem Ledger.set (ledger : Ledger s) (same : c.owned = (s.conn b).owned) : Ledger (s.set b c) where
  pool := ledger.pool
  nodes := ledger.nodes
  count := ledger.count
  returns := ledger.returns
  closes := by
    rw [set_socks same]
    exact ledger.closes

-- Nothing is taken or given: only the sockets move.
theorem Ledger.sockets_move (ledger : Ledger s) (pools : (t.blocks,t.ipc_conn_pool,t.node_pool) =
      (s.blocks,s.ipc_conn_pool,s.node_pool))
    (counts : (t.free_blocks_count,t.max_conn) = (s.free_blocks_count,s.max_conn))
    (record : (t.taken,t.returned) = (s.taken,s.returned)) (listed : t.ipc_conn_list = s.ipc_conn_list)
    (conns : t.conns = s.conns) (closes : (t.closed ++ t.socks).Perm (List.range t.opened)) : Ledger t := by
  simp only [Prod.mk.injEq] at pools counts record
  obtain ⟨blocks,conn_pool,node_pool⟩ := pools
  refine ⟨?_,?_,?_,?_,closes⟩
  · rw [blocks,conn_pool,conns]
    exact ledger.pool
  · rw [blocks,node_pool,listed]
    exact ledger.nodes
  · rw [counts.1,counts.2,conns]
    exact ledger.count
  · rw [record.1,record.2,conns]
    exact ledger.returns

-- Connections that only change hands.
theorem Ledger.passed {ipc_conn_list : List Node} {node_pool : Finset Nat} (ledger : Ledger s)
    (nodes : Balanced s.blocks node_pool (ipc_conn_list.map Node.node))
    (conns : s.conns.Perm (task.conns ++ s.deleter.conns ++ ipc_conn_list.map Node.conn))
    (unclosed : s.unclosed.Perm (task.unclosed ++ s.deleter.unclosed ++ ipc_conn_list.map Node.conn))
    (socks : task.socks = s.accept_task.socks) :
    Ledger {s with
      ipc_conn_sect := sect
      ipc_conn_list := ipc_conn_list
      node_pool := node_pool
      accept_task := task} where
  pool := ledger.pool.perm conns
  nodes := nodes
  count := by
    rw [← ledger.count,conns.length_eq]
    rfl
  returns := (conns.symm.append_left _).trans ledger.returns
  closes := by
    apply List.Perm.trans _ ledger.closes
    apply List.Perm.append_left
    simp only [Server.socks,socks]
    exact (unclosed.symm.flatMap_right _).append_left _

-- A step of the accept task that takes and gives nothing.
theorem Ledger.moved (ledger : Ledger s) (conns : task.conns = s.accept_task.conns)
    (unclosed : task.unclosed = s.accept_task.unclosed) (socks : task.socks = s.accept_task.socks) :
    Ledger {s with ipc_conn_sect := sect,accept_task := task} :=
  ledger.passed ledger.nodes (by rw [conns]; exact List.Perm.refl _) (by rw [unclosed]; exact List.Perm.refl _) socks

theorem Control.moved (control : Control s) (early : s.deleter = .idle ∨ s.deleter = .stopping)
    (room : task.expects = true → s.ipc_conn_list.length < s.max_conn)
    (held : task.inside = true → sect = some .accept_task)
    (sections : ∀ b c, (s.conn b).conn_task = some c → c.inside = true → sect = some (.conn_task b))
    (stopped : ∀ b ∈ task.stopped, (s.conn b).conn_task = none)
    (conns : task.conns = s.accept_task.conns) :
    Control {s with ipc_conn_sect := sect,accept_task := task} where
  phase := .inl early
  room := room
  held := held
  sections := sections
  stopped := stopped
  tasks b running := by
    have member := control.tasks b running
    simp only [Server.conns,conns] at member ⊢
    exact member

-- A step of a connection's own task.
theorem Control.run {closed : List Nat} (control : Control s) (running : (s.conn b).conn_task ≠ none)
    (held : s.accept_task.inside = true → sect = some .accept_task)
    (own : ∀ stage, c.conn_task = some stage → stage.inside = true → sect = some (.conn_task b))
    (others : ∀ d stage, d ≠ b → (s.conn d).conn_task = some stage → stage.inside = true →
      sect = some (.conn_task d)) :
    Control {s with conn := Function.update s.conn b c,ipc_conn_sect := sect,closed := closed} where
  phase := control.phase
  room := control.room
  held := held
  sections d stage task inside := by
    by_cases here : d = b
    · subst here
      simp only [Function.update_self] at task
      exact own stage task inside
    · simp only [Function.update_of_ne here] at task
      exact others d stage here task inside
  stopped d member := by
    have idle := control.stopped d member
    have apart : d ≠ b := fun equal => running (equal ▸ idle)
    simp only [Function.update_of_ne apart]
    exact idle
  tasks d runs := by
    by_cases here : d = b
    · rw [here]
      exact control.tasks b running
    · simp only [Function.update_of_ne here] at runs
      exact control.tasks d runs

-- A task stopped halfway has left its connection's socket to others.
theorem Control.unclosed (control : Control s) (running : (s.conn b).conn_task ≠ none) : b ∈ s.unclosed := by
  have member := control.tasks b running
  rw [control.conns_eq] at member
  rw [control.unclosed_eq]
  rcases List.mem_append.mp member with hands | listed
  · have same : s.accept_task.unclosed = s.accept_task.conns := by
      unfold AcceptTask.unclosed
      split
      · rename_i conn purge at_
        rw [at_] at hands
        obtain rfl := List.mem_singleton.mp hands
        have idle := control.stopped b (by rw [at_]; cases purge <;> exact List.mem_singleton_self b)
        exact absurd idle running
      · rfl
    rw [same]
    exact List.mem_append_left _ hands
  · exact List.mem_append_right _ listed

theorem regroup (given kept left rest : List Nat) :
    ((given ++ kept) ++ (left ++ rest)).Perm (kept ++ (left ++ (given ++ rest))) := by
  rw [List.append_assoc]
  apply (List.perm_append_comm_assoc given kept _).trans
  exact (List.perm_append_comm_assoc given left rest).append_left kept

theorem Ledger.close (ledger : Ledger s) (control : Control s) (at_ : (s.conn b).conn_task = some .closing) :
    Ledger ((s.cplus_socket_delete (s.conn b).sock).set b {s.conn b with conn_task := some .clearing}) where
  pool := ledger.pool
  nodes := ledger.nodes
  count := ledger.count
  returns := ledger.returns
  closes := by
    have member : b ∈ s.unclosed := control.unclosed (by simp [at_])
    have nodup : s.unclosed.Nodup := ledger.pool.nodup.sublist unclosed_sublist
    have given : ((s.conn b).sock.toList ++
        ((s.set b {s.conn b with conn_task := some .clearing}).conn b).owned.toList).Perm
        (s.conn b).owned.toList := by
      simp [set_conn_self,Connection.owned,at_]
    have exchange := gathered_exchange (f := fun conn => (s.conn conn).owned.toList)
      (g := fun conn => ((s.set b {s.conn b with conn_task := some .clearing}).conn conn).owned.toList)
      nodup member given (fun d apart => by rw [set_conn_other apart])
    have moved := (exchange.append_left s.accept_task.socks).append_left s.closed
    apply List.Perm.trans _ (moved.trans ledger.closes)
    exact regroup _ _ _ _

-- A task that stays outside the section.
theorem outside_keeps {stage : ConnTask} (ledger : Ledger s) (control : Control s)
    (running : (s.conn b).conn_task ≠ none) (same : c.owned = (s.conn b).owned)
    (next : c.conn_task = some stage) (outside : stage.inside = false) :
    Ledger (s.set b c) ∧ Control (s.set b c) := by
  refine ⟨ledger.set same,control.run running control.held ?_ fun d stage _ => control.sections d stage⟩
  intro other task inside
  obtain rfl := Option.some.inj (next.symm.trans task)
  simp [outside] at inside

theorem enter_keeps (ledger : Ledger s) (control : Control s) (free : s.ipc_conn_sect = none)
    (at_ : (s.conn b).conn_task = some .disconnecting) :
    Ledger {s.set b {s.conn b with conn_task := some .closing} with ipc_conn_sect := some (.conn_task b)} ∧
      Control {s.set b {s.conn b with conn_task := some .closing} with ipc_conn_sect := some (.conn_task b)} := by
  have set := ledger.set (b := b) (c := {s.conn b with conn_task := some .closing}) (by simp [Connection.owned,at_])
  refine ⟨⟨set.pool,set.nodes,set.count,set.returns,set.closes⟩,control.run (by simp [at_]) ?_ ?_ ?_⟩
  · intro inside
    have taken := control.held inside
    simp [free] at taken
  · intro _ _ _
    rfl
  · intro d stage _ task inside
    have taken := control.sections d stage task inside
    simp [free] at taken

theorem close_keeps (ledger : Ledger s) (control : Control s) (at_ : (s.conn b).conn_task = some .closing) :
    Ledger ((s.cplus_socket_delete (s.conn b).sock).set b {s.conn b with conn_task := some .clearing}) ∧
      Control ((s.cplus_socket_delete (s.conn b).sock).set b {s.conn b with conn_task := some .clearing}) := by
  refine ⟨ledger.close control at_,control.run (by simp [at_]) control.held ?_ ?_⟩
  · intro _ _ _
    exact control.sections b .closing at_ rfl
  · exact fun d stage _ => control.sections d stage

theorem clear_keeps (ledger : Ledger s) (control : Control s) (at_ : (s.conn b).conn_task = some .clearing) :
    Ledger {s.set b ⟨.not_connected,none,some .testing⟩ with ipc_conn_sect := none} ∧
      Control {s.set b ⟨.not_connected,none,some .testing⟩ with ipc_conn_sect := none} := by
  have set := ledger.set (b := b) (c := ⟨.not_connected,none,some .testing⟩) (by simp [Connection.owned,at_])
  have own := control.sections b .clearing at_ rfl
  refine ⟨⟨set.pool,set.nodes,set.count,set.returns,set.closes⟩,control.run (by simp [at_]) ?_ ?_ ?_⟩
  · intro inside
    have taken := control.held inside
    simp [own] at taken
  · intro stage task inside
    obtain rfl := Option.some.inj task
    cases inside
  · intro d stage apart task inside
    have taken := control.sections d stage task inside
    rw [own] at taken
    cases taken
    exact absurd rfl apart

theorem conn_keeps {received : Received} (ledger : Ledger s) (control : Control s)
    (taken : s.ipc_conn_proc b received = some t) : Ledger t ∧ Control t := by
  unfold ipc_conn_proc at taken
  simp only at taken
  split at taken
  · cases taken
  · rename_i at_
    split at taken
    · cases taken
      exact ⟨ledger,control⟩
    · cases taken
      exact outside_keeps ledger control (by simp [at_]) (by simp [Connection.owned,at_]) rfl rfl
  · rename_i at_
    cases received with
    | closed =>
      cases taken
      exact outside_keeps ledger control (by simp [at_]) (by simp [Connection.owned,at_]) rfl rfl
    | error errno =>
      cases taken
      exact outside_keeps ledger control (by simp [at_]) (by simp [Connection.owned,at_]) rfl rfl
    | data bytes =>
      cases taken
      exact outside_keeps ledger control (by simp [at_]) (by simp [Connection.owned,at_]) rfl rfl
  · rename_i at_
    split at taken
    · rename_i free
      cases taken
      exact enter_keeps ledger control free at_
    · cases taken
  · rename_i at_
    cases taken
    exact close_keeps ledger control at_
  · rename_i at_
    cases taken
    exact clear_keeps ledger control at_
  · rename_i errno at_
    split at taken
    · cases taken
      exact outside_keeps ledger control (by simp [at_]) (by simp [Connection.owned,at_]) rfl rfl
    · cases taken

theorem entering_keeps (ledger : Ledger s) (control : Control s) (at_ : s.accept_task = .entering)
    (free : s.ipc_conn_sect = none) :
    Ledger {s with ipc_conn_sect := some .accept_task,accept_task := .purging} ∧
      Control {s with ipc_conn_sect := some .accept_task,accept_task := .purging} := by
  have early := control.early (by simp [at_])
  refine ⟨ledger.moved (by rw [at_]; rfl) (by rw [at_]; rfl) (by rw [at_]; rfl),
    control.moved early nofun (fun _ => rfl) ?_ nofun (by rw [at_]; rfl)⟩
  intro b stage task inside
  have taken := control.sections b stage task inside
  simp [free] at taken

theorem checked_keeps (ledger : Ledger s) (control : Control s) (at_ : s.accept_task = .purging) :
    let task : AcceptTask := if s.ipc_conn_list.length < s.max_conn then .accepting else .entering
    Ledger {s with ipc_conn_sect := none,accept_task := task} ∧
      Control {s with ipc_conn_sect := none,accept_task := task} := by
  intro task
  have early := control.early (by simp [at_])
  have own := control.held (by rw [at_]; rfl)
  have sections : ∀ b c, (s.conn b).conn_task = some c → c.inside = true → none = some (Owner.conn_task b) := by
    intro b stage running inside
    have taken := control.sections b stage running inside
    simp [own] at taken
  by_cases room : s.ipc_conn_list.length < s.max_conn
  · have accepting : task = .accepting := if_pos room
    rw [accepting]
    exact ⟨ledger.moved (by rw [at_]; rfl) (by rw [at_]; rfl) (by rw [at_]; rfl),
      control.moved early (fun _ => room) nofun sections nofun (by rw [at_]; rfl)⟩
  · have entering : task = .entering := if_neg room
    rw [entering]
    exact ⟨ledger.moved (by rw [at_]; rfl) (by rw [at_]; rfl) (by rw [at_]; rfl),
      control.moved early nofun nofun sections nofun (by rw [at_]; rfl)⟩

theorem popped_keeps {n : Node} (ledger : Ledger s) (control : Control s) (at_ : s.accept_task = .purging)
    (found : s.ipc_conn_list.find? s.find_disconnect_conn = some n) :
    Ledger {s with
        ipc_conn_list := s.ipc_conn_list.eraseP s.find_disconnect_conn
        node_pool := s.node_pool.erase n.node
        accept_task := .releasing n.conn .marking true} ∧
      Control {s with
        ipc_conn_list := s.ipc_conn_list.eraseP s.find_disconnect_conn
        node_pool := s.node_pool.erase n.node
        accept_task := .releasing n.conn .marking true} := by
  obtain ⟨accepted,front,rest,split,refused⟩ := List.find?_eq_some_iff_append.mp found
  have left : s.ipc_conn_list.eraseP s.find_disconnect_conn = front ++ rest := by
    rw [split]
    exact Sequence.eraseP_between (fun d member => by simpa using refused d member) accepted
  have early := control.early (by simp [at_])
  have quiet := control.quiet
  have nodes := ledger.nodes
  rw [split,List.map_append,List.map_cons] at nodes
  have conns : s.conns.Perm (AcceptTask.conns (.releasing n.conn .marking true) ++ s.deleter.conns ++
      (front ++ rest).map Node.conn) := by
    rw [control.conns_eq,at_,quiet.1,split]
    simp only [List.map_append,List.map_cons,AcceptTask.conns,List.nil_append,List.append_nil]
    exact List.perm_middle
  rw [left]
  constructor
  · apply ledger.passed (by rw [List.map_append]; exact nodes.free_between) conns _ (by rw [at_]; rfl)
    rw [control.unclosed_eq,at_,quiet.2,split]
    simp only [List.map_append,List.map_cons,AcceptTask.conns,AcceptTask.unclosed,List.nil_append,List.append_nil]
    exact List.perm_middle
  · refine ⟨.inl early,nofun,fun _ => control.held (by rw [at_]; rfl),control.sections,nofun,?_⟩
    intro b running
    exact conns.mem_iff.mp (control.tasks b running)

theorem Control.set (control : Control s)
    (task : c.conn_task = (s.conn b).conn_task ∨ c.conn_task = none) : Control (s.set b c) := by
  have same : ∀ d stage, ((s.set b c).conn d).conn_task = some stage → (s.conn d).conn_task = some stage := by
    intro d stage runs
    by_cases here : d = b
    · rw [here,set_conn_self] at runs
      rcases task with kept | stopped
      · rw [here,← kept,runs]
      · simp [stopped] at runs
    · rwa [set_conn_other here] at runs
  refine ⟨control.phase,control.room,control.held,?_,?_,?_⟩
  · intro d stage runs inside
    exact control.sections d stage (same d stage runs) inside
  · intro d member
    by_contra runs
    obtain ⟨stage,runs⟩ := Option.ne_none_iff_exists'.mp runs
    have idle := control.stopped d member
    simp [same d stage runs] at idle
  · intro d runs
    obtain ⟨stage,runs⟩ := Option.ne_none_iff_exists'.mp runs
    exact control.tasks d (by simp [same d stage runs])

-- The accept task changes its connection, and has it in its hands still.
theorem set_keeps {before : AcceptTask} (ledger : Ledger s) (control : Control s) (at_ : s.accept_task = before)
    (running : before ≠ .ended) (owned : c.owned = (s.conn b).owned)
    (kept : c.conn_task = (s.conn b).conn_task ∨ c.conn_task = none) (conns : task.conns = before.conns)
    (unclosed : task.unclosed = before.unclosed) (socks : task.socks = before.socks)
    (room : task.expects = true → before.expects = true) (held : task.inside = true → before.inside = true)
    (stopped : ∀ d ∈ task.stopped, d ∈ before.stopped ∨ (d = b ∧ c.conn_task = none)) :
    Ledger {s.set b c with accept_task := task} ∧ Control {s.set b c with accept_task := task} := by
  have early := control.early (by rw [at_]; exact running)
  have set := control.set (b := b) (c := c) kept
  have still : (s.set b c).accept_task = before := at_
  constructor
  · apply (ledger.set owned).moved
    · rw [still]
      exact conns
    · rw [still]
      exact unclosed
    · rw [still]
      exact socks
  · apply set.moved early
    · intro expects
      apply set.room
      rw [still]
      exact room expects
    · intro inside
      apply set.held
      rw [still]
      exact held inside
    · exact set.sections
    · intro d member
      rcases stopped d member with earlier | ⟨rfl,none⟩
      · apply set.stopped
        rw [still]
        exact earlier
      · rw [set_conn_self]
        exact none
    · rw [still]
      exact conns

theorem marking_keeps {purge : Bool} (ledger : Ledger s) (control : Control s)
    (at_ : s.accept_task = .releasing b .marking purge) :
    Ledger {s.release b .marking with accept_task := .releasing b .stopping purge} ∧
      Control {s.release b .marking with accept_task := .releasing b .stopping purge} := by
  refine set_keeps (b := b) (c := {s.conn b with status := .not_connected}) ledger control at_ nofun rfl (.inl rfl)
    ?_ ?_ ?_ nofun ?_ ?_
  · rfl
  · rfl
  · rfl
  · intro inside
    cases purge with
    | true => rfl
    | false => cases inside
  · intro d member
    cases purge with
    | true => cases member
    | false => exact .inl member

-- Nobody is in the section to close the socket of a connection that is released.
theorem outside_section {purge : Bool} {stage : Release} (control : Control s)
    (at_ : s.accept_task = .releasing b stage purge) : (s.conn b).conn_task ≠ some .clearing := by
  intro clearing
  cases purge with
  | true =>
    have own := control.sections b .clearing clearing rfl
    rw [control.held (by rw [at_]; rfl)] at own
    cases own
  | false =>
    have idle := control.stopped b (by rw [at_]; exact List.mem_singleton_self b)
    rw [idle] at clearing
    cases clearing

theorem stopping_keeps {purge : Bool} (ledger : Ledger s) (control : Control s)
    (at_ : s.accept_task = .releasing b .stopping purge) :
    Ledger {s.release b .stopping with accept_task := .releasing b .closing purge} ∧
      Control {s.release b .stopping with accept_task := .releasing b .closing purge} := by
  have outside := outside_section control at_
  refine set_keeps (b := b) (c := {s.conn b with conn_task := none}) ledger control at_ nofun ?_ (.inr rfl)
    ?_ ?_ ?_ nofun ?_ ?_
  · simp [Connection.owned,outside]
  · rfl
  · rfl
  · rfl
  · intro inside
    cases purge with
    | true => rfl
    | false => cases inside
  · intro d member
    cases purge with
    | true => exact .inr ⟨List.mem_singleton.mp member,rfl⟩
    | false => exact .inl member

theorem closing_keeps {purge : Bool} (ledger : Ledger s) (control : Control s)
    (at_ : s.accept_task = .releasing b .closing purge) :
    Ledger {s.release b .closing with accept_task := .releasing b .freeing purge} ∧
      Control {s.release b .closing with accept_task := .releasing b .freeing purge} := by
  have early := control.early (by simp [at_])
  have quiet := control.quiet
  have idle := control.stopped b (by rw [at_]; cases purge <;> exact List.mem_singleton_self b)
  have conns : s.conns = Server.conns {s.release b .closing with accept_task := .releasing b .freeing purge} := by
    unfold Server.conns
    rw [at_]
    rfl
  constructor
  · refine ledger.sockets_move rfl rfl rfl rfl conns.symm ?_
    have closes := ledger.closes
    rw [Server.socks,control.unclosed_eq,at_] at closes
    apply List.Perm.trans _ closes
    have owned : (s.conn b).owned = (s.conn b).sock := by simp [Connection.owned,idle]
    simp only [release,cplus_socket_delete,Server.socks,Server.unclosed,quiet.2,AcceptTask.socks,
      AcceptTask.unclosed,AcceptTask.conns,List.nil_append,List.singleton_append,List.flatMap_cons,owned,
      List.append_assoc]
    exact List.perm_append_comm_assoc _ _ _
  · refine ⟨.inl early,nofun,?_,control.sections,?_,?_⟩
    · intro inside
      apply control.held
      rw [at_]
      cases purge with
      | true => rfl
      | false => cases inside
    · intro d member
      obtain rfl : d = b := by cases purge <;> exact List.mem_singleton.mp member
      exact idle
    · intro d running
      rw [← conns]
      exact control.tasks d running

theorem freeing_keeps {purge : Bool} (ledger : Ledger s) (control : Control s)
    (at_ : s.accept_task = .releasing b .freeing purge) :
    let task : AcceptTask := if purge then .purging else .entering
    Ledger {s.release b .freeing with accept_task := task} ∧
      Control {s.release b .freeing with accept_task := task} := by
  intro task
  have early := control.early (by simp [at_])
  have quiet := control.quiet
  have idle := control.stopped b (by rw [at_]; cases purge <;> exact List.mem_singleton_self b)
  have next : task.conns = [] ∧ task.unclosed = [] ∧ task.socks = [] ∧ task.expects = false ∧
      task.stopped = [] ∧ task.inside = purge := by
    cases purge <;> exact ⟨rfl,rfl,rfl,rfl,rfl,rfl⟩
  obtain ⟨next_conns,next_unclosed,next_socks,next_expects,next_stopped,next_inside⟩ := next
  have conns : s.conns = b :: Server.conns {s.release b .freeing with accept_task := task} := by
    rw [control.conns_eq,at_]
    simp only [Server.conns,next_conns,release,cplus_mempool_free,quiet.1,List.nil_append]
    rfl
  have socks : Server.socks {s.release b .freeing with accept_task := task} = s.socks := by
    simp only [Server.socks,Server.unclosed,next_unclosed,next_socks,at_]
    rfl
  constructor
  · have pool := ledger.pool
    have count := ledger.count
    have returns := ledger.returns
    rw [conns] at pool count returns
    refine ⟨pool.free,ledger.nodes,?_,?_,?_⟩
    · rw [List.length_cons] at count
      simp only [release,cplus_mempool_free] at count ⊢
      omega
    · exact List.perm_middle.symm.trans returns
    · rw [socks]
      exact ledger.closes
  · refine ⟨.inl early,?_,?_,control.sections,?_,?_⟩
    · intro expects
      simp [next_expects] at expects
    · intro inside
      apply control.held
      rw [at_]
      rw [next_inside] at inside
      rw [inside]
      rfl
    · intro d member
      simp [next_stopped] at member
    · intro d running
      have member := control.tasks d running
      rw [conns] at member
      rcases List.mem_cons.mp member with rfl | other
      · exact absurd idle running
      · exact other

theorem accepted_keeps (ledger : Ledger s) (control : Control s) (at_ : s.accept_task = .accepting) :
    Ledger {s with opened := s.opened + 1,accept_task := .holding s.opened} ∧
      Control {s with opened := s.opened + 1,accept_task := .holding s.opened} := by
  have early := control.early (by simp [at_])
  have room := control.room (by rw [at_]; rfl)
  have conns : Server.conns {s with opened := s.opened + 1,accept_task := .holding s.opened} = s.conns := by
    unfold Server.conns
    rw [at_]
    rfl
  constructor
  · refine ledger.sockets_move rfl rfl rfl rfl conns ?_
    have closes := ledger.closes
    have socks : Server.socks {s with opened := s.opened + 1,accept_task := .holding s.opened} =
        s.opened :: s.socks := by
      unfold Server.socks Server.unclosed
      rw [at_]
      rfl
    rw [socks,List.range_succ]
    apply List.perm_middle.trans
    exact (closes.cons _).trans (List.perm_append_singleton _ _).symm
  · refine ⟨.inl early,fun _ => room,nofun,control.sections,nofun,?_⟩
    intro d running
    rw [conns]
    exact control.tasks d running

theorem refused_keeps (ledger : Ledger s) (control : Control s) (at_ : s.accept_task = .accepting) :
    Ledger {s with accept_task := .entering} ∧ Control {s with accept_task := .entering} := by
  have early := control.early (by simp [at_])
  exact ⟨ledger.moved (by rw [at_]; rfl) (by rw [at_]; rfl) (by rw [at_]; rfl),
    control.moved early nofun nofun control.sections nofun (by rw [at_]; rfl)⟩

-- There is a block for the connection, as there is room in the list for it.
theorem created_keeps {sock : Nat} (ledger : Ledger s) (control : Control s)
    (at_ : s.accept_task = .holding sock) (granted : Grants s.blocks s.ipc_conn_pool (some b)) :
    Ledger {(s.cplus_mempool_alloc b).set b ⟨.not_connected,some sock,none⟩ with accept_task := .creating b} ∧
      Control {(s.cplus_mempool_alloc b).set b ⟨.not_connected,some sock,none⟩ with
        accept_task := .creating b} := by
  have early := control.early (by simp [at_])
  have room := control.room (by rw [at_]; rfl)
  have quiet := control.quiet
  have fresh : b ∉ s.conns := fun member => granted.2 (ledger.pool.live_iff.mpr member)
  have idle : (s.conn b).conn_task = none := by
    by_contra running
    exact fresh (control.tasks b running)
  have set := control.set (b := b) (c := ⟨.not_connected,some sock,none⟩) (.inr rfl)
  have conns : Server.conns {(s.cplus_mempool_alloc b).set b ⟨.not_connected,some sock,none⟩ with
      accept_task := .creating b} = b :: s.conns := by
    rw [control.conns_eq,at_]
    simp only [Server.conns,Server.set,cplus_mempool_alloc,quiet.1,AcceptTask.conns,List.nil_append,
      List.append_nil,List.singleton_append]
  constructor
  · refine ⟨?_,ledger.nodes,?_,?_,?_⟩
    · rw [conns]
      exact ledger.pool.alloc granted
    · rw [conns]
      have bound := ledger.pool.room granted
      have count := ledger.count
      rw [Finset.card_range] at bound
      simp only [Server.set,cplus_mempool_alloc,List.length_cons]
      omega
    · rw [conns]
      apply List.perm_middle.trans
      exact ledger.returns.cons _
    · have listed : b ∉ s.ipc_conn_list.map Node.conn := by
        rw [control.conns_eq] at fresh
        exact fun member => fresh (List.mem_append_right _ member)
      have others : (s.ipc_conn_list.map Node.conn).flatMap (fun conn =>
          ((s.set b ⟨.not_connected,some sock,none⟩).conn conn).owned.toList) =
          (s.ipc_conn_list.map Node.conn).flatMap fun conn => (s.conn conn).owned.toList := by
        apply List.flatMap_congr
        intro d member
        have apart : d ≠ b := by
          rintro rfl
          exact listed member
        rw [set_conn_other apart]
      have closes := ledger.closes
      rw [Server.socks,control.unclosed_eq,at_] at closes
      have socks : Server.socks {(s.cplus_mempool_alloc b).set b ⟨.not_connected,some sock,none⟩ with
          accept_task := .creating b} = sock :: (s.ipc_conn_list.map Node.conn).flatMap fun conn =>
            (s.conn conn).owned.toList := by
        rw [← others]
        simp only [Server.socks,Server.unclosed,Server.set,cplus_mempool_alloc,quiet.2,AcceptTask.socks,
          AcceptTask.unclosed,AcceptTask.conns,List.nil_append,List.append_nil,List.singleton_append,
          List.flatMap_cons,Function.update_self]
        rfl
      rw [socks]
      exact closes
  · refine ⟨.inl early,fun _ => room,nofun,set.sections,?_,?_⟩
    · intro d member
      obtain rfl := List.mem_singleton.mp member
      exact congrArg Connection.conn_task set_conn_self
    · intro d running
      rw [conns]
      exact List.mem_cons_of_mem _ (set.tasks d running)

theorem no_block_refused {sock : Nat} (ledger : Ledger s) (control : Control s)
    (at_ : s.accept_task = .holding sock) : ¬ Grants s.blocks s.ipc_conn_pool none := by
  intro refused
  have full := ledger.pool.refused refused
  have room := control.room (by rw [at_]; rfl)
  rw [control.conns_eq,at_,Finset.card_range] at full
  simp only [AcceptTask.conns,List.nil_append,List.length_map] at full
  omega

theorem task_made_keeps (ledger : Ledger s) (control : Control s) (at_ : s.accept_task = .creating b) :
    Ledger {s.set b {s.conn b with conn_task := some .testing} with accept_task := .starting b} ∧
      Control {s.set b {s.conn b with conn_task := some .testing} with accept_task := .starting b} := by
  have early := control.early (by simp [at_])
  have idle := control.stopped b (by rw [at_]; exact List.mem_singleton_self b)
  have set := ledger.set (b := b) (c := {s.conn b with conn_task := some .testing})
    (by simp [Connection.owned,idle])
  have still : (s.set b {s.conn b with conn_task := some .testing}).accept_task = .creating b := at_
  constructor
  · apply set.moved
    · rw [still]
      rfl
    · rw [still]
      rfl
    · rw [still]
      rfl
  · refine ⟨.inl early,fun _ => control.room (by rw [at_]; rfl),nofun,?_,nofun,?_⟩
    · intro d stage runs inside
      by_cases here : d = b
      · subst here
        simp only [Server.set,Function.update_self] at runs
        obtain rfl := Option.some.inj runs
        cases inside
      · simp only [Server.set,Function.update_of_ne here] at runs
        exact control.sections d stage runs inside
    · intro d running
      have conns : s.conns = b :: s.ipc_conn_list.map Node.conn := by
        rw [control.conns_eq,at_]
        rfl
      have next : Server.conns {s.set b {s.conn b with conn_task := some .testing} with
          accept_task := .starting b} = s.conns := by
        unfold Server.conns
        rw [at_]
        rfl
      rw [next]
      by_cases here : d = b
      · rw [conns,here]
        exact List.mem_cons_self
      · simp only [Server.set,Function.update_of_ne here] at running
        exact control.tasks d running

theorem task_failed_keeps (ledger : Ledger s) (control : Control s) (at_ : s.accept_task = .creating b) :
    Ledger {s with accept_task := .releasing b .marking false} ∧
      Control {s with accept_task := .releasing b .marking false} := by
  have early := control.early (by simp [at_])
  refine ⟨ledger.moved (by rw [at_]; rfl) (by rw [at_]; rfl) (by rw [at_]; rfl),
    control.moved early nofun nofun control.sections ?_ (by rw [at_]; rfl)⟩
  intro d member
  apply control.stopped
  rw [at_]
  exact member

theorem starting_keeps (ledger : Ledger s) (control : Control s) (at_ : s.accept_task = .starting b) :
    Ledger {s.set b {s.conn b with status := .connected} with accept_task := .pushing b} ∧
      Control {s.set b {s.conn b with status := .connected} with accept_task := .pushing b} := by
  refine set_keeps (b := b) (c := {s.conn b with status := .connected}) ledger control at_ nofun rfl (.inl rfl)
    ?_ ?_ ?_ ?_ nofun nofun
  · rfl
  · rfl
  · rfl
  · exact fun _ => rfl

theorem pushed_keeps {node : Nat} (ledger : Ledger s) (control : Control s) (at_ : s.accept_task = .pushing b)
    (granted : Grants s.blocks s.node_pool (some node)) :
    Ledger {s with
        ipc_conn_list := ⟨node,b⟩ :: s.ipc_conn_list
        node_pool := insert node s.node_pool
        accept_task := .entering} ∧
      Control {s with
        ipc_conn_list := ⟨node,b⟩ :: s.ipc_conn_list
        node_pool := insert node s.node_pool
        accept_task := .entering} := by
  have early := control.early (by simp [at_])
  have quiet := control.quiet
  have conns : s.conns = AcceptTask.conns .entering ++ s.deleter.conns ++
      ((⟨node,b⟩ : Node) :: s.ipc_conn_list).map Node.conn := by
    rw [control.conns_eq,at_,quiet.1]
    rfl
  constructor
  · apply ledger.passed (ledger.nodes.alloc granted) (.of_eq conns) (.of_eq _) (by rw [at_]; rfl)
    rw [control.unclosed_eq,at_,quiet.2]
    rfl
  · refine ⟨.inl early,nofun,nofun,control.sections,nofun,?_⟩
    intro d running
    have member := control.tasks d running
    rw [conns] at member
    exact member

theorem no_node_refused (ledger : Ledger s) (control : Control s) (at_ : s.accept_task = .pushing b) :
    ¬ Grants s.blocks s.node_pool none := by
  intro refused
  have full := ledger.nodes.refused refused
  have room := control.room (by rw [at_]; rfl)
  rw [List.length_map,Finset.card_range] at full
  omega

theorem accept_keeps (ledger : Ledger s) (control : Control s) (taken : s.ipc_server_proc ok answer = some t) :
    Ledger t ∧ Control t := by
  unfold ipc_server_proc at taken
  split at taken
  · rename_i at_
    split at taken
    · rename_i free
      cases taken
      exact entering_keeps ledger control at_ free
    · cases taken
  · rename_i at_
    split at taken
    · rename_i n found
      cases taken
      exact popped_keeps ledger control at_ found
    · cases taken
      exact checked_keeps ledger control at_
  · rename_i conn stage purge at_
    cases taken
    cases stage with
    | marking => exact marking_keeps ledger control at_
    | stopping => exact stopping_keeps ledger control at_
    | closing => exact closing_keeps ledger control at_
    | freeing => exact freeing_keeps ledger control at_
  · rename_i at_
    split at taken
    · cases taken
      exact accepted_keeps ledger control at_
    · cases taken
      exact refused_keeps ledger control at_
  · rename_i sock at_
    split at taken
    · rename_i granted
      cases answer with
      | some conn =>
        cases taken
        exact created_keeps ledger control at_ granted
      | none => exact absurd granted (no_block_refused ledger control at_)
    · cases taken
  · rename_i conn at_
    split at taken
    · cases taken
      exact task_made_keeps ledger control at_
    · cases taken
      exact task_failed_keeps ledger control at_
  · rename_i conn at_
    cases taken
    exact starting_keeps ledger control at_
  · rename_i conn at_
    split at taken
    · split at taken
      · rename_i granted
        cases answer with
        | some node =>
          cases taken
          exact pushed_keeps ledger control at_ granted
        | none => exact absurd granted (no_node_refused ledger control at_)
      · cases taken
    · cases taken
  · cases taken

-- A step of the delete that takes and gives nothing.
theorem Ledger.delete {deleter : Deleter} (ledger : Ledger s) (conns : deleter.conns = s.deleter.conns)
    (unclosed : deleter.unclosed = s.deleter.unclosed) : Ledger {s with deleter := deleter} := by
  have same_conns : Server.conns {s with deleter := deleter} = s.conns := by
    simp only [Server.conns,conns]
  have same_socks : Server.socks {s with deleter := deleter} = s.socks := by
    simp only [Server.socks,Server.unclosed,unclosed]
  refine ledger.sockets_move rfl rfl rfl rfl same_conns ?_
  rw [same_socks]
  exact ledger.closes

theorem stop_keeps (ledger : Ledger s) (control : Control s) (at_ : s.deleter = .stopping)
    (conns : s.accept_task.conns = []) (socks : s.accept_task.socks = []) :
    Ledger {s with accept_task := .ended,deleter := .popping} ∧
      Control {s with accept_task := .ended,deleter := .popping} := by
  have unclosed : s.accept_task.unclosed = [] := by
    unfold AcceptTask.unclosed
    split
    · rfl
    · exact conns
  have ended : Ledger {s with accept_task := .ended} :=
    ledger.moved (by rw [conns]; rfl) (by rw [unclosed]; rfl) (by rw [socks]; rfl)
  refine ⟨ended.delete (by rw [at_]; rfl) (by rw [at_]; rfl),
    ⟨.inr ⟨rfl,.inl rfl⟩,nofun,nofun,control.sections,nofun,?_⟩⟩
  intro d running
  have member := control.tasks d running
  rw [control.conns_eq,conns] at member
  exact member

theorem delete_keeps (ledger : Ledger s) (control : Control s) (taken : s.ipc_server_delete = some t)
    (clear : s.ClearAt s.deleter) : Ledger t ∧ Control t := by
  unfold ipc_server_delete at taken
  rcases control.phase with (at_ | at_) | ⟨ended,at_ | ⟨at_,_⟩⟩
  · rw [at_] at taken
    cases taken
    refine ⟨ledger.delete (by rw [at_]; rfl) (by rw [at_]; rfl),
      ⟨.inl (.inr rfl),control.room,control.held,control.sections,control.stopped,?_⟩⟩
    intro d running
    have member := control.tasks d running
    rw [control.conns_eq] at member
    simpa [Server.conns,Deleter.conns] using member
  · rw [at_] at taken clear
    cases taken
    exact stop_keeps ledger control at_ clear.1 clear.2
  · rw [at_] at taken clear
    have empty : s.ipc_conn_list = [] := clear
    have last : s.ipc_conn_list.getLast? = none := by
      rw [empty]
      rfl
    simp only [last] at taken
    cases taken
    refine ⟨ledger.delete (by rw [at_]; rfl) (by rw [at_]; rfl),
      ⟨.inr ⟨ended,.inr ⟨rfl,empty⟩⟩,control.room,control.held,control.sections,control.stopped,?_⟩⟩
    intro d running
    have member := control.tasks d running
    rw [control.conns_eq] at member
    simpa [Server.conns,Deleter.conns] using member
  · rw [at_] at taken
    cases taken

theorem step_keeps (ledger : Ledger s) (control : Control s) (taken : Step s action t)
    (clear : Clear s action) : Ledger t ∧ Control t := by
  cases action with
  | conn conn received =>
    simp only [Step,Follows,advance] at taken
    split at taken
    · cases taken
    · exact conn_keeps ledger control taken
  | accept ok answer => exact accept_keeps ledger control taken
  | delete => exact delete_keeps ledger control taken clear

theorem accounted (ledger : Ledger s) (control : Control s) : Accounted s where
  pool := ledger.pool
  count := ledger.count
  size := by
    have bound := ledger.nodes.bound
    rwa [List.length_map,Finset.card_range] at bound
  returns := ledger.returns
  closes := ledger.closes
  done := by
    intro at_
    have returns := ledger.returns
    have count := ledger.count
    have closes := ledger.closes
    obtain ⟨ended,empty⟩ : s.accept_task = .ended ∧ s.ipc_conn_list = [] := by
      rcases control.phase with (at_' | at_') | ⟨ended,at_' | ⟨_,empty⟩⟩
      · simp [at_] at at_'
      · simp [at_] at at_'
      · simp [at_] at at_'
      · exact ⟨ended,empty⟩
    have conns : s.conns = [] := by
      rw [control.conns_eq,ended,empty]
      rfl
    have socks : s.socks = [] := by
      rw [Server.socks,control.unclosed_eq,ended,empty]
      rfl
    rw [conns,List.append_nil] at returns
    rw [conns] at count
    rw [socks,List.append_nil] at closes
    exact ⟨returns,count,closes⟩

theorem new_keeps {max_connection : Nat} (new : cplus_ipc_server_new max_connection = some s) :
    Ledger s ∧ Control s := by
  unfold cplus_ipc_server_new at new
  split at new
  · cases new
    refine ⟨⟨balanced_nil,balanced_nil,rfl,.refl _,.refl _⟩,⟨.inl (.inl rfl),nofun,nofun,nofun,nofun,?_⟩⟩
    intro b running
    exact absurd rfl running
  · cases new

-- The other way: what a step that is not clear does to the accounts. A stop loses
-- what the accept task has, and the second free is of a block that is not live.
theorem stop_clear (before : Accounted s) (after : Accounted t) (at_ : s.deleter = .stopping)
    (taken : s.ipc_server_delete = some t) : s.accept_task.conns = [] ∧ s.accept_task.socks = [] := by
  unfold ipc_server_delete at taken
  rw [at_] at taken
  cases taken
  have conns_before : s.conns = s.accept_task.conns ++ s.ipc_conn_list.map Node.conn := by
    unfold Server.conns
    rw [at_]
    exact congrArg (· ++ s.ipc_conn_list.map Node.conn) (List.append_nil s.accept_task.conns)
  have count := before.count
  rw [conns_before,List.length_append] at count
  have count_after : s.free_blocks_count + (s.ipc_conn_list.map Node.conn).length = s.max_conn := after.count
  have conns : s.accept_task.conns = [] := by
    apply List.length_eq_zero_iff.mp
    omega
  have unclosed : s.accept_task.unclosed = [] := by
    unfold AcceptTask.unclosed
    split
    · rfl
    · exact conns
  have listed : s.unclosed = s.ipc_conn_list.map Node.conn := by
    unfold Server.unclosed
    rw [unclosed,at_]
    rfl
  have closes := before.closes.length_eq
  rw [Server.socks,listed,List.length_append,List.length_append] at closes
  have closes_after := after.closes.length_eq
  rw [List.length_append] at closes_after
  have socks_after : Server.socks {s with accept_task := .ended,deleter := .popping} =
      (s.ipc_conn_list.map Node.conn).flatMap fun conn => (s.conn conn).owned.toList := rfl
  rw [socks_after] at closes_after
  refine ⟨conns,?_⟩
  apply List.length_eq_zero_iff.mp
  simp only [List.length_range] at closes closes_after
  omega

theorem second_free {conn : Nat} (before : Accounted s) (at_ : s.deleter = .freeing conn)
    (taken : s.ipc_server_delete = some t) : ¬ Accounted t := by
  intro after
  unfold ipc_server_delete at taken
  rw [at_] at taken
  cases taken
  have counts := before.count
  have counts_after := after.count
  simp only [Server.conns,at_,Deleter.conns,cplus_mempool_free] at counts counts_after
  omega

theorem conn_deleter {received : Received} (taken : s.ipc_conn_proc b received = some t) :
    t.deleter = s.deleter := by
  unfold ipc_conn_proc at taken
  simp only at taken
  repeat' split at taken
  all_goals cases taken
  all_goals rfl

theorem release_deleter (stage : Release) : (s.release b stage).deleter = s.deleter := by
  cases stage <;> rfl

theorem accept_deleter (taken : s.ipc_server_proc ok answer = some t) : t.deleter = s.deleter := by
  unfold ipc_server_proc at taken
  repeat' split at taken
  all_goals cases taken
  all_goals first | rfl | exact release_deleter _

-- A delete that is past its loop, or not in it yet, has found no connection.
theorem delete_clear (before : Accounted s) (after : Accounted t) (taken : s.ipc_server_delete = some t)
    (settled : t.deleter.settled = true) : s.deleter.settled = true ∧ s.ClearAt s.deleter := by
  cases at_ : s.deleter with
  | idle => exact ⟨rfl,trivial⟩
  | stopping => exact ⟨rfl,stop_clear before after at_ taken⟩
  | popping =>
    refine ⟨rfl,?_⟩
    unfold ipc_server_delete at taken
    rw [at_] at taken
    cases last : s.ipc_conn_list.getLast? with
    | none => exact List.getLast?_eq_none_iff.mp last
    | some n =>
      simp only [last] at taken
      cases taken
      cases settled
  | releasing conn stage =>
    unfold ipc_server_delete at taken
    rw [at_] at taken
    cases taken
    cases stage <;> cases settled
  | freeing conn => exact absurd after (second_free before at_ taken)
  | done =>
    unfold ipc_server_delete at taken
    rw [at_] at taken
    cases taken

theorem clear_of_accounted {origin : Server} {moves : List (Move Server Action)} (start : Accounted origin)
    (run : Run Step origin moves s) (all : Throughout Accounted moves) :
    Accounted s ∧ (s.deleter.settled = true → Meets Clear moves) := by
  induction run with
  | nil => exact ⟨start,fun _ => meets_nil⟩
  | @snoc moves s action t prior taken ih =>
    obtain ⟨earlier,after⟩ := throughout_snoc.mp all
    obtain ⟨before,met⟩ := ih earlier
    refine ⟨after,?_⟩
    intro settled
    have both : Meets Clear moves ∧ Clear s action := by
      cases action with
      | conn conn received =>
        simp only [Step,Follows,advance] at taken
        split at taken
        · cases taken
        · rw [conn_deleter taken] at settled
          exact ⟨met settled,trivial⟩
      | accept ok answer =>
        rw [accept_deleter taken] at settled
        exact ⟨met settled,trivial⟩
      | delete =>
        obtain ⟨settled,clear⟩ := delete_clear before after taken settled
        exact ⟨met settled,clear⟩
    exact meets_snoc.mpr both

theorem accounting_exact {max_connection : Nat} {origin : Server}
    (new : cplus_ipc_server_new max_connection = some origin) {moves : List (Move Server Action)}
    (run : Run Step origin moves s) :
    (Meets Clear moves → Accounted s ∧ Throughout Accounted moves) ∧
      (s.deleter.settled = true → Throughout Accounted moves → Meets Clear moves) := by
  obtain ⟨ledger,control⟩ := new_keeps new
  constructor
  · intro met
    have kept := run.keeps (J := fun s => Ledger s ∧ Control s) Clear ⟨ledger,control⟩
      (fun held taken clear => step_keeps held.1 held.2 taken clear) met
    exact ⟨accounted kept.1.1 kept.1.2,kept.2.imp fun _ held => accounted held.1 held.2⟩
  · intro settled all
    exact (clear_of_accounted (accounted ledger control) run all).2 settled

-- A client connects and leaves, and the next iteration of the accept task gives its
-- block back before the delete; or it is connected still.
def connected : List Action :=
  [.accept true none,.accept true none,.accept true none,.accept true (some 0),.accept true none,
   .accept true none,.accept true (some 0)]

def left_again : List Action :=
  connected ++
  [.conn 0 .closed,.conn 0 .closed,.conn 0 .closed,.conn 0 .closed,.conn 0 .closed,
   .accept true none,.accept true none,.accept true none,.accept true none,.accept true none,.accept true none,
   .accept true none,.delete,.delete,.delete]

def deleted_connected : List Action :=
  connected ++ [.delete,.delete,.delete,.delete,.delete,.delete,.delete,.delete,.delete]

theorem left_again_accounted : ∃ moves s, Run Step (ipc_server_new 1) moves s ∧
    moves.map Move.action = left_again ∧ s.deleter = .done ∧ s.closed = [0] ∧ Meets Clear moves ∧
      Throughout Accounted moves := by
  obtain ⟨moves,s,run,same,checked⟩ := Run.of_check advance (ipc_server_new 1) left_again
    (fun result => decide (result.2.deleter = .done) && decide (result.2.closed = [0]) &&
      decide (Meets Clear result.1)) (by decide +kernel)
  obtain ⟨⟨done,closed⟩,met⟩ : (s.deleter = .done ∧ s.closed = [0]) ∧ Meets Clear moves := by simpa using checked
  have new : cplus_ipc_server_new 1 = some (ipc_server_new 1) := rfl
  have kept := ((accounting_exact new run).1 met).2
  have back := (accounting_exact new run).2 (by rw [done]; rfl) kept
  exact ⟨moves,s,run,same,done,closed,back,kept⟩

theorem deleted_connected_unaccounted : ¬ ∀ moves s, Run Step (ipc_server_new 1) moves s →
    Throughout Accounted moves := by
  intro all
  obtain ⟨moves,s,run,_,checked⟩ := Run.of_check advance (ipc_server_new 1) deleted_connected
    (fun result => result.1.any fun m =>
      decide (m.after.free_blocks_count + m.after.conns.length ≠ m.after.max_conn)) (by decide +kernel)
  obtain ⟨m,member,wrong⟩ := List.any_eq_true.mp checked
  have accounted := all moves s run m member
  simp [accounted.count] at wrong

end Libcplus.Ipc.Server
