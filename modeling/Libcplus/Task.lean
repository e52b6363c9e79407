import Libcplus.Pevent

namespace Libcplus
open Transition Typedef

-- The controller: the thread that starts, pauses and stops the task. It is in one
-- call at a time; stop deletes the task and is the last.
inductive Controller where
  | idle
  | starting
  | pausing (pause : Bool)
  | changing (pause : Bool)
  | stopping (tout : Nat)
  | raising (tout : Nat)
  | checking (tout : Nat)
  | restarting (tout : Nat)
  | finishing (tout : Nat)
  | joining
  | deleted (res : Int)
  deriving DecidableEq

-- task_executor: the next event or flag that it touches.
inductive Executor where
  | waiting_start
  | testing_stop
  | looking_pause
  | waiting_pause
  | resetting_finish
  | running
  | setting_finish
  | reading_duration
  | resting
  | finishing
  | exited
  deriving DecidableEq

-- struct task, less the procedure and its arguments, with its two threads. The
-- thread was created, so task->thread is not 0.
structure Task where
  duration : Nat
  evt_start : Pevent
  evt_stop : Pevent
  evt_finish : Pevent
  evt_pause : Pevent
  controller : Controller
  executor : Executor

-- The stop has raised evt_stop, and has seen to evt_start.
def Controller.raised : Controller → Bool
  | .checking _ | .restarting _ | .finishing _ | .joining => true
  | _ => false

def Controller.restarted : Controller → Bool
  | .finishing _ | .joining => true
  | _ => false

-- The loop has found evt_stop not set, and the next it may wait for is evt_pause.
def Executor.past_stop : Executor → Bool
  | .looking_pause | .waiting_pause => true
  | _ => false

-- In a wait without a timeout.
def Executor.waits : Executor → Bool
  | .waiting_start | .waiting_pause => true
  | _ => false

namespace Task

def MAX_WAIT_STOP_TIME : Nat := 60 * 1000

def task_initialize_object (duration : Nat) (suspend : Bool) : Task where
  duration := duration
  evt_start := .pevent_initialize_object true !suspend
  evt_stop := .pevent_initialize_object true false
  evt_finish := .pevent_initialize_object false false
  evt_pause := .pevent_initialize_object true true
  controller := .idle
  executor := .waiting_start

-- A set, a reset and a status of an event are one step, and so is a wait: the thread
-- takes it when the wait can end, by the event or at once.
def set (evt : Pevent) : Pevent := (evt.cplus_pevent_set 0 0).1

def reset (evt : Pevent) : Pevent := (evt.cplus_pevent_reset 0 0).1

def wait (evt : Pevent) (timeout : Nat) : Option (Pevent × Int) :=
  (evt.cplus_pevent_wait timeout 0 0).2.map fun res => ((evt.cplus_pevent_wait timeout 0 0).1,res)

-- pthread_cancel, then cplus_task_delete.
def cancel (s : Task) : Task := {s with controller := .deleted CPLUS_FAIL,executor := .exited}

def control (s : Task) : Option Task :=
  match s.controller with
  | .starting => some {s with evt_start := set s.evt_start,controller := .idle}
  | .pausing pause =>
    if pause ^^ !s.evt_pause.setted then some {s with controller := .changing pause}
    else some {s with controller := .idle}
  | .changing pause => some {s with
      evt_pause := if pause then reset s.evt_pause else set s.evt_pause
      controller := .idle}
  | .stopping tout =>
    if CPLUS_INFINITE_TIMEOUT ≠ s.duration then some {s with controller := .raising tout}
    else some {s with controller := .idle}
  | .raising tout => some {s with evt_stop := set s.evt_stop,controller := .checking tout}
  | .checking tout =>
    if s.evt_start.setted = false then some {s with controller := .restarting tout}
    else some {s with controller := .finishing tout}
  | .restarting tout => some {s with evt_start := set s.evt_start,controller := .finishing tout}
  | .finishing tout => (wait s.evt_finish tout).map fun (result : Pevent × Int) =>
      if result.2 = CPLUS_FAIL then cancel {s with evt_finish := result.1}
      else {s with evt_finish := result.1,controller := .joining}
  | .joining => if s.executor = .exited then some {s with controller := .deleted CPLUS_SUCCESS} else none
  | _ => none

def execute (s : Task) : Option Task :=
  match s.executor with
  | .waiting_start => (wait s.evt_start CPLUS_INFINITE_TIMEOUT).map fun (result : Pevent × Int) =>
      {s with
        evt_start := result.1
        executor := if result.2 = 0 then .testing_stop else .finishing}
  | .testing_stop => (wait s.evt_stop 0).map fun (result : Pevent × Int) =>
      {s with
        evt_stop := result.1
        executor := if result.2 = CPLUS_FAIL then .looking_pause else .finishing}
  | .looking_pause => some {s with
      executor := if s.evt_pause.setted then .resetting_finish else .waiting_pause}
  | .waiting_pause => (wait s.evt_pause CPLUS_INFINITE_TIMEOUT).map fun (result : Pevent × Int) =>
      {s with
        evt_pause := result.1
        executor := if result.2 = CPLUS_SUCCESS then .resetting_finish else .finishing}
  | .resetting_finish => some {s with evt_finish := reset s.evt_finish,executor := .running}
  | .running => some {s with executor := .setting_finish}
  | .setting_finish => some {s with evt_finish := set s.evt_finish,executor := .reading_duration}
  | .reading_duration => some {s with
      executor := if CPLUS_INFINITE_TIMEOUT = s.duration then .finishing else .resting}
  -- The rest of the period: a sleep, or a wait for evt_stop that ends with it.
  | .resting => some {s with executor := .testing_stop}
  | .finishing => some {s with evt_finish := set s.evt_finish,executor := .exited}
  | .exited => none

inductive Action where
  | start
  | pause (pause : Bool)
  | stop (timeout : Nat)
  | control
  | expire
  | execute
  | loop_finish (on : Bool)
  deriving DecidableEq

def advance (s : Task) : Action → Option Task
  | .start => if s.controller = .idle then some {s with controller := .starting} else none
  | .pause pause => if s.controller = .idle then some {s with controller := .pausing pause} else none
  | .stop timeout =>
    if s.controller = .idle then
      let tout := if CPLUS_INFINITE_TIMEOUT = timeout then MAX_WAIT_STOP_TIME else timeout
      some {s with controller := .stopping tout}
    else none
  | .control => s.control
  -- The time of the wait for evt_finish is over.
  | .expire =>
    match s.controller with
    | .finishing _ => some s.cancel
    | _ => none
  | .execute => s.execute
  -- The procedure may set and reset the finish event of its own loop.
  | .loop_finish on =>
    if s.executor = .running then
      some {s with evt_finish := if on then set s.evt_finish else reset s.evt_finish}
    else none

abbrev Step : Task → Action → Task → Prop := Follows advance

def Hung (s : Task) : Prop :=
  s.evt_stop.setted = true ∧ s.controller = .joining ∧ s.executor.waits = true ∧
    Stuck Step Task.executor s

-- The step that goes wrong: stop takes a finish event of an earlier iteration, while
-- the executor has passed the stop event and the task is paused.
def Clear (s : Task) : Action → Prop
  | .control => s.evt_finish.setted = true → s.controller.restarted = true → s.controller ≠ .joining →
      s.executor.past_stop = true → s.evt_pause.setted = true
  | _ => True

instance (s : Task) (a : Action) : Decidable (Clear s a) := by
  cases a <;> unfold Clear <;> infer_instance

structure Ready (s : Task) : Prop where
  start_mode : s.evt_start.broadcast = true
  stop_mode : s.evt_stop.broadcast = true
  pause_mode : s.evt_pause.broadcast = true
  raised : s.controller.raised = true → s.evt_stop.setted = true
  restarted : s.controller.restarted = true → s.evt_start.setted = true

structure Awake (s : Task) : Prop extends Ready s where
  unpaused : s.controller = .joining → s.executor.past_stop = true → s.evt_pause.setted = true

variable {s next : Task} {evt : Pevent} {a : Action}

theorem wait_setted {timeout : Nat} (setted : evt.setted = true) :
    wait evt timeout = some (evt.take,CPLUS_SUCCESS) := by
  simp [wait,Pevent.cplus_pevent_wait,Pevent.unlock_and_wait_cond,Pevent.answer,setted]

theorem wait_unset {timeout : Nat} (unset : evt.setted = false) :
    wait evt timeout = if timeout = 0 then some (evt,CPLUS_FAIL) else none := by
  by_cases zero : timeout = 0
  · simp [wait,Pevent.cplus_pevent_wait,Pevent.unlock_and_wait_cond,Pevent.answer,unset,zero,CPLUS_FAIL]
  · simp [wait,Pevent.cplus_pevent_wait,Pevent.unlock_and_wait_cond,Pevent.answer,unset,zero,Ne.symm zero]

theorem take_manual (manual : evt.broadcast = true) : evt.take = evt := by
  simp [Pevent.take,manual]

theorem initial_ready (duration : Nat) (suspend : Bool) : Ready (task_initialize_object duration suspend) := by
  cases suspend <;> exact ⟨rfl,rfl,rfl,nofun,nofun⟩

-- What the executor does to the events the controller looks after: nothing.
theorem execute_parts (ready : Ready s) (taken : s.execute = some next) :
    next.controller = s.controller ∧ next.evt_start = s.evt_start ∧ next.evt_stop = s.evt_stop ∧
      next.evt_pause = s.evt_pause ∧
      (next.executor.past_stop = true →
        (s.executor = .testing_stop ∧ s.evt_stop.setted = false) ∨
        (s.executor = .looking_pause ∧ s.evt_pause.setted = false)) := by
  obtain ⟨duration,evt_start,evt_stop,evt_finish,evt_pause,controller,executor⟩ := s
  have start_mode : evt_start.broadcast = true := ready.start_mode
  have stop_mode : evt_stop.broadcast = true := ready.stop_mode
  have pause_mode : evt_pause.broadcast = true := ready.pause_mode
  cases executor with
  | waiting_start =>
    cases setted : evt_start.setted with
    | true =>
      simp only [execute,wait_setted setted,take_manual start_mode,Option.map_some] at taken
      cases taken
      exact ⟨rfl,rfl,rfl,rfl,nofun⟩
    | false => simp [execute,wait_unset setted,CPLUS_INFINITE_TIMEOUT] at taken
  | testing_stop =>
    cases setted : evt_stop.setted with
    | true =>
      simp only [execute,wait_setted setted,take_manual stop_mode,Option.map_some] at taken
      cases taken
      exact ⟨rfl,rfl,rfl,rfl,nofun⟩
    | false =>
      simp only [execute,wait_unset setted,if_true,Option.map_some] at taken
      cases taken
      exact ⟨rfl,rfl,rfl,rfl,fun _ => .inl ⟨rfl,rfl⟩⟩
  | looking_pause =>
    cases taken
    refine ⟨rfl,rfl,rfl,rfl,fun past => ?_⟩
    cases setted : evt_pause.setted with
    | true => simp [setted,Executor.past_stop] at past
    | false => exact .inr ⟨rfl,rfl⟩
  | waiting_pause =>
    cases setted : evt_pause.setted with
    | true =>
      simp only [execute,wait_setted setted,take_manual pause_mode,Option.map_some] at taken
      cases taken
      exact ⟨rfl,rfl,rfl,rfl,nofun⟩
    | false => simp [execute,wait_unset setted,CPLUS_INFINITE_TIMEOUT] at taken
  | reading_duration =>
    cases taken
    refine ⟨rfl,rfl,rfl,rfl,fun past => ?_⟩
    simp only at past
    split at past <;> cases past
  | exited => cases taken
  | resetting_finish | running | setting_finish | resting | finishing =>
    cases taken
    exact ⟨rfl,rfl,rfl,rfl,nofun⟩

theorem control_ready (ready : Ready s) (taken : s.control = some next) : Ready next := by
  obtain ⟨start_mode,stop_mode,pause_mode,raised,restarted⟩ := ready
  obtain ⟨duration,evt_start,evt_stop,evt_finish,evt_pause,controller,executor⟩ := s
  simp only at start_mode stop_mode pause_mode raised restarted
  cases controller with
  | pausing pause =>
    simp only [control] at taken
    split at taken <;> cases taken <;> exact ⟨start_mode,stop_mode,pause_mode,nofun,nofun⟩
  | changing pause =>
    cases taken
    refine ⟨start_mode,stop_mode,?_,nofun,nofun⟩
    cases pause <;> exact pause_mode
  | stopping tout =>
    simp only [control] at taken
    split at taken <;> cases taken <;> exact ⟨start_mode,stop_mode,pause_mode,nofun,nofun⟩
  | raising tout =>
    cases taken
    exact ⟨start_mode,stop_mode,pause_mode,fun _ => rfl,nofun⟩
  | checking tout =>
    simp only [control] at taken
    split at taken
    · cases taken
      exact ⟨start_mode,stop_mode,pause_mode,fun _ => raised rfl,nofun⟩
    · rename_i setted
      cases taken
      exact ⟨start_mode,stop_mode,pause_mode,fun _ => raised rfl,fun _ => by simpa using setted⟩
  | restarting tout =>
    cases taken
    exact ⟨start_mode,stop_mode,pause_mode,fun _ => raised rfl,fun _ => rfl⟩
  | finishing tout =>
    obtain ⟨result,_,rfl⟩ := Option.map_eq_some_iff.mp taken
    dsimp only
    split
    · exact ⟨start_mode,stop_mode,pause_mode,nofun,nofun⟩
    · exact ⟨start_mode,stop_mode,pause_mode,fun _ => raised rfl,fun _ => restarted rfl⟩
  | joining =>
    simp only [control] at taken
    split at taken
    · cases taken
      exact ⟨start_mode,stop_mode,pause_mode,nofun,nofun⟩
    · cases taken
  | starting =>
    cases taken
    exact ⟨start_mode,stop_mode,pause_mode,nofun,nofun⟩
  | idle | deleted res => cases taken

-- The controller comes to the join by the finish event, and by nothing else.
theorem control_joins (taken : s.control = some next) (joins : next.controller = .joining) :
    s.controller.restarted = true ∧ s.controller ≠ .joining ∧ s.evt_finish.setted = true ∧
      next.executor = s.executor ∧ next.evt_pause = s.evt_pause := by
  obtain ⟨duration,evt_start,evt_stop,evt_finish,evt_pause,controller,executor⟩ := s
  cases controller with
  | finishing tout =>
    cases setted : evt_finish.setted with
    | true =>
      simp only [control,wait_setted setted,Option.map_some] at taken
      cases taken
      exact ⟨rfl,nofun,rfl,rfl,rfl⟩
    | false =>
      simp only [control,wait_unset setted] at taken
      split at taken
      · cases taken
        cases joins
      · cases taken
  | pausing pause | stopping tout | checking tout | joining =>
    simp only [control] at taken
    split at taken <;> cases taken <;> cases joins
  | changing pause | raising tout | restarting tout | starting =>
    cases taken
    cases joins
  | idle | deleted res => cases taken

theorem step_ready (ready : Ready s) (taken : Step s a next) : Ready next := by
  unfold Step Follows at taken
  cases a with
  | start | pause _ | stop _ | expire =>
    simp only [advance] at taken
    split at taken
    · cases taken
      exact ⟨ready.start_mode,ready.stop_mode,ready.pause_mode,nofun,nofun⟩
    · cases taken
  | control => exact control_ready ready taken
  | execute =>
    obtain ⟨controller,evt_start,evt_stop,evt_pause,_⟩ := execute_parts ready taken
    refine ⟨?_,?_,?_,?_,?_⟩
    · rw [evt_start]
      exact ready.start_mode
    · rw [evt_stop]
      exact ready.stop_mode
    · rw [evt_pause]
      exact ready.pause_mode
    · rw [controller,evt_stop]
      exact ready.raised
    · rw [controller,evt_start]
      exact ready.restarted
  | loop_finish on =>
    simp only [advance] at taken
    split at taken
    · cases taken
      exact ⟨ready.start_mode,ready.stop_mode,ready.pause_mode,ready.raised,ready.restarted⟩
    · cases taken

theorem step_awake (awake : Awake s) (taken : Step s a next) (clear : Clear s a) : Awake next := by
  refine ⟨step_ready awake.toReady taken,?_⟩
  unfold Step Follows at taken
  cases a with
  | start | pause _ | stop _ =>
    simp only [advance] at taken
    split at taken
    · cases taken
      exact nofun
    · cases taken
  | control =>
    intro joins past
    obtain ⟨restarted,waiting,setted,executor,evt_pause⟩ := control_joins taken joins
    rw [executor] at past
    rw [evt_pause]
    exact clear setted restarted waiting past
  | expire =>
    simp only [advance] at taken
    split at taken
    · cases taken
      exact nofun
    · cases taken
  | execute =>
    obtain ⟨controller,_,_,evt_pause,past⟩ := execute_parts awake.toReady taken
    intro joins passed
    rw [controller] at joins
    rw [evt_pause]
    rcases past passed with ⟨testing,unset⟩ | ⟨looking,unset⟩
    · rw [awake.raised (by rw [joins]; rfl)] at unset
      cases unset
    · exact awake.unpaused joins (by rw [looking]; rfl)
  | loop_finish on =>
    simp only [advance] at taken
    split at taken
    · cases taken
      exact awake.unpaused
    · cases taken

theorem Awake.not_hung (awake : Awake s) : ¬ Hung s := by
  rintro ⟨_,joins,waits,stuck⟩
  have started : s.evt_start.setted = true := awake.restarted (by rw [joins]; rfl)
  cases executor : s.executor with
  | waiting_start =>
    have moves : s.execute = some {s with evt_start := s.evt_start.take,executor := .testing_stop} := by
      simp only [execute,executor,wait_setted started,Option.map_some]
      rfl
    have still := stuck.still (show Step s .execute _ from moves)
    rw [executor] at still
    cases still
  | waiting_pause =>
    have unpaused := awake.unpaused joins (by rw [executor]; rfl)
    have moves : s.execute = some {s with evt_pause := s.evt_pause.take,executor := .resetting_finish} := by
      simp only [execute,executor,wait_setted unpaused,Option.map_some]
      rfl
    have still := stuck.still (show Step s .execute _ from moves)
    rw [executor] at still
    cases still
  | _ => simp [executor,Executor.waits] at waits

-- Both threads wait for each other.
theorem hung_of_paused (stopped : s.evt_stop.setted = true) (joins : s.controller = .joining)
    (waiting : s.executor = .waiting_pause) (paused : s.evt_pause.setted = false) : Hung s := by
  refine ⟨stopped,joins,by rw [waiting]; rfl,stuck_of_ended ?_⟩
  intro a t taken
  unfold Step Follows at taken
  cases a with
  | control => simp [advance,control,joins,waiting] at taken
  | execute => simp [advance,execute,waiting,wait_unset paused,CPLUS_INFINITE_TIMEOUT] at taken
  | start | pause _ | stop _ | expire => simp [advance,joins] at taken
  | loop_finish on => simp [advance,waiting] at taken

-- A step that is not clear leads there: the executor has one step left at most.
theorem hung_of_unclear (ready : Ready s) (taken : Step s a next) (unclear : ¬ Clear s a) :
    ∃ later t, Run Step next later t ∧ Hung t := by
  cases a with
  | control =>
    simp only [Clear,Classical.not_imp] at unclear
    obtain ⟨setted,restarted,waiting,past,paused⟩ := unclear
    have stopped : s.evt_stop.setted = true := by
      apply ready.raised
      cases controller : s.controller <;> simp_all [Controller.restarted,Controller.raised]
    have joined : next = {s with evt_finish := s.evt_finish.take,controller := .joining} := by
      unfold Step Follows advance control at taken
      cases controller : s.controller with
      | finishing tout =>
        simp only [controller,wait_setted setted,Option.map_some] at taken
        exact (Option.some.inj taken).symm
      | joining => exact absurd controller waiting
      | _ => simp [controller,Controller.restarted] at restarted
    rw [Bool.not_eq_true] at paused
    subst joined
    have place : s.executor = .looking_pause ∨ s.executor = .waiting_pause := by
      cases executor : s.executor <;> simp_all [Executor.past_stop]
    rcases place with looking | waits
    · have moves : Step {s with evt_finish := s.evt_finish.take,controller := .joining} .execute
          {s with evt_finish := s.evt_finish.take,controller := .joining,executor := .waiting_pause} := by
        simp [Follows,advance,execute,looking,paused]
      exact ⟨_,_,Run.nil.snoc moves,hung_of_paused stopped rfl rfl paused⟩
    · exact ⟨[],_,.nil,hung_of_paused stopped rfl waits paused⟩
  | _ => exact absurd trivial unclear

variable {duration : Nat} {suspend : Bool} {moves : List (Move Task Action)}

theorem stop_joins (run : Run Step (task_initialize_object duration suspend) moves s) :
    (Meets Clear moves → ¬ Hung s ∧ Throughout (fun t => ¬ Hung t) moves) ∧
    ∀ m ∈ moves, ¬ Clear m.before m.action → ∃ later t, Run Step m.after later t ∧ Hung t := by
  have start := initial_ready duration suspend
  constructor
  · intro met
    have kept := run.keeps Clear ⟨start,nofun⟩ step_awake met
    exact ⟨kept.1.not_hung,kept.2.imp fun _ awake => awake.not_hung⟩
  · intro m member unclear
    obtain ⟨ready,taken⟩ := run.each (fun _ _ => True) start (fun ready taken _ => step_ready ready taken)
      (fun _ _ => trivial) m member
    exact hung_of_unclear ready taken unclear

-- A task that is stopped while it runs.
def stopped_running : List Action :=
  [.execute,.execute,.execute,.execute,.stop 1000,.control,.control,.control,.execute,.execute,.control,
   .execute,.execute,.execute,.execute,.control]

theorem stopped_running_joined : ∃ moves s,
    Run Step (task_initialize_object 100 false) moves s ∧ moves.map Move.action = stopped_running ∧
      s.controller = .deleted CPLUS_SUCCESS ∧ Throughout (fun t => ¬ Hung t) moves := by
  obtain ⟨moves,s,run,same,checked⟩ := Run.of_check advance (task_initialize_object 100 false)
    stopped_running (fun result => decide (result.2.controller = .deleted CPLUS_SUCCESS ∧
      Meets Clear result.1)) (by decide +kernel)
  obtain ⟨deleted,met⟩ := of_decide_eq_true checked
  exact ⟨moves,s,run,same,deleted,((stop_joins run).1 met).2⟩

-- One iteration is done when the task is paused; the executor finds evt_stop not set
-- and waits for evt_pause; then the stop takes the finish event of that iteration.
def paused_stop : List Action :=
  [.execute,.execute,.execute,.execute,.execute,.execute,.execute,.execute,.execute,
   .pause true,.control,.control,.execute,.stop 1000,.control,.control,.control,.control]

theorem paused_stop_hangs :
    ¬ ∀ duration suspend moves s, Run Step (task_initialize_object duration suspend) moves s → ¬ Hung s := by
  intro claimed
  obtain ⟨moves,s,run,_,checked⟩ := Run.of_check advance (task_initialize_object 100 false) paused_stop
    (fun result => decide (result.2.evt_stop.setted = true ∧ result.2.controller = .joining ∧
      result.2.executor = .waiting_pause ∧ result.2.evt_pause.setted = false)) (by decide +kernel)
  obtain ⟨stopped,joins,waiting,paused⟩ := of_decide_eq_true checked
  exact claimed 100 false moves s run (hung_of_paused stopped joins waiting paused)

end Task
end Libcplus
