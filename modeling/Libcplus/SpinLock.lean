import Mathlib.Logic.Function.Basic
import Mathlib.Tactic.Cases
import Mathlib.Tactic.ByContra
import Libcplus.Transition

namespace Libcplus.SpinLock
open Transition

-- mempool.c and data.c each expand the same two macros over their own pair of
-- file-static bytes. spin_up is only ever read; spin_down is passed as the
-- expected argument of the compare-exchange, so a failure overwrites it.
inductive SourceFile where
  | mempool
  | data
  deriving DecidableEq, Repr

def spin_up : UInt8 := 1

-- Where a thread stands in a LOCK or UNLOCK macro; between macros it is idle.
inductive Pc (Obj : Type) where
  | idle
  | testing (o : Obj)
  | exchanging (o : Obj)
  | unlocking (o : Obj)
  deriving DecidableEq

-- The object whose lock word the thread is busy with.
def Pc.object {Obj : Type} : Pc Obj → Option Obj
  | .idle => none
  | .testing o | .exchanging o | .unlocking o => some o

structure State (Thread Obj : Type) where
  pc : Thread → Pc Obj
  inside : Thread → Obj → Bool
  spinlock : Obj → UInt8
  spin_down : SourceFile → UInt8

inductive Action (Thread Obj : Type) where
  | lock (t : Thread) (o : Obj)
  | read (t : Thread) (o : Obj)
  | compare_exchange (t : Thread) (o : Obj)
  | unlock (t : Thread) (o : Obj)
  | write (t : Thread) (o : Obj)

section
variable {Thread Obj : Type}

def initial : State Thread Obj :=
  ⟨fun _ => .idle,fun _ _ => false,fun _ => 0,fun _ => 0⟩

-- Between LOCK and UNLOCK, the unlocking store not yet done.
def Holds (s : State Thread Obj) (t : Thread) (o : Obj) : Prop :=
  s.inside t o = true ∨ s.pc t = .unlocking o

def Exclusive (s : State Thread Obj) : Prop :=
  ∀ o t u, Holds s t o → Holds s u o → t = u

def Released (s : State Thread Obj) : Prop :=
  ∀ o, (∀ t, ¬ Holds s t o) → s.spinlock o = 0

def MutualExclusion (s : State Thread Obj) : Prop := Exclusive s ∧ Released s

-- A thread busy with the word of an object is not inside that object.
def Outside (s : State Thread Obj) : Prop :=
  ∀ t o, (s.pc t).object = some o → s.inside t o = false

structure Invariant (s : State Thread Obj) : Prop where
  words : ∀ o, s.spinlock o = 0 ∨ s.spinlock o = spin_up
  downs : ∀ f, s.spin_down f = 0 ∨ s.spin_down f = spin_up
  outside : Outside s
  exclusive : Exclusive s
  taken : ∀ o t, Holds s t o → s.spinlock o = spin_up
  held : ∀ o, s.spinlock o = spin_up → ∃ t, Holds s t o

theorem initial_invariant : Invariant (initial : State Thread Obj) where
  words _ := .inl rfl
  downs _ := .inl rfl
  outside t o busy := rfl
  exclusive o t u ht := by simp [Holds,initial] at ht
  taken o t ht := by simp [Holds,initial] at ht
  held o up := by simp [initial,spin_up] at up

theorem Invariant.safe {s : State Thread Obj} (valid : Invariant s) : MutualExclusion s := by
  refine ⟨valid.exclusive,fun o free => ?_⟩
  rcases valid.words o with zero | up
  · exact zero
  · obtain ⟨t,holds⟩ := valid.held o up
    exact absurd holds (free t)

variable [DecidableEq Thread] [DecidableEq Obj] (file : Obj → SourceFile)
-- `while ((spin_up == read) || !compare_exchange) { }`: a read of spin_up or a
-- failed exchange goes round the loop, anything else goes on to the exchange.
-- A thread does not lock an object it is already inside; it may nest objects.
def advance (s : State Thread Obj) : Action Thread Obj → Option (State Thread Obj)
  | .lock t o =>
    if s.pc t = .idle ∧ s.inside t o = false then
      some {s with pc := Function.update s.pc t (.testing o)}
    else none
  | .read t o =>
    if s.pc t = .testing o then
      if spin_up = s.spinlock o then some s
      else some {s with pc := Function.update s.pc t (.exchanging o)}
    else none
  | .compare_exchange t o =>
    if s.pc t = .exchanging o then
      if s.spinlock o = s.spin_down (file o) then
        some {s with
          spinlock := Function.update s.spinlock o spin_up
          inside := Function.update s.inside t (Function.update (s.inside t) o true)
          pc := Function.update s.pc t .idle}
      else
        some {s with
          spin_down := Function.update s.spin_down (file o) (s.spinlock o)
          pc := Function.update s.pc t (.testing o)}
    else none
  | .unlock t o =>
    if s.pc t = .idle ∧ s.inside t o = true then
      some {s with
        inside := Function.update s.inside t (Function.update (s.inside t) o false)
        pc := Function.update s.pc t (.unlocking o)}
    else none
  | .write t o =>
    if s.pc t = .unlocking o then
      some {s with
        spinlock := Function.update s.spinlock o (s.spin_down (file o))
        pc := Function.update s.pc t .idle}
    else none

abbrev Step : State Thread Obj → Action Thread Obj → State Thread Obj → Prop :=
  Follows (advance file)

-- The two steps that go wrong: an exchange that finds its object taken and
-- expects that very value, and an unlock that stores the spoilt spin_down.
def Clean (s : State Thread Obj) : Action Thread Obj → Prop
  | .compare_exchange _ o => ¬ (s.spinlock o = spin_up ∧ s.spin_down (file o) = spin_up)
  | .write _ o => s.spin_down (file o) ≠ spin_up
  | _ => True

-- Everything one step can do: it changes nothing that the lock is about, or it
-- takes a word equal to spin_down, or it spoils spin_down, or it stores it back.
inductive Effect (s : State Thread Obj) : Action Thread Obj → State Thread Obj → Prop where
  | quiet {a next} (spinlock : next.spinlock = s.spinlock)
      (spin_down : next.spin_down = s.spin_down)
      (holds : ∀ u p, Holds next u p ↔ Holds s u p) (clean : Clean file s a) : Effect s a next
  | acquire {t o next} (word : s.spinlock o = s.spin_down (file o))
      (spinlock : next.spinlock = Function.update s.spinlock o spin_up)
      (spin_down : next.spin_down = s.spin_down) (free : ¬ Holds s t o)
      (holds : ∀ u p, Holds next u p ↔ Holds s u p ∨ (u = t ∧ p = o)) :
      Effect s (.compare_exchange t o) next
  | spoil {t o next} (word : s.spinlock o ≠ s.spin_down (file o))
      (spinlock : next.spinlock = s.spinlock)
      (spin_down : next.spin_down = Function.update s.spin_down (file o) (s.spinlock o))
      (holds : ∀ u p, Holds next u p ↔ Holds s u p) : Effect s (.compare_exchange t o) next
  | release {t o next} (spinlock : next.spinlock = Function.update s.spinlock o (s.spin_down (file o)))
      (spin_down : next.spin_down = s.spin_down) (held : Holds s t o)
      (holds : ∀ u p, Holds next u p ↔ Holds s u p ∧ ¬ (u = t ∧ p = o)) :
      Effect s (.write t o) next

variable {s next : State Thread Obj} {a : Action Thread Obj}

theorem lock_parts (taken : Step file s (.lock t o) next) :
    s.pc t = .idle ∧ s.inside t o = false ∧
      next = {s with pc := Function.update s.pc t (.testing o)} := by
  simp only [Step,Follows,advance] at taken
  split at taken
  · rename_i guard; cases taken; exact ⟨guard.1,guard.2,rfl⟩
  · cases taken

theorem read_parts (taken : Step file s (.read t o) next) :
    s.pc t = .testing o ∧
      (next = s ∨ next = {s with pc := Function.update s.pc t (.exchanging o)}) := by
  simp only [Step,Follows,advance] at taken
  split at taken
  · rename_i guard
    refine ⟨guard,?_⟩
    split at taken
    · cases taken; exact .inl rfl
    · cases taken; exact .inr rfl
  · cases taken

theorem compare_exchange_parts (taken : Step file s (.compare_exchange t o) next) :
    s.pc t = .exchanging o ∧
      (s.spinlock o = s.spin_down (file o) ∧ next = {s with
          spinlock := Function.update s.spinlock o spin_up
          inside := Function.update s.inside t (Function.update (s.inside t) o true)
          pc := Function.update s.pc t .idle} ∨
       s.spinlock o ≠ s.spin_down (file o) ∧ next = {s with
          spin_down := Function.update s.spin_down (file o) (s.spinlock o)
          pc := Function.update s.pc t (.testing o)}) := by
  simp only [Step,Follows,advance] at taken
  split at taken
  · rename_i guard
    refine ⟨guard,?_⟩
    split at taken
    · rename_i expected; cases taken; exact .inl ⟨expected,rfl⟩
    · rename_i unexpected; cases taken; exact .inr ⟨unexpected,rfl⟩
  · cases taken

theorem unlock_parts (taken : Step file s (.unlock t o) next) :
    s.pc t = .idle ∧ s.inside t o = true ∧ next = {s with
      inside := Function.update s.inside t (Function.update (s.inside t) o false)
      pc := Function.update s.pc t (.unlocking o)} := by
  simp only [Step,Follows,advance] at taken
  split at taken
  · rename_i guard; cases taken; exact ⟨guard.1,guard.2,rfl⟩
  · cases taken

theorem write_parts (taken : Step file s (.write t o) next) :
    s.pc t = .unlocking o ∧ next = {s with
      spinlock := Function.update s.spinlock o (s.spin_down (file o))
      pc := Function.update s.pc t .idle} := by
  simp only [Step,Follows,advance] at taken
  split at taken
  · rename_i guard; cases taken; exact ⟨guard,rfl⟩
  · cases taken

theorem step_outside (outside : Outside s) (taken : Step file s a next) : Outside next := by
  intro u p busy
  cases a with
  | lock t o =>
    obtain ⟨idle,clear,rfl⟩ := lock_parts file taken
    by_cases same : u = t
    · subst u
      obtain rfl : o = p := by simpa [Pc.object] using busy
      exact clear
    · exact outside u p (by simpa [same] using busy)
  | read t o =>
    obtain ⟨testing,rfl | rfl⟩ := read_parts file taken
    · exact outside u p busy
    · by_cases same : u = t
      · subst u
        obtain rfl : o = p := by simpa [Pc.object] using busy
        exact outside t o (by simp [testing,Pc.object])
      · exact outside u p (by simpa [same] using busy)
  | compare_exchange t o =>
    obtain ⟨exchanging,⟨_,rfl⟩ | ⟨_,rfl⟩⟩ := compare_exchange_parts file taken
    · by_cases same : u = t
      · subst u; simp [Pc.object] at busy
      · simpa [same] using outside u p (by simpa [same] using busy)
    · by_cases same : u = t
      · subst u
        obtain rfl : o = p := by simpa [Pc.object] using busy
        exact outside t o (by simp [exchanging,Pc.object])
      · exact outside u p (by simpa [same] using busy)
  | unlock t o =>
    obtain ⟨idle,entered,rfl⟩ := unlock_parts file taken
    by_cases same : u = t
    · subst u
      obtain rfl : o = p := by simpa [Pc.object] using busy
      simp
    · simpa [same] using outside u p (by simpa [same] using busy)
  | write t o =>
    obtain ⟨unlocking,rfl⟩ := write_parts file taken
    by_cases same : u = t
    · subst u; simp [Pc.object] at busy
    · exact outside u p (by simpa [same] using busy)

theorem step_effect (outside : Outside s) (taken : Step file s a next) : Effect file s a next := by
  cases a with
  | lock t o =>
    obtain ⟨idle,clear,rfl⟩ := lock_parts file taken
    refine .quiet rfl rfl (fun u p => ?_) trivial
    by_cases same : u = t
    · subst u; simp [Holds,idle]
    · simp [Holds,same]
  | read t o =>
    obtain ⟨testing,rfl | rfl⟩ := read_parts file taken
    · exact .quiet rfl rfl (fun _ _ => Iff.rfl) trivial
    · refine .quiet rfl rfl (fun u p => ?_) trivial
      by_cases same : u = t
      · subst u; simp [Holds,testing]
      · simp [Holds,same]
  | compare_exchange t o =>
    obtain ⟨exchanging,⟨expected,rfl⟩ | ⟨unexpected,rfl⟩⟩ := compare_exchange_parts file taken
    · have free : s.inside t o = false := outside t o (by simp [exchanging,Pc.object])
      refine .acquire expected rfl rfl (by simp [Holds,free,exchanging]) (fun u p => ?_)
      by_cases same : u = t
      · subst u
        by_cases here : p = o
        · subst p; simp [Holds]
        · simp [Holds,here,exchanging]
      · simp [Holds,same]
    · refine .spoil unexpected rfl rfl (fun u p => ?_)
      by_cases same : u = t
      · subst u; simp [Holds,exchanging]
      · simp [Holds,same]
  | unlock t o =>
    obtain ⟨idle,entered,rfl⟩ := unlock_parts file taken
    refine .quiet rfl rfl (fun u p => ?_) trivial
    by_cases same : u = t
    · subst u
      by_cases here : p = o
      · subst p; simp [Holds,entered]
      · simp [Holds,here,idle,Ne.symm here]
    · simp [Holds,same]
  | write t o =>
    obtain ⟨unlocking,rfl⟩ := write_parts file taken
    refine .release rfl rfl (.inr unlocking) (fun u p => ?_)
    by_cases same : u = t
    · subst u
      have free : s.inside t o = false := outside t o (by simp [unlocking,Pc.object])
      by_cases here : p = o
      · subst p; simp [Holds,free]
      · simp [Holds,here,unlocking,Ne.symm here]
    · simp [Holds,same]

theorem preserves (valid : Invariant s) (taken : Step file s a next) (clean : Clean file s a) :
    Invariant next := by
  have outside := step_outside file valid.outside taken
  cases step_effect file valid.outside taken with
  | quiet spinlock spin_down holds _ =>
    refine ⟨?_,?_,outside,?_,?_,?_⟩
    · simpa [spinlock] using valid.words
    · simpa [spin_down] using valid.downs
    · simpa [Exclusive,holds] using valid.exclusive
    · simpa [spinlock,holds] using valid.taken
    · simpa [spinlock,holds] using valid.held
  | @acquire t o _ word spinlock spin_down free holds =>
    have zero : s.spinlock o = 0 := by
      rcases valid.words o with zero | up
      · exact zero
      · exact absurd ⟨up,word ▸ up⟩ clean
    -- an untaken word means that nobody is inside
    have nobody : ∀ u, ¬ Holds s u o := fun u inside => by
      have := zero.symm.trans (valid.taken o u inside)
      simp [spin_up] at this
    refine ⟨fun p => ?_,?_,outside,?_,?_,?_⟩
    · rw [spinlock]
      by_cases here : p = o
      · subst p; exact .inr (by simp)
      · simpa [here] using valid.words p
    · simpa [spin_down] using valid.downs
    · intro p u v hu hv
      rcases (holds u p).mp hu with hu | ⟨left,here⟩
      · rcases (holds v p).mp hv with hv | ⟨_,here⟩
        · exact valid.exclusive p u v hu hv
        · exact absurd (here ▸ hu) (nobody u)
      · rcases (holds v p).mp hv with hv | ⟨right,_⟩
        · exact absurd (here ▸ hv) (nobody v)
        · exact left.trans right.symm
    · intro p u hu
      rw [spinlock]
      by_cases here : p = o
      · subst p; simp
      · rcases (holds u p).mp hu with hu | ⟨_,same⟩
        · simpa [here] using valid.taken p u hu
        · exact absurd same here
    · intro p up
      by_cases here : p = o
      · exact ⟨t,(holds t p).mpr (.inr ⟨rfl,here⟩)⟩
      · obtain ⟨u,hu⟩ := valid.held p (by simpa [spinlock,here] using up)
        exact ⟨u,(holds u p).mpr (.inl hu)⟩
  | @spoil t o _ word spinlock spin_down holds =>
    refine ⟨?_,fun f => ?_,outside,?_,?_,?_⟩
    · simpa [spinlock] using valid.words
    · rw [spin_down]
      by_cases here : f = file o
      · subst f; simpa using valid.words o
      · simpa [here] using valid.downs f
    · simpa [Exclusive,holds] using valid.exclusive
    · simpa [spinlock,holds] using valid.taken
    · simpa [spinlock,holds] using valid.held
  | @release t o _ spinlock spin_down held holds =>
    have zero : s.spin_down (file o) = 0 := (valid.downs (file o)).resolve_right clean
    refine ⟨fun p => ?_,?_,outside,?_,?_,?_⟩
    · rw [spinlock]
      by_cases here : p = o
      · subst p; exact .inl (by simpa using zero)
      · simpa [here] using valid.words p
    · simpa [spin_down] using valid.downs
    · intro p u v hu hv
      exact valid.exclusive p u v ((holds u p).mp hu).1 ((holds v p).mp hv).1
    · intro p u hu
      obtain ⟨hu,other⟩ := (holds u p).mp hu
      by_cases here : p = o
      · subst p
        exact absurd ⟨valid.exclusive o u t hu held,rfl⟩ other
      · simpa [spinlock,here] using valid.taken p u hu
    · intro p up
      by_cases here : p = o
      · subst p; simp [spinlock,zero,spin_up] at up
      · obtain ⟨u,hu⟩ := valid.held p (by simpa [spinlock,here] using up)
        exact ⟨u,(holds u p).mpr ⟨hu,fun same => here same.2⟩⟩

-- A step that is not clean leaves two threads inside, or a free object locked.
theorem unclean_breaks (valid : Invariant s) (taken : Step file s a next)
    (unclean : ¬ Clean file s a) : ¬ MutualExclusion next := by
  rintro ⟨exclusive,released⟩
  cases step_effect file valid.outside taken with
  | quiet _ _ _ clean => exact unclean clean
  | @acquire t o _ word spinlock spin_down free holds =>
    obtain ⟨up,_⟩ := not_not.mp unclean
    obtain ⟨u,hu⟩ := valid.held o up
    have same := exclusive o u t ((holds u o).mpr (.inl hu)) ((holds t o).mpr (.inr ⟨rfl,rfl⟩))
    exact free (same ▸ hu)
  | spoil word _ _ _ =>
    obtain ⟨up,down⟩ := not_not.mp unclean
    exact word (up.trans down.symm)
  | @release t o _ spinlock spin_down held holds =>
    have up : s.spin_down (file o) = spin_up := not_not.mp unclean
    have empty : ∀ u, ¬ Holds next u o := fun u hu => by
      obtain ⟨hu,other⟩ := (holds u o).mp hu
      exact other ⟨valid.exclusive o u t hu held,rfl⟩
    have zero := released o empty
    simp [spinlock,up,spin_up] at zero

theorem mutual_exclusion_exact {moves : List (Move (State Thread Obj) (Action Thread Obj))}
    (run : Run (Step file) initial moves s) :
    Throughout MutualExclusion moves ↔ Meets (Clean file) moves :=
  run.exact initial_invariant (fun valid taken clean => preserves file valid taken clean)
    Invariant.safe (fun valid taken unclean => unclean_breaks file valid taken unclean)

end

-- Three threads of one pool: all read 0 before the first exchange.
def onePool : Unit → SourceFile := fun _ => .mempool

def racing : List (Action (Fin 3) Unit) :=
  [.lock 0 (),.read 0 (),.lock 1 (),.read 1 (),.lock 2 (),.read 2 (),
   .compare_exchange 0 (),.compare_exchange 1 (),.compare_exchange 2 ()]

-- The second exchange fails and leaves 1 in spin_down, so the unlock stores 1.
def stuck : List (Action (Fin 3) Unit) :=
  [.lock 0 (),.read 0 (),.lock 1 (),.read 1 (),
   .compare_exchange 0 (),.compare_exchange 1 (),.unlock 0 (),.write 0 ()]

theorem uncontended_locks : ∃ moves s,
    Run (Step onePool) (initial : State (Fin 3) Unit) moves s ∧
      moves.map Move.action = [.lock 0 (),.read 0 (),.compare_exchange 0 ()] ∧
      Holds s 0 () ∧ Throughout MutualExclusion moves := by
  obtain ⟨run,actions⟩ := Run.of_execute (advance onePool) initial
    [.lock (0 : Fin 3) (),.read 0 (),.compare_exchange 0 ()] rfl
  refine ⟨_,_,run,actions,.inl rfl,(mutual_exclusion_exact onePool run).mpr ?_⟩
  intro m member
  simp only [List.mem_cons,List.not_mem_nil,or_false] at member
  rcases member with rfl | rfl | rfl <;> simp [Clean,initial,spin_up]

theorem racing_enters_twice :
    (∃ moves s, Run (Step onePool) (initial : State (Fin 3) Unit) moves s ∧
      moves.map Move.action = racing ∧ ¬ Exclusive s) ∧
    (∃ moves s, Run (Step onePool) (initial : State (Fin 3) Unit) moves s ∧
      moves.map Move.action = stuck ∧ ¬ Released s) := by
  constructor
  · obtain ⟨run,actions⟩ := Run.of_execute (advance onePool) initial racing rfl
    refine ⟨_,_,run,actions,fun exclusive => ?_⟩
    exact absurd (exclusive () 0 2 (.inl rfl) (.inl rfl)) (by decide)
  · obtain ⟨run,actions⟩ := Run.of_execute (advance onePool) initial stuck rfl
    refine ⟨_,_,run,actions,fun released => ?_⟩
    refine absurd (released () fun t => ?_) (by decide)
    simp [Holds]
    revert t; decide

end Libcplus.SpinLock

