import Libcplus.Ownership
import Libcplus.Typedef

-- The objects of file.c, with what they acquire and release.
namespace Libcplus.Files
open Ownership Program Typedef

-- O_CREAT
def CPLUS_FILE_FLAG_CREATE : Nat := 64

inductive Kind where
  | block
  | descriptor
  deriving DecidableEq

abbrev Filing (α : Type) := Prog (Ledger Kind) Unit α

def cplus_malloc (granted : Bool) : Filing (Option Nat) := acquire granted .block

def cplus_free (block : Nat) : Filing Unit := release block

-- INVALID_FD and a null pointer are `none`.
structure File where
  block : Nat
  fd : Option Nat
  file_path : Option Nat
  access : Nat
  flag : Nat
  mode : Nat
  data_bufs_size : Nat
  data_bufs : Option Nat
  deriving DecidableEq

-- A close that fails may have released the descriptor or not.
inductive Closing where
  | closed
  | failed (released : Bool)
  deriving DecidableEq

def close (o : Closing) : Option Nat → Filing Int
  | none => return -1
  | some fd =>
    match o with
    | .closed => do
      release fd
      return 0
    | .failed true => do
      release fd
      return -1
    | .failed false => return -1

-- The fsync changes nothing here.
def cplus_file_delete (o : Closing) (f : File) : Filing Int := do
  let res ← close o f.fd
  if res = 0 then do
    whenSome cplus_free f.file_path
    whenSome cplus_free f.data_bufs
    cplus_free f.block
    return res
  else return res

-- What the kernel answers to an open with these flags and this mode, and the two
-- allocations.
structure NewOutcome where
  block : Bool
  opens : Nat → Nat → Bool
  file_path : Bool

def file_initialize_object (o : NewOutcome) (access flag mode : Nat) : Filing (Option File) :=
  demand (cplus_malloc o.block) (return none) fun block =>
    demand (acquire (o.opens (access ||| flag) mode) .descriptor) (do
      let _ ← cplus_file_delete .closed ⟨block,none,none,access,flag,mode,0,none⟩
      return none) fun fd => do
        let file_path ← cplus_malloc o.file_path
        return some ⟨block,some fd,file_path,access,flag,mode,0,none⟩

-- A null path is neither found nor opened.
def cplus_file_open (found : Bool) (opens : Nat → Nat → Bool) (f : File) : Filing (Int × File) :=
  match f.fd with
  | some _ => return (CPLUS_FAIL,f)
  | none =>
    let flag := if f.file_path.isSome && found then f.flag else f.flag ||| CPLUS_FILE_FLAG_CREATE
    demand (acquire (f.file_path.isSome && opens (f.access ||| flag) f.mode) .descriptor) (return (CPLUS_FAIL,f)) fun fd =>
      return (CPLUS_SUCCESS,{f with fd := some fd})

def cplus_file_close (o : Closing) (f : File) : Filing (Int × File) := do
  let res ← close o f.fd
  return (res,if res = 0 then {f with fd := none} else f)

-- What lseek answers for the position and for the end, sysinfo's free memory if it
-- answers, and the allocation.
structure Reading where
  pos : Int
  size : Int
  freeram : Option Nat
  granted : Bool
  deriving DecidableEq

def get_size (o : Reading) (f : File) : Int :=
  if f.fd = none then 0 else if o.pos ≠ -1 then o.size else 0

def is_enough (need_size : Nat) (freeram : Option Nat) : Bool := freeram.any (need_size < ·)

-- What is read into the block is left out.
def cplus_file_get_data (o : Reading) (f : File) : Filing (Option Nat × File) :=
  let f := {f with data_bufs := none}
  let f_size := get_size o f
  if 0 < f_size then
    let f := {f with data_bufs_size := f_size.toNat}
    if is_enough f.data_bufs_size o.freeram then do
      let data_bufs ← cplus_malloc o.granted
      return (data_bufs,{f with data_bufs := data_bufs})
    else return (none,f)
  else return (none,f)

inductive Call where
  | file_open (found : Bool) (opens : Nat → Nat → Bool)
  | file_close (o : Closing)
  | file_get_data (o : Reading)

def Call.perform (f : File) : Call → Filing File
  | .file_open found opens => do return (← cplus_file_open found opens f).2
  | .file_close o => do return (← cplus_file_close o f).2
  | .file_get_data o => do return (← cplus_file_get_data o f).2

def perform : List Call → File → Filing File
  | [],f => return f
  | call :: calls,f => do perform calls (← call.perform f)

def ending (calls : List Call) (last : Closing) (f : File) : Filing Unit := do
  let f ← perform calls f
  let _ ← cplus_file_delete last f
  return ()

-- An object from its new to its delete. A new that fails ends it.
def life (o : NewOutcome) (access flag mode : Nat) (calls : List Call) (last : Closing) : Filing Unit :=
  demand (file_initialize_object o access flag mode) (return ()) (ending calls last)

-- What a call needs of the object, and of the kernel, for nothing to be lost: no close
-- fails with the descriptor gone, and no buffer is forgotten for the next.
def Meets (f : File) : Call → Prop
  | .file_open _ _ => True
  | .file_close o => f.fd = none ∨ o ≠ .failed true
  | .file_get_data _ => f.data_bufs = none

-- A delete needs the file to be open, and a close that succeeds.
def Orderly (last : Closing) : List Call → File → Ledger Kind → Prop
  | [],f,_ => f.fd ≠ none ∧ last = .closed
  | call :: calls,f,s => Meets f call ∧ ∀ g t, call.perform f s = .ok (g,t) → Orderly last calls g t

def owns (f : File) : Multiset Nat :=
  {f.block} + (ownedBy ({·}) f.fd + (ownedBy ({·}) f.file_path + ownedBy ({·}) f.data_bufs))

variable {s t : Ledger Kind} {f g : File} {call : Call} {calls : List Call} {last o : Closing} {number : Nat}

-- What a call can do, whatever the kernel answers.
inductive Effect (s : Ledger Kind) (f : File) : Call → File → Ledger Kind → Prop where
  | idle_open (found : Bool) (opens : Nat → Nat → Bool) : Effect s f (.file_open found opens) f s
  | opened (found : Bool) (opens : Nat → Nat → Bool) (closed : f.fd = none) :
      Effect s f (.file_open found opens) {f with fd := some s.acquired.length} {s with acquired := s.acquired ++ [.descriptor]}
  | idle_close (o : Closing) (kept : f.fd = none ∨ o ≠ .failed true) : Effect s f (.file_close o) f s
  | closed (fd : Nat) (there : f.fd = some fd) :
      Effect s f (.file_close .closed) {f with fd := none} {s with released := s.released ++ [fd]}
  | gone (fd : Nat) (there : f.fd = some fd) :
      Effect s f (.file_close (.failed true)) f {s with released := s.released ++ [fd]}
  | unread (o : Reading) (size : Nat) :
      Effect s f (.file_get_data o) {f with data_bufs_size := size,data_bufs := none} s
  | read (o : Reading) (size : Nat) :
      Effect s f (.file_get_data o) {f with data_bufs_size := size,data_bufs := some s.acquired.length}
        {s with acquired := s.acquired ++ [.block]}

theorem open_effect (found : Bool) (opens : Nat → Nat → Bool) (s : Ledger Kind) (f : File) :
    ∃ g t, Call.perform f (.file_open found opens) s = .ok (g,t) ∧ Effect s f (.file_open found opens) g t := by
  rw [Call.perform,run_bind]
  unfold cplus_file_open
  cases there : f.fd with
  | some fd => exact ⟨f,s,rfl,.idle_open found opens⟩
  | none =>
    dsimp only
    generalize (f.file_path.isSome && opens _ f.mode) = granted
    cases granted with
    | true => exact ⟨_,_,rfl,.opened found opens there⟩
    | false => exact ⟨f,s,rfl,.idle_open found opens⟩

theorem close_effect (o : Closing) (s : Ledger Kind) (f : File) :
    ∃ g t, Call.perform f (.file_close o) s = .ok (g,t) ∧ Effect s f (.file_close o) g t := by
  rw [Call.perform,run_bind,cplus_file_close]
  cases there : f.fd with
  | none => exact ⟨f,s,rfl,.idle_close o (.inl there)⟩
  | some fd =>
    cases o with
    | closed => exact ⟨_,_,rfl,.closed fd there⟩
    | failed released =>
      cases released with
      | false => exact ⟨f,s,rfl,.idle_close _ (.inr nofun)⟩
      | true => exact ⟨f,_,rfl,.gone fd there⟩

theorem get_data_effect (o : Reading) (s : Ledger Kind) (f : File) :
    ∃ g t, Call.perform f (.file_get_data o) s = .ok (g,t) ∧ Effect s f (.file_get_data o) g t := by
  rw [Call.perform,run_bind,cplus_file_get_data]
  dsimp only
  split
  · split
    · cases granted : o.granted with
      | true => exact ⟨_,_,rfl,.read o _⟩
      | false => exact ⟨_,s,rfl,.unread o _⟩
    · exact ⟨_,s,rfl,.unread o _⟩
  · exact ⟨_,s,rfl,.unread o f.data_bufs_size⟩

theorem perform_effect (call : Call) (s : Ledger Kind) (f : File) :
    ∃ g t, call.perform f s = .ok (g,t) ∧ Effect s f call g t := by
  cases call with
  | file_open found opens => exact open_effect found opens s f
  | file_close o => exact close_effect o s f
  | file_get_data o => exact get_data_effect o s f

-- How often a resource was released or is still held by the object.
def weight (s : Ledger Kind) (f : File) (number : Nat) : Nat := s.released.count number + (owns f).count number

theorem part_count (part : Option Nat) (number : Nat) :
    (ownedBy ({·}) part : Multiset Nat).count number = if part = some number then 1 else 0 := by
  cases part with
  | none => rfl
  | some held => simp [Multiset.count_singleton,eq_comm]

theorem owns_count (f : File) (number : Nat) : (owns f).count number = (if f.block = number then 1 else 0) +
    ((if f.fd = some number then 1 else 0) + ((if f.file_path = some number then 1 else 0) +
      if f.data_bufs = some number then 1 else 0)) := by
  simp only [owns,Multiset.count_add,part_count,Multiset.count_singleton,eq_comm]

theorem holds_iff : Holds s (owns f) ↔ ∀ number, weight s f number = if number < s.acquired.length then 1 else 0 := by
  constructor
  · intro holds number
    exact holds_count holds number
  · intro weights
    refine Multiset.ext.mpr fun number => ?_
    rw [Multiset.count_add,Multiset.coe_count]
    refine Eq.trans ?_ (weights number).symm
    split
    · exact Multiset.count_eq_one_of_mem (Multiset.nodup_range _) (Multiset.mem_range.mpr ‹_›)
    · exact Multiset.count_eq_zero.mpr fun there => ‹¬ _› (Multiset.mem_range.mp there)

theorem effect_holds (holds : Holds s (owns f)) (effect : Effect s f call g t) (meets : Meets f call) : Holds t (owns g) := by
  rw [holds_iff] at holds ⊢
  intro number
  have weighed := holds number
  unfold weight at weighed ⊢
  rw [owns_count] at weighed ⊢
  cases effect with
  | idle_open => exact weighed
  | idle_close => exact weighed
  | opened _ _ closed =>
    simp only [List.length_append,List.length_singleton,Option.some.injEq]
    grind
  | closed fd there =>
    simp only [List.count_append,List.count_singleton]
    grind
  | gone fd there =>
    obtain shut | other := meets
    · exact absurd (there.symm.trans shut) nofun
    · exact absurd rfl other
  | unread o size =>
    have empty : f.data_bufs = none := meets
    grind
  | read o size =>
    have empty : f.data_bufs = none := meets
    simp only [List.length_append,List.length_singleton,Option.some.injEq]
    grind

-- The object's own block is not released before its delete.
structure Kept (s : Ledger Kind) (f : File) : Prop where
  acquired : f.block < s.acquired.length
  unreleased : f.block ∉ s.released
  apart : f.fd ≠ some f.block

-- The descriptor is not the block.
theorem Kept.apart_from {fd : Nat} (kept : Kept s f) (there : f.fd = some fd) : f.block ∉ s.released ++ [fd] := by
  intro released
  rcases List.mem_append.mp released with before | now
  · exact kept.unreleased before
  · exact kept.apart (there.trans (congrArg some (List.mem_singleton.mp now).symm))

theorem effect_kept (kept : Kept s f) (effect : Effect s f call g t) : Kept t g := by
  have ⟨acquired,unreleased,apart⟩ := kept
  cases effect with
  | idle_open => exact kept
  | idle_close => exact kept
  | opened _ _ closed =>
    refine ⟨by simp; omega,unreleased,?_⟩
    intro same
    exact Nat.ne_of_gt acquired (Option.some.inj same)
  | closed fd there => exact ⟨acquired,kept.apart_from there,nofun⟩
  | gone fd there => exact ⟨acquired,kept.apart_from there,apart⟩
  | unread o size => exact ⟨acquired,unreleased,apart⟩
  | read o size => exact ⟨by simp; omega,unreleased,apart⟩

-- Something is held by nobody, or it was released and the object still has it.
inductive Broken (s : Ledger Kind) (f : File) : Prop where
  | lost (number : Nat) (acquired : number < s.acquired.length) (gone : weight s f number = 0)
  | twice (number : Nat) (acquired : number < s.acquired.length) (more : 2 ≤ weight s f number)
      (descriptor : f.data_bufs ≠ some number)

theorem effect_grows (effect : Effect s f call g t) : s.acquired.length ≤ t.acquired.length := by
  cases effect <;> simp

-- What nobody holds is not found again.
theorem lost_stays (effect : Effect s f call g t) (acquired : number < s.acquired.length) (gone : weight s f number = 0) :
    weight t g number = 0 := by
  unfold weight at gone ⊢
  rw [owns_count] at gone ⊢
  cases effect <;> grind

-- Only a buffer can be forgotten, and the next one is a new one.
theorem twice_stays (effect : Effect s f call g t) (acquired : number < s.acquired.length)
    (descriptor : f.data_bufs ≠ some number) : weight s f number ≤ weight t g number ∧ g.data_bufs ≠ some number := by
  unfold weight
  rw [owns_count,owns_count]
  cases effect <;> grind

theorem effect_broken (broken : Broken s f) (effect : Effect s f call g t) : Broken t g := by
  have grows := effect_grows effect
  cases broken with
  | lost number acquired gone => exact .lost number (by omega) (lost_stays effect acquired gone)
  | twice number acquired more descriptor =>
    obtain ⟨kept,still⟩ := twice_stays effect acquired descriptor
    exact .twice number (by omega) (Nat.le_trans more kept) still

-- What is in order is held or released once.
theorem holds_weight (holds : Holds s (owns f)) (there : 0 < weight s f number) :
    number < s.acquired.length ∧ weight s f number = 1 := by
  have weighed := holds_iff.mp holds number
  split at weighed
  · exact ⟨‹_›,weighed⟩
  · omega

-- A buffer that the object has is lost when it takes another one or none.
theorem forgotten {size : Nat} {data_bufs : Option Nat} (holds : Holds s (owns f)) (breaks : f.data_bufs ≠ none)
    (released : t.released = s.released) (grows : s.acquired.length ≤ t.acquired.length)
    (fresh : ∀ held < s.acquired.length, data_bufs ≠ some held) :
    Broken t {f with data_bufs_size := size,data_bufs := data_bufs} := by
  obtain ⟨held,there⟩ := Option.ne_none_iff_exists'.mp breaks
  obtain ⟨acquired,once⟩ : held < s.acquired.length ∧ weight s f held = 1 := holds_weight holds (by grind [weight,owns_count])
  have apart := fresh held acquired
  unfold weight at once
  rw [owns_count] at once
  refine .lost held (Nat.lt_of_lt_of_le acquired grows) ?_
  unfold weight
  rw [owns_count,released]
  grind

-- A call that does not meet its condition breaks what was in order.
theorem violated (holds : Holds s (owns f)) (effect : Effect s f call g t) (breaks : ¬ Meets f call) : Broken t g := by
  have grows := effect_grows effect
  cases effect with
  | idle_open => exact absurd trivial breaks
  | opened => exact absurd trivial breaks
  | idle_close _ kept => exact absurd kept breaks
  | closed => exact absurd (.inr nofun) breaks
  | gone fd there =>
    obtain ⟨acquired,once⟩ : fd < s.acquired.length ∧ weight s f fd = 1 := holds_weight holds (by grind [weight,owns_count])
    unfold weight at once
    rw [owns_count] at once
    refine .twice fd acquired ?_ (by grind)
    unfold weight
    rw [owns_count]
    grind
  | unread o size => exact forgotten holds breaks rfl grows fun _ _ => nofun
  | read o size =>
    refine forgotten holds breaks rfl grows fun held acquired same => ?_
    exact Nat.ne_of_gt acquired (Option.some.inj same)

theorem free_part (part : Option Nat) (s : Ledger Kind) : ∃ t, whenSome cplus_free part s = .ok ((),t) ∧
    t.acquired = s.acquired ∧ ∀ number, t.released.count number = s.released.count number + if part = some number then 1 else 0 := by
  cases part with
  | none => exact ⟨s,rfl,rfl,fun _ => rfl⟩
  | some block =>
    refine ⟨_,rfl,rfl,fun number => ?_⟩
    rw [List.count_append,List.count_singleton]
    grind

-- A delete whose close succeeds gives up all that the object has.
theorem delete_done (there : f.fd ≠ none) : ∃ t, cplus_file_delete .closed f s = .ok (0,t) ∧ t.acquired = s.acquired ∧
    ∀ number, t.released.count number = weight s f number := by
  obtain ⟨fd,there⟩ := Option.ne_none_iff_exists'.mp there
  obtain ⟨u,path,same,counts⟩ := free_part f.file_path {s with released := s.released ++ [fd]}
  obtain ⟨v,data,again,freed⟩ := free_part f.data_bufs u
  refine ⟨{v with released := v.released ++ [f.block]},?_,again.trans same,fun number => ?_⟩
  · rw [cplus_file_delete,there]
    have closes : close .closed (some fd) s = .ok (0,{s with released := s.released ++ [fd]}) := rfl
    rw [bind_ok closes,if_pos rfl,bind_ok path,bind_ok data]
    rfl
  · rw [weight,owns_count,List.count_append,List.count_singleton,freed,counts,List.count_append,List.count_singleton]
    grind

theorem delete_fails (fails : ¬ (f.fd ≠ none ∧ last = .closed)) (kept : Kept s f) : ∃ res t,
    cplus_file_delete last f s = .ok (res,t) ∧ t.acquired = s.acquired ∧ f.block ∉ t.released := by
  rw [cplus_file_delete]
  cases there : f.fd with
  | none => exact ⟨-1,s,rfl,rfl,kept.unreleased⟩
  | some fd =>
    cases last with
    | closed => exact absurd ⟨there ▸ nofun,rfl⟩ fails
    | failed released =>
      cases released with
      | false => exact ⟨-1,s,rfl,rfl,kept.unreleased⟩
      | true => exact ⟨-1,_,rfl,rfl,kept.apart_from there⟩

theorem ending_cons (ran : call.perform f s = .ok (g,t)) :
    ending (call :: calls) last f s = ending calls last g t := by
  rw [ending,perform,bind_assoc,bind_ok ran]
  rfl

theorem ending_nil {res : Int} (ran : cplus_file_delete last f s = .ok (res,t)) : ending [] last f s = .ok ((),t) := by
  rw [ending,perform,pure_bind,bind_ok ran]
  rfl

-- Where the object's block stays behind not everything is released.
theorem block_left (acquired : f.block < t.acquired.length) (left : f.block ∉ t.released) : ¬ ReleasedOnce t := by
  intro once
  have released := once f.block acquired
  rw [List.count_eq_zero.mpr left] at released
  cases released

theorem broken_ends (calls : List Call) (last : Closing) (kept : Kept s f) (broken : Broken s f) :
    ∃ t, ending calls last f s = .ok ((),t) ∧ ¬ ReleasedOnce t := by
  induction calls generalizing s f with
  | nil =>
    by_cases closes : f.fd ≠ none ∧ last = .closed
    · obtain ⟨there,rfl⟩ := closes
      obtain ⟨t,deleted,same,counts⟩ := delete_done (s := s) there
      refine ⟨t,ending_nil deleted,fun once => ?_⟩
      cases broken with
      | lost number acquired gone =>
        have released := once number (same ▸ acquired)
        rw [counts,gone] at released
        cases released
      | twice number acquired more =>
        have released := once number (same ▸ acquired)
        rw [counts] at released
        omega
    · obtain ⟨res,t,deleted,same,left⟩ := delete_fails closes kept
      exact ⟨t,ending_nil deleted,block_left (same ▸ kept.acquired) left⟩
  | cons call calls ih =>
    obtain ⟨g,t,ran,effect⟩ := perform_effect call s f
    obtain ⟨u,ended,never⟩ := ih (effect_kept kept effect) (effect_broken broken effect)
    exact ⟨u,(ending_cons ran).trans ended,never⟩

theorem ending_exact (calls : List Call) (last : Closing) (kept : Kept s f) (holds : Holds s (owns f)) :
    ∃ t, ending calls last f s = .ok ((),t) ∧ (ReleasedOnce t ↔ Orderly last calls f s) := by
  induction calls generalizing s f with
  | nil =>
    by_cases closes : f.fd ≠ none ∧ last = .closed
    · obtain ⟨there,rfl⟩ := id closes
      obtain ⟨t,deleted,same,counts⟩ := delete_done (s := s) there
      refine ⟨t,ending_nil deleted,iff_of_true ?_ closes⟩
      intro number acquired
      rw [counts,holds_iff.mp holds number,if_pos (same ▸ acquired)]
    · obtain ⟨res,t,deleted,same,left⟩ := delete_fails closes kept
      exact ⟨t,ending_nil deleted,iff_of_false (block_left (same ▸ kept.acquired) left) closes⟩
  | cons call calls ih =>
    obtain ⟨g,t,ran,effect⟩ := perform_effect call s f
    by_cases meets : Meets f call
    · obtain ⟨u,ended,once⟩ := ih (effect_kept kept effect) (effect_holds holds effect meets)
      refine ⟨u,(ending_cons ran).trans ended,once.trans ⟨?_,?_⟩⟩
      · intro orderly
        refine ⟨meets,fun g' t' again => ?_⟩
        cases ran.symm.trans again
        exact orderly
      · intro orderly
        exact orderly.2 g t ran
    · obtain ⟨u,ended,never⟩ := broken_ends calls last (effect_kept kept effect) (violated holds effect meets)
      exact ⟨u,(ending_cons ran).trans ended,iff_of_false never fun orderly => meets orderly.1⟩

variable {access flag mode : Nat}

theorem new_fails (o : NewOutcome) (refused : o.block = false) :
    file_initialize_object o access flag mode opened = .ok (none,opened) := by
  rw [file_initialize_object,cplus_malloc,refused]
  rfl

-- The delete of an object that was not opened gives up.
theorem new_leaks (o : NewOutcome) (granted : o.block = true) (refused : o.opens (access ||| flag) mode = false) :
    file_initialize_object o access flag mode opened = .ok (none,⟨[.block],[]⟩) := by
  rw [file_initialize_object,cplus_malloc,granted,refused]
  rfl

theorem new_opens (o : NewOutcome) (granted : o.block = true) (opens : o.opens (access ||| flag) mode = true) :
    ∃ f s, file_initialize_object o access flag mode opened = .ok (some f,s) ∧ Kept s f ∧ Holds s (owns f) := by
  cases path : o.file_path with
  | false =>
    refine ⟨⟨0,some 1,none,access,flag,mode,0,none⟩,⟨[.block,.descriptor],[]⟩,?_,?_,?_⟩
    · rw [file_initialize_object,cplus_malloc,granted,opens,path]
      rfl
    · exact ⟨Nat.zero_lt_succ _,List.not_mem_nil,fun same => nomatch same⟩
    · rfl
  | true =>
    refine ⟨⟨0,some 1,some 2,access,flag,mode,0,none⟩,⟨[.block,.descriptor,.block],[]⟩,?_,?_,?_⟩
    · rw [file_initialize_object,cplus_malloc,granted,opens,path]
      rfl
    · exact ⟨Nat.zero_lt_succ _,List.not_mem_nil,fun same => nomatch same⟩
    · rfl

-- Every object that is made, used and deleted.
theorem file_exact (o : NewOutcome) (access flag mode : Nat) (calls : List Call) (last : Closing) :
    ∃ t, life o access flag mode calls last opened = .ok ((),t) ∧
      (ReleasedOnce t ↔ (o.block = true → o.opens (access ||| flag) mode = true) ∧
        ∀ f s, file_initialize_object o access flag mode opened = .ok (some f,s) → Orderly last calls f s) := by
  cases granted : o.block with
  | false =>
    have fails : file_initialize_object o access flag mode opened = .ok (none,opened) := new_fails o granted
    refine ⟨opened,?_,iff_of_true nofun ⟨nofun,fun f s made => ?_⟩⟩
    · rw [life,demand,bind_ok fails]
      rfl
    · cases fails.symm.trans made
  | true =>
    cases opens : o.opens (access ||| flag) mode with
    | false =>
      have leaks := new_leaks o granted opens
      refine ⟨⟨[.block],[]⟩,?_,iff_of_false ?_ ?_⟩
      · rw [life,demand,bind_ok leaks]
        rfl
      · intro once
        exact absurd (once 0 (by decide)) (by decide)
      · intro both
        exact absurd (both.1 rfl) nofun
    | true =>
      obtain ⟨f,s,made,kept,holds⟩ := new_opens o granted opens
      obtain ⟨t,ended,once⟩ := ending_exact calls last kept holds
      refine ⟨t,?_,once.trans ⟨?_,?_⟩⟩
      · rw [life,demand,bind_ok made]
        exact ended
      · intro orderly
        refine ⟨fun _ => rfl,fun g u again => ?_⟩
        cases made.symm.trans again
        exact orderly
      · intro both
        exact both.2 f s made

-- A path that cannot be opened: the object's block stays behind.
theorem unopened_leaks : ¬ ∀ (o : NewOutcome) (access flag mode : Nat) (calls : List Call) (last : Closing) (t : Ledger Kind),
    life o access flag mode calls last opened = .ok ((),t) → ReleasedOnce t := by
  intro claim
  have once := claim ⟨true,fun _ _ => false,true⟩ 0 0 0 [] .closed _ rfl
  exact absurd (once 0 (by decide)) (by decide)

end Libcplus.Files
