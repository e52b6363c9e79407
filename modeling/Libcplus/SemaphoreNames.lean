import Libcplus.Registry
import Libcplus.Sharedmem

-- The named semaphores of all processes.
namespace Libcplus.SemaphoreNames
open Registry Transition

-- struct semaphore in the process `pid`. SEM_FAILED is none. The process that made the
-- object is not in the struct: what a child has of its parent's objects is the same
-- to it as its own.
structure Semaphore (ν : Type) where
  pid : Nat
  maker : Nat
  creation : Creation
  phase : Phase
  name : ν
  psem : Option Nat
  is_owner : Bool
  deriving DecidableEq

-- A sem_unlink by an object of this semaphore, and the semaphore whose name it removed.
structure Unlink where
  psem : Option Nat
  hit : Option Nat
  deriving DecidableEq

structure System (ν : Type) where
  names : Table ν
  objects : List (Semaphore ν)
  unlinks : List Unlink

def start (ν : Type) : System ν := ⟨empty,[],[]⟩

inductive Action (ν : Type) where
  | malloc (pid : Nat) (creation : Creation) (name : ν)
  | sem_open (k : Nat) (granted : Bool)
  | delete (k : Nat)
  | fork (parent child : Nat)
  | exit (pid : Nat)

variable {ν : Type}

def set_object (s : System ν) (k : Nat) (sema : Semaphore ν) : System ν := {s with objects := s.objects.set k sema}

def fail (s : System ν) (k : Nat) (sema : Semaphore ν) : System ν := set_object s k {sema with phase := .gone}

-- O_CREAT with O_EXCL.
def make_semaphore [DecidableEq ν] (s : System ν) (k : Nat) (sema : Semaphore ν) : System ν :=
  {set_object s k {sema with phase := .live,psem := some s.names.made,is_owner := true} with names := s.names.enter sema.name}

def find_semaphore (s : System ν) (k : Nat) (sema : Semaphore ν) (psem : Nat) : System ν :=
  set_object s k {sema with phase := .live,psem := some psem}

-- `new` is `open` first; after an ENOENT it makes another object with `create`.
def sem_open [DecidableEq ν] (s : System ν) (k : Nat) (granted : Bool) (sema : Semaphore ν) : System ν :=
  if granted then
    match sema.creation,s.names.bound sema.name with
    | .create,none => make_semaphore s k sema
    | .create,some _ => fail s k sema
    | .opening,none => fail s k sema
    | .opening,some psem => find_semaphore s k sema psem
    | .new,none => set_object s k {sema with creation := .create}
    | .new,some psem => find_semaphore s k sema psem
  else fail s k sema

def cplus_semaphore_delete [DecidableEq ν] (s : System ν) (k : Nat) (sema : Semaphore ν) : System ν :=
  if sema.is_owner then
    {set_object s k {sema with phase := .gone} with
      names := s.names.unlink sema.name
      unlinks := s.unlinks ++ [⟨sema.psem,s.names.bound sema.name⟩]}
  else set_object s k {sema with phase := .gone}

-- A child has copies of the objects of its parent.
def copies (s : System ν) (parent child : Nat) : List (Semaphore ν) :=
  (s.objects.filter fun sema => sema.pid = parent ∧ sema.phase = .live).map fun sema => {sema with pid := child}

def end_process (pid : Nat) (sema : Semaphore ν) : Semaphore ν := if sema.pid = pid then {sema with phase := .gone} else sema

def object_step (s : System ν) (k : Nat) (phase : Phase) (next : Semaphore ν → System ν) : Option (System ν) :=
  (s.objects[k]?).bind fun sema => if sema.phase = phase then some (next sema) else none

def advance [DecidableEq ν] (s : System ν) : Action ν → Option (System ν)
  | .malloc pid creation name => some {s with objects := s.objects ++ [⟨pid,pid,creation,.named,name,none,false⟩]}
  | .sem_open k granted => object_step s k .named (sem_open s k granted)
  | .delete k => object_step s k .live (cplus_semaphore_delete s k)
  | .fork parent child =>
    if s.objects.any fun sema => sema.pid = child ∧ sema.phase ≠ .gone then none
    else some {s with objects := s.objects ++ copies s parent child}
  | .exit pid => some {s with objects := s.objects.map (end_process pid)}

-- A child does not get the number of a process whose objects it may have copies of.
def Fresh (s : System ν) : Action ν → Prop
  | .fork _ child => ∀ sema ∈ s.objects, sema.maker ≠ child
  | _ => True

-- An owner in the process that made it.
def Maker (sema : Semaphore ν) : Prop := sema.phase = .live ∧ sema.is_owner = true ∧ sema.pid = sema.maker

instance (sema : Semaphore ν) : Decidable (Maker sema) := inferInstanceAs (Decidable (_ ∧ _))

-- A child deletes its copy of an owner only when the maker's is gone and the name is
-- still that of this semaphore.
def Rightful (s : System ν) : Action ν → Prop
  | .delete k => ∀ sema ∈ s.objects[k]?, sema.is_owner = true → sema.pid ≠ sema.maker →
    s.names.bound sema.name = sema.psem ∧ ∀ other ∈ s.objects, Maker other → other.psem ≠ sema.psem
  | _ => True

structure Consistent (s : System ν) : Prop where
  -- Each sem_unlink removed the name of its object's own semaphore.
  unlinks : ∀ u ∈ s.unlinks, ∃ psem, u.psem = some psem ∧ u.hit = some psem
  -- As long as its maker is there, a name stands for the maker's semaphore.
  makers : ∀ sema ∈ s.objects, Maker sema → ∃ psem, sema.psem = some psem ∧ s.names.bound sema.name = some psem

-- The name that an object is there to remove, with its semaphore.
def claim (sema : Semaphore ν) : Option (ν × Nat) :=
  if Maker sema then sema.psem.map fun psem => (sema.name,psem) else none

abbrev System.claims (s : System ν) : Nat → Option (ν × Nat) := Registry.claims claim s.objects

structure Holding (made : Nat) (sema : Semaphore ν) : Prop where
  named : sema.phase = .named → sema.is_owner = false ∧ sema.pid = sema.maker
  old : ∀ {psem}, sema.psem = some psem → psem < made
  owner : sema.is_owner = true → ∃ psem, sema.psem = some psem

structure Sound (s : System ν) : Prop where
  kept : Kept s.names s.claims
  each : ∀ sema ∈ s.objects, Holding s.names.made sema
  unlinks : ∀ u ∈ s.unlinks, ∃ psem, u.psem = some psem ∧ u.hit = some psem

variable {s t : System ν} {sema next : Semaphore ν} {k psem : Nat}

theorem claim_of (maker : Maker sema) (there : sema.psem = some psem) : claim sema = some (sema.name,psem) := by
  unfold claim
  rw [if_pos maker,there]
  rfl

theorem claim_parts {name : ν} (mine : claim sema = some (name,psem)) :
    Maker sema ∧ sema.psem = some psem ∧ sema.name = name := by
  unfold claim at mine
  split at mine
  · obtain ⟨_,there,same⟩ := Option.map_eq_some_iff.mp mine
    cases same
    exact ⟨‹_›,there,rfl⟩
  · cases mine

theorem claim_none (other : ¬ Maker sema) : claim sema = none := if_neg other

-- An object that is not alive, and one that is no owner, makes no claim.
theorem not_live (phase : sema.phase ≠ .live) : ¬ Maker sema := fun maker => phase maker.1

theorem not_owner (foreign : sema.is_owner = false) : ¬ Maker sema := by
  intro maker
  have owner := maker.2.1
  rw [foreign] at owner
  cases owner

theorem claims_moved (here : s.objects[k]? = some sema) (next : Semaphore ν) :
    (set_object s k next).claims = Function.update s.claims k (claim next) := claims_set here next

theorem claims_kept (here : s.objects[k]? = some sema) (same : claim next = claim sema) :
    (set_object s k next).claims = s.claims := claims_same here same

theorem set_sound (sound : Sound s) (here : s.objects[k]? = some sema) (same : claim next = claim sema)
    (holding : Holding s.names.made next) : Sound (set_object s k next) where
  kept := by
    rw [claims_kept here same]
    exact sound.kept
  each := by
    intro x member
    rcases List.mem_or_eq_of_mem_set member with early | rfl
    · exact sound.each x early
    · exact holding
  unlinks := sound.unlinks

theorem Holding.ended {made : Nat} (holding : Holding made sema) : Holding made {sema with phase := .gone} :=
  ⟨nofun,holding.old,holding.owner⟩

-- Before sem_open an object has nothing.
theorem named_sound (sound : Sound s) (here : s.objects[k]? = some sema) (named : sema.phase = .named) (other : ¬ Maker next)
    (holding : Holding s.names.made next) : Sound (set_object s k next) := by
  apply set_sound sound here _ holding
  rw [claim_none other,claim_none (not_live (by simp [named]))]

theorem fail_sound (sound : Sound s) (here : s.objects[k]? = some sema) (named : sema.phase = .named) : Sound (fail s k sema) :=
  named_sound sound here named (not_live (by simp)) (sound.each sema (List.mem_of_getElem? here)).ended

theorem find_sound (sound : Sound s) (here : s.objects[k]? = some sema) (named : sema.phase = .named)
    (bound : s.names.bound sema.name = some psem) : Sound (find_semaphore s k sema psem) := by
  have foreign := ((sound.each sema (List.mem_of_getElem? here)).named named).1
  have other : ¬ Maker {sema with phase := .live,psem := some psem} := not_owner foreign
  refine named_sound sound here named other ⟨nofun,?_,fun _ => ⟨psem,rfl⟩⟩
  intro psem there
  cases there
  exact sound.kept.old bound

theorem more_sound (sound : Sound s) {more : List (Semaphore ν)} (idle : ∀ x ∈ more, claim x = none)
    (holding : ∀ x ∈ more, Holding s.names.made x) : Sound {s with objects := s.objects ++ more} where
  kept := by
    have same : System.claims {s with objects := s.objects ++ more} = s.claims := claims_more idle
    exact same ▸ sound.kept
  each := by
    intro x member
    rcases List.mem_append.mp member with early | last
    · exact sound.each x early
    · exact holding x last
  unlinks := sound.unlinks

theorem malloc_sound (sound : Sound s) (pid : Nat) (creation : Creation) (name : ν) :
    Sound {s with objects := s.objects ++ [⟨pid,pid,creation,.named,name,none,false⟩]} := by
  apply more_sound sound
  · intro x member
    rw [List.mem_singleton.mp member]
    rfl
  · intro x member
    rw [List.mem_singleton.mp member]
    exact ⟨fun _ => ⟨rfl,rfl⟩,nofun,nofun⟩

-- A copy in a child makes no claim.
theorem fork_sound (sound : Sound s) {parent child : Nat} (fresh : ∀ y ∈ s.objects, y.maker ≠ child) :
    Sound {s with objects := s.objects ++ copies s parent child} := by
  have copied {x : Semaphore ν} (member : x ∈ copies s parent child) :
      ∃ y ∈ s.objects, y.phase = .live ∧ x = {y with pid := child} := by
    obtain ⟨y,there,rfl⟩ := List.mem_map.mp member
    obtain ⟨there,live⟩ := List.mem_filter.mp there
    exact ⟨y,there,(of_decide_eq_true live).2,rfl⟩
  apply more_sound sound
  · intro x member
    obtain ⟨y,there,_,rfl⟩ := copied member
    exact claim_none fun maker => fresh y there maker.2.2.symm
  · intro x member
    obtain ⟨y,there,live,rfl⟩ := copied member
    have holding := sound.each y there
    exact ⟨by simp [live],holding.old,holding.owner⟩

theorem exit_sound (sound : Sound s) (pid : Nat) : Sound {s with objects := s.objects.map (end_process pid)} where
  kept := by
    apply sound.kept.fewer
    intro j c mine
    refine claims_map ?_ mine
    intro x c mine
    unfold end_process at mine
    split at mine
    · rw [claim_none (not_live (by simp))] at mine
      cases mine
    · exact mine
  each := by
    intro x member
    obtain ⟨y,there,rfl⟩ := List.mem_map.mp member
    unfold end_process
    split
    · exact (sound.each y there).ended
    · exact sound.each y there
  unlinks := sound.unlinks

theorem object_parts {phase : Phase} {step : Semaphore ν → System ν} (taken : object_step s k phase step = some t) :
    ∃ sema, s.objects[k]? = some sema ∧ sema.phase = phase ∧ t = step sema := by
  unfold object_step at taken
  obtain ⟨sema,here,taken⟩ := Option.bind_eq_some_iff.mp taken
  split at taken
  · cases taken
    exact ⟨sema,here,‹_›,rfl⟩
  · cases taken

theorem Sound.consistent (sound : Sound s) : Consistent s where
  unlinks := sound.unlinks
  makers := by
    intro sema member maker
    obtain ⟨k,here⟩ := List.mem_iff_getElem?.mp member
    obtain ⟨psem,there⟩ := (sound.each sema member).owner maker.2.1
    exact ⟨psem,there,sound.kept.holds ((claims_at here).trans (claim_of maker there))⟩

variable [DecidableEq ν]

theorem make_sound (sound : Sound s) (here : s.objects[k]? = some sema) (named : sema.phase = .named)
    (free : s.names.bound sema.name = none) : Sound (make_semaphore s k sema) where
  kept := by
    have holding := sound.each sema (List.mem_of_getElem? here)
    have now : (make_semaphore s k sema).claims = Function.update s.claims k (some (sema.name,s.names.made)) := by
      refine (claims_moved here _).trans (congrArg _ ?_)
      exact claim_of ⟨rfl,rfl,(holding.named named).2⟩ rfl
    rw [now]
    exact sound.kept.enter free
  each := by
    intro x member
    rcases List.mem_or_eq_of_mem_set member with early | rfl
    · have holding := sound.each x early
      exact ⟨holding.named,fun there => Nat.lt_succ_of_lt (holding.old there),holding.owner⟩
    · refine ⟨nofun,?_,fun _ => ⟨_,rfl⟩⟩
      intro psem there
      cases there
      exact Nat.lt_succ_self _
  unlinks := sound.unlinks

theorem open_sound (sound : Sound s) (here : s.objects[k]? = some sema) (named : sema.phase = .named) (granted : Bool) :
    Sound (sem_open s k granted sema) := by
  have failed : Sound (fail s k sema) := fail_sound sound here named
  unfold sem_open
  split
  · split
    · exact make_sound sound here named ‹_›
    · exact failed
    · exact failed
    · exact find_sound sound here named ‹_›
    · have holding := sound.each sema (List.mem_of_getElem? here)
      exact named_sound sound here named (not_live (by simp [named])) ⟨holding.named,holding.old,holding.owner⟩
    · exact find_sound sound here named ‹_›
  · exact failed

-- A sem_unlink of the object's own name, when the claims that are left are such.
theorem unlink_sound (sound : Sound s) (here : s.objects[k]? = some sema) (there : sema.psem = some psem)
    (bound : s.names.bound sema.name = some psem)
    (kept : Kept (s.names.unlink sema.name) (set_object s k {sema with phase := .gone}).claims) :
    Sound {set_object s k {sema with phase := .gone} with
      names := s.names.unlink sema.name
      unlinks := s.unlinks ++ [⟨sema.psem,s.names.bound sema.name⟩]} where
  kept := kept
  each := by
    intro x member
    rcases List.mem_or_eq_of_mem_set member with early | rfl
    · exact sound.each x early
    · exact (sound.each sema (List.mem_of_getElem? here)).ended
  unlinks := by
    intro u member
    rcases List.mem_append.mp member with early | last
    · exact sound.unlinks u early
    · rw [List.mem_singleton.mp last]
      exact ⟨psem,there,bound⟩

theorem delete_sound (sound : Sound s) (here : s.objects[k]? = some sema) (live : sema.phase = .live)
    (rightful : Rightful s (.delete k)) : Sound (cplus_semaphore_delete s k sema) := by
  have member := List.mem_of_getElem? here
  have idle : claim {sema with phase := .gone} = none := claim_none (not_live (by simp))
  unfold cplus_semaphore_delete
  split
  · rename_i owner
    obtain ⟨psem,there⟩ := (sound.each sema member).owner owner
    by_cases maker : sema.pid = sema.maker
    · have mine : s.claims k = some (sema.name,psem) := (claims_at here).trans (claim_of ⟨live,owner,maker⟩ there)
      apply unlink_sound sound here there (sound.kept.holds mine)
      rw [claims_moved here,idle]
      exact sound.kept.unlink mine
    · obtain ⟨bound,sole⟩ := rightful sema here owner maker
      rw [there] at bound
      apply unlink_sound sound here there bound
      rw [claims_kept here (idle.trans (claim_none fun others => maker others.2.2).symm)]
      apply sound.kept.unlink_free
      intro i object mine
      obtain ⟨other,found,mine⟩ := Option.bind_eq_some_iff.mp mine
      obtain ⟨its,psem,_⟩ := claim_parts mine
      have same := sound.kept.holds ((claims_at found).trans mine)
      rw [bound] at same
      exact sole other (List.mem_of_getElem? found) its (by rw [psem,there,same])
  · rename_i foreign
    apply set_sound sound here _ (sound.each sema member).ended
    rw [idle,claim_none (not_owner (by simpa using foreign))]

theorem step_sound {action : Action ν} (sound : Sound s) (taken : advance s action = some t) (fresh : Fresh s action)
    (rightful : Rightful s action) : Sound t := by
  cases action with
  | malloc pid creation name =>
    cases taken
    exact malloc_sound sound pid creation name
  | sem_open k granted =>
    obtain ⟨sema,here,named,rfl⟩ := object_parts taken
    exact open_sound sound here named granted
  | delete k =>
    obtain ⟨sema,here,live,rfl⟩ := object_parts taken
    exact delete_sound sound here live rightful
  | fork parent child =>
    simp only [advance] at taken
    split at taken
    · cases taken
    · cases taken
      exact fork_sound sound fresh
  | exit pid =>
    cases taken
    exact exit_sound sound pid

theorem start_sound (ν : Type) : Sound (start ν) := ⟨kept_empty,nofun,nofun⟩

-- A copy that is deleted takes the name from its maker, or from a semaphore that has
-- nothing to do with it.
theorem delete_breaks (sound : Sound s) (taken : advance s (.delete k) = some t) (wrong : ¬ Rightful s (.delete k)) :
    ¬ Consistent t := by
  intro consistent
  obtain ⟨sema,here,live,rfl⟩ := object_parts taken
  simp only [Rightful,not_forall] at wrong
  obtain ⟨copy,found,owner,apart,wrong⟩ := wrong
  obtain rfl : sema = copy := Option.some.inj (here.symm.trans found)
  rw [cplus_semaphore_delete,if_pos owner] at consistent
  obtain ⟨psem,there,hit⟩ := consistent.unlinks _ (List.mem_append_right _ (List.mem_singleton_self _))
  apply wrong
  refine ⟨hit.trans there.symm,fun other member maker same => ?_⟩
  obtain ⟨j,at_j⟩ := List.mem_iff_getElem?.mp member
  have different : k ≠ j := by
    rintro rfl
    rw [here] at at_j
    cases at_j
    exact apart maker.2.2
  have stays : other ∈ s.objects.set k {sema with phase := .gone} := by
    apply List.mem_of_getElem?
    rw [List.getElem?_set_ne different,at_j]
  obtain ⟨_,_,bound⟩ := consistent.makers other stays maker
  have its := sound.kept.holds ((claims_at at_j).trans (claim_of maker (same.trans there)))
  rw [sound.kept.single its hit] at bound
  cases (unlink_self s.names sema.name).symm.trans bound

-- No name is taken from a semaphore by an object of another one, or while its maker is
-- there, exactly when no child deletes a copy of an owner too early or too late.
theorem owners_exact {moves : List (Move (System ν) (Action ν))} (run : Run (Follows advance) (start ν) moves s)
    (fresh : Meets Fresh moves) : Throughout Consistent moves ↔ Meets Rightful moves := by
  apply (run.meeting fresh).exact (start_sound ν)
  · intro s a t sound taken rightful
    exact step_sound sound taken.1 taken.2 rightful
  · intro s sound
    exact sound.consistent
  · intro s a t sound taken wrong
    cases a with
    | delete k => exact delete_breaks sound taken.1 wrong
    | _ => exact (wrong trivial).elim

instance (s : System ν) (action : Action ν) : Decidable (Fresh s action) := by
  cases action <;> unfold Fresh <;> infer_instance

instance (s : System ν) (action : Action ν) : Decidable (Rightful s action) := by
  cases action <;> unfold Rightful <;> infer_instance

-- A child deletes what it has of its parent, a third process makes a semaphore of this
-- name, and the parent's delete takes the name from it.
def stolen_actions : List (Action Nat) :=
  [.malloc 1 .create 0,.sem_open 0 true,.fork 1 2,.delete 1,.malloc 3 .new 0,.sem_open 2 true,.sem_open 2 true,.delete 0]

theorem name_stolen : ∃ moves s, Run (Follows advance) (start Nat) moves s ∧ moves.map Move.action = stolen_actions ∧
    s.unlinks = [⟨some 0,some 0⟩,⟨some 0,some 1⟩] ∧ ¬ Throughout Consistent moves := by
  obtain ⟨moves,s,run,same,checked⟩ := Run.of_check advance (start Nat) stolen_actions
    (fun result => decide (Meets Fresh result.1 ∧ ¬ Meets Rightful result.1 ∧
      result.2.unlinks = [⟨some 0,some 0⟩,⟨some 0,some 1⟩])) (by decide +kernel)
  obtain ⟨fresh,wrong,unlinks⟩ := of_decide_eq_true checked
  exact ⟨moves,s,run,same,unlinks,fun consistent => wrong ((owners_exact run fresh).mp consistent)⟩

end Libcplus.SemaphoreNames
