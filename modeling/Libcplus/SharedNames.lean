import Libcplus.Segments
import Libcplus.SemaphoreNames

-- Whether two processes that came by an object under one name share it.
namespace Libcplus.Segments
open Registry Transition

-- From shm_open on, until the object is deleted or its creation fails.
def Using (phase : Phase) : Prop := phase ≠ .named ∧ phase ≠ .failing ∧ phase ≠ .gone

instance (phase : Phase) : Decidable (Using phase) := inferInstanceAs (Decidable (_ ∧ _))

theorem using_opened : Using .opened := by decide

variable {ν : Type}

def usage (shmem : Shmem ν) : Option (ν × Nat) :=
  if Using shmem.phase then shmem.segment.map fun segment => (shmem.name,segment) else none

abbrev System.uses (s : System ν) : Nat → Option (ν × Nat) := Registry.claims usage s.objects

-- Objects in use with one name have one segment.
def OneMemory (s : System ν) : Prop := ∀ a ∈ s.objects, ∀ b ∈ s.objects, Using a.phase → Using b.phase → a.name = b.name →
  a.segment = b.segment

-- A segment is made under a name only when no object of that name is in use.
def Unused (s : System ν) : Action ν → Prop
  | .shm_open k granted => granted = true → ∀ shmem ∈ s.objects[k]?, shmem.phase = .named → shmem.creation = .create →
    s.names.bound shmem.name = none → ∀ other ∈ s.objects, Using other.phase → other.name ≠ shmem.name
  | _ => True

-- An owner removes a name only when no other object of that name is in use.
def LastOut (s : System ν) : Action ν → Prop
  | .leave k => ∀ shmem ∈ s.objects[k]?, cplus_sharedmem_is_owner shmem = true →
    ∀ j other, s.objects[j]? = some other → j ≠ k → Using other.phase → other.name ≠ shmem.name
  | _ => True

instance [DecidableEq ν] (s : System ν) : Decidable (OneMemory s) := by
  unfold OneMemory; infer_instance

-- `found` says that every name in use is bound.
structure Sharing (found : Prop) (s : System ν) : Prop where
  shared : Registry.Shared s.names s.uses
  found : found → Registry.Found s.names s.uses
  held : ∀ shmem ∈ s.objects, Using shmem.phase → ∃ segment, shmem.segment = some segment

variable {found : Prop} {s t : System ν} {shmem next : Shmem ν} {k segment : Nat}

theorem use_of (uses : Using shmem.phase) (there : shmem.segment = some segment) : usage shmem = some (shmem.name,segment) := by
  unfold usage
  rw [if_pos uses,there]
  rfl

theorem use_parts {name : ν} (uses : usage shmem = some (name,segment)) :
    Using shmem.phase ∧ shmem.segment = some segment ∧ shmem.name = name := by
  unfold usage at uses
  split at uses
  · obtain ⟨_,there,same⟩ := Option.map_eq_some_iff.mp uses
    cases same
    exact ⟨‹_›,there,rfl⟩
  · cases uses

theorem Sharing.one_memory (sharing : Sharing found s) : OneMemory s := by
  intro a amember b bmember ausing busing same
  obtain ⟨i,ahere⟩ := List.mem_iff_getElem?.mp amember
  obtain ⟨j,bhere⟩ := List.mem_iff_getElem?.mp bmember
  obtain ⟨g,asegment⟩ := sharing.held a amember ausing
  obtain ⟨h,bsegment⟩ := sharing.held b bmember busing
  have mine : s.uses i = some (a.name,g) := (claims_at ahere).trans (use_of ausing asegment)
  have theirs : s.uses j = some (a.name,h) := (claims_at bhere).trans (same ▸ use_of busing bsegment)
  rw [asegment,bsegment,sharing.shared.agreed mine theirs]

theorem set_held (sharing : Sharing found s) (here : s.objects[k]? = some shmem)
    (holds : Using next.phase → ∃ segment, next.segment = some segment) :
    ∀ x ∈ (s.objects.set k next), Using x.phase → ∃ segment, x.segment = some segment := by
  intro x member
  obtain ⟨j,there⟩ := List.mem_iff_getElem?.mp member
  obtain ⟨_,rfl⟩ | ⟨_,there⟩ := set_parts here there
  · exact holds
  · exact sharing.held x (List.mem_of_getElem? there)

-- The object goes on with what it has, or gives it up.
theorem moved_uses (here : s.objects[k]? = some shmem) (name : next.name = shmem.name) (same : next.segment = shmem.segment)
    (before : Using next.phase → Using shmem.phase) {j : Nat} {c : ν × Nat}
    (mine : (set_object s k next).uses j = some c) : ∃ i, s.uses i = some c := by
  have now : Function.update s.uses k (usage next) j = some c := (congrFun (claims_set here next) j).symm.trans mine
  obtain ⟨_,now⟩ | ⟨_,now⟩ := updated now
  · obtain ⟨uses,there,named⟩ := use_parts now
    refine ⟨k,(claims_at here).trans ?_⟩
    rw [use_of (before uses) (same ▸ there),← name,named]
  · exact ⟨j,now⟩

theorem moved_sharing (sharing : Sharing found s) (here : s.objects[k]? = some shmem) (name : next.name = shmem.name)
    (same : next.segment = shmem.segment) (before : Using next.phase → Using shmem.phase) :
    Sharing found (set_object s k next) where
  shared := sharing.shared.among (moved_uses here name same before)
  found := fun all => (sharing.found all).among (moved_uses here name same before)
  held := set_held sharing here fun uses => by
    obtain ⟨segment,there⟩ := sharing.held shmem (List.mem_of_getElem? here) (before uses)
    exact ⟨segment,same.trans there⟩

theorem fail_sharing (sharing : Sharing found s) (here : s.objects[k]? = some shmem) : Sharing found (fail s k shmem) :=
  moved_sharing sharing here rfl rfl fun uses => (uses.2.1 rfl).elim

theorem find_sharing (sharing : Sharing found s) (here : s.objects[k]? = some shmem)
    (bound : s.names.bound shmem.name = some segment) : Sharing found (find_segment s k shmem segment) := by
  have now : (find_segment s k shmem segment).uses = Function.update s.uses k (some (shmem.name,segment)) := claims_set here _
  refine ⟨?_,fun all => ?_,set_held sharing here fun _ => ⟨segment,rfl⟩⟩
  · rw [now]
    exact sharing.shared.find bound
  · rw [now]
    exact (sharing.found all).find bound

section
variable [DecidableEq ν]

theorem make_sharing (sharing : Sharing found s) (here : s.objects[k]? = some shmem) (free : s.names.bound shmem.name = none)
    (unused : ∀ other ∈ s.objects, Using other.phase → other.name ≠ shmem.name) : Sharing found (make_segment s k shmem) := by
  have now : (make_segment s k shmem).uses = Function.update s.uses k (some (shmem.name,s.names.made)) := claims_set here _
  have idle (j segment : Nat) : s.uses j ≠ some (shmem.name,segment) := by
    intro mine
    obtain ⟨x,there,mine⟩ := Option.bind_eq_some_iff.mp mine
    obtain ⟨uses,_,name⟩ := use_parts mine
    exact unused x (List.mem_of_getElem? there) uses name
  refine ⟨?_,fun all => ?_,set_held sharing here fun _ => ⟨s.names.made,rfl⟩⟩
  · rw [now]
    exact sharing.shared.enter idle
  · rw [now]
    exact (sharing.found all).enter free

-- In an orderly system a free name is not in use.
omit [DecidableEq ν] in
theorem free_unused (sharing : Sharing True s) {name : ν} (free : s.names.bound name = none) :
    ∀ other ∈ s.objects, Using other.phase → other.name ≠ name := by
  intro other member uses same
  obtain ⟨j,here⟩ := List.mem_iff_getElem?.mp member
  obtain ⟨segment,there⟩ := sharing.held other member uses
  have bound := sharing.found trivial j other.name segment ((claims_at here).trans (use_of uses there))
  rw [same,free] at bound
  cases bound

theorem open_sharing (sharing : Sharing found s) (here : s.objects[k]? = some shmem) (granted : Bool)
    (unused : granted = true → shmem.creation = .create → s.names.bound shmem.name = none →
      ∀ other ∈ s.objects, Using other.phase → other.name ≠ shmem.name) : Sharing found (shm_open s k granted shmem) := by
  unfold shm_open
  cases granted with
  | false => exact fail_sharing sharing here
  | true =>
    rw [if_pos rfl]
    cases creation : shmem.creation with
    | create =>
      cases bound : s.names.bound shmem.name with
      | none => exact make_sharing sharing here bound (unused rfl creation bound)
      | some segment => exact fail_sharing sharing here
    | opening =>
      cases bound : s.names.bound shmem.name with
      | none => exact fail_sharing sharing here
      | some segment => exact find_sharing sharing here bound
    | new =>
      cases bound : s.names.bound shmem.name with
      | none => exact moved_sharing sharing here rfl rfl id
      | some segment => exact find_sharing sharing here bound

theorem leave_sharing (sharing : Sharing found s) (here : s.objects[k]? = some shmem)
    (last : found → cplus_sharedmem_is_owner shmem = true →
      ∀ j other, s.objects[j]? = some other → j ≠ k → Using other.phase → other.name ≠ shmem.name) :
    Sharing found (leave s k shmem) := by
  have gone : Sharing found (set_object s k {shmem with phase := .gone}) :=
    moved_sharing sharing here rfl rfl fun uses => (uses.2.2 rfl).elim
  unfold leave
  split
  · rename_i owner
    refine ⟨gone.shared.unlink,fun all => (gone.found all).unlink ?_,gone.held⟩
    intro j segment mine
    obtain ⟨x,there,mine⟩ := Option.bind_eq_some_iff.mp mine
    obtain ⟨uses,_,name⟩ := use_parts mine
    obtain ⟨_,rfl⟩ | ⟨apart,there⟩ := set_parts here there
    · exact uses.2.2 rfl
    · exact last all owner j x there apart uses name
  · exact gone

omit [DecidableEq ν] in
theorem found_again {x : Shmem ν} {c : ν × Nat} (member : x ∈ s.objects) (uses : usage x = some c) : ∃ i, s.uses i = some c := by
  obtain ⟨i,here⟩ := List.mem_iff_getElem?.mp member
  exact ⟨i,(claims_at here).trans uses⟩

-- Objects that have what those there had, which may end meanwhile.
omit [DecidableEq ν] in
theorem among_sharing (sharing : Sharing found s) {objects : List (Shmem ν)}
    (copied : ∀ x ∈ objects, Using x.phase → ∃ y ∈ s.objects, Using y.phase ∧ x.name = y.name ∧ x.segment = y.segment) :
    Sharing found {s with objects := objects} := by
  have part {i : Nat} {c : ν × Nat} (mine : Registry.claims usage objects i = some c) : ∃ j, s.uses j = some c := by
    obtain ⟨x,there,mine⟩ := Option.bind_eq_some_iff.mp mine
    obtain ⟨uses,segment,name⟩ := use_parts mine
    obtain ⟨y,member,using_,named,same⟩ := copied x (List.mem_of_getElem? there) uses
    apply found_again member
    rw [use_of using_ (same ▸ segment),← named,name]
  refine ⟨sharing.shared.among part,fun all => (sharing.found all).among part,?_⟩
  intro x member uses
  obtain ⟨y,there,using_,_,same⟩ := copied x member uses
  rw [same]
  exact sharing.held y there using_

theorem step_sharing {action : Action ν} (sharing : Sharing found s) (taken : advance s action = some t) (unused : Unused s action)
    (last : found → LastOut s action) : Sharing found t := by
  cases action with
  | malloc pid creation name size =>
    cases taken
    apply among_sharing sharing
    intro x member uses
    rcases List.mem_append.mp member with early | fresh
    · exact ⟨x,early,uses,rfl,rfl⟩
    · rw [List.mem_singleton.mp fresh] at uses
      exact (uses.1 rfl).elim
  | shm_open k granted =>
    obtain ⟨shmem,here,phase,rfl⟩ := object_parts taken
    apply open_sharing sharing here
    intro allowed creation free
    exact unused allowed shmem here (List.mem_singleton.mp phase) creation free
  | set_size k done =>
    obtain ⟨shmem,here,phase,rfl⟩ := object_parts taken
    have opened : Using shmem.phase := by rw [List.mem_singleton.mp phase]; decide
    unfold set_size
    split
    · split
      · have moved : Sharing found (set_object s k {shmem with phase := .sized}) :=
          moved_sharing sharing here rfl rfl fun _ => opened
        exact ⟨moved.shared,moved.found,moved.held⟩
      · exact moved_sharing sharing here rfl rfl fun _ => opened
    · exact fail_sharing sharing here
  | mmap k done =>
    obtain ⟨shmem,here,phase,rfl⟩ := object_parts taken
    have sized : Using shmem.phase := by rw [List.mem_singleton.mp phase]; decide
    unfold mmap
    split
    · exact moved_sharing sharing here rfl rfl fun _ => sized
    · exact fail_sharing sharing here
  | close k =>
    obtain ⟨shmem,here,phase,rfl⟩ := object_parts taken
    have mapped : Using shmem.phase := by rw [List.mem_singleton.mp phase]; decide
    exact moved_sharing sharing here rfl rfl fun _ => mapped
  | delete k =>
    obtain ⟨shmem,here,phase,rfl⟩ := object_parts taken
    have live : Using shmem.phase := by rw [List.mem_singleton.mp phase]; decide
    exact moved_sharing sharing here rfl rfl fun _ => live
  | leave k =>
    obtain ⟨shmem,here,_,rfl⟩ := object_parts taken
    exact leave_sharing sharing here fun all => last all shmem here
  | fork parent child =>
    simp only [advance] at taken
    split at taken
    · cases taken
    · cases taken
      apply among_sharing sharing
      intro x member uses
      rcases List.mem_append.mp member with early | copy
      · exact ⟨x,early,uses,rfl,rfl⟩
      · obtain ⟨y,there,live,rfl⟩ := copy_parts copy
        exact ⟨y,there,uses,rfl,rfl⟩
  | exit pid =>
    cases taken
    apply among_sharing sharing
    intro x member uses
    obtain ⟨y,there,rfl⟩ := List.mem_map.mp member
    unfold end_process at uses ⊢
    split at uses
    · exact (uses.2.2 rfl).elim
    · exact ⟨y,there,uses,by simp_all,by simp_all⟩

-- A segment that is made under a name in use has not what the others have.
theorem open_breaks (sharing : Sharing found s) {action : Action ν} (taken : advance s action = some t) (used : ¬ Unused s action) :
    ¬ OneMemory t := by
  unfold Unused at used
  split at used
  · rename_i k granted
    simp only [not_forall] at used
    obtain ⟨rfl,shmem,here,named,creation,free,other,member,uses,same⟩ := used
    have same : other.name = shmem.name := not_not.mp same
    obtain ⟨_,there,_,rfl⟩ := object_parts taken
    cases there.symm.trans here
    have made : shm_open s k true shmem = make_segment s k shmem := by simp [shm_open,creation,free]
    rw [made]
    intro one
    obtain ⟨j,found⟩ := List.mem_iff_getElem?.mp member
    obtain ⟨segment,held⟩ := sharing.held other member uses
    have apart : k ≠ j := by
      rintro rfl
      cases found.symm.trans here
      exact uses.1 named
    have inside : k < s.objects.length := (List.getElem?_eq_some_iff.mp here).1
    have mine : {shmem with phase := .opened,segment := some s.names.made,is_owner := true,owner_id := some shmem.pid} ∈
        (make_segment s k shmem).objects := List.mem_set inside _
    have theirs : other ∈ (make_segment s k shmem).objects :=
      List.mem_of_getElem? ((List.getElem?_set_ne apart).trans found)
    have agreed := one _ mine _ theirs using_opened uses same.symm
    rw [held] at agreed
    have older := sharing.shared.used ((claims_at found).trans (use_of uses held))
    exact Nat.ne_of_gt older (Option.some.inj agreed)
  · exact (used trivial).elim

omit [DecidableEq ν] in
theorem start_sharing (found : Prop) : Sharing found (start ν) := ⟨shared_empty,fun _ => nofun,nofun⟩

omit [DecidableEq ν] in
theorem Sharing.unused (sharing : Sharing True s) (action : Action ν) : Unused s action := by
  unfold Unused
  split
  · intro _ shmem _ _ _ free
    exact free_unused sharing free
  · trivial

-- Objects in use under one name share their memory as long as no segment is made under a
-- name in use, and that happens only after an owner removed the name of objects in use.
theorem one_memory_exact {moves : List (Move (System ν) (Action ν))} (run : Run (Follows advance) (start ν) moves s) :
    (Throughout OneMemory moves ↔ Meets Unused moves) ∧ (Meets LastOut moves → Throughout OneMemory moves) := by
  constructor
  · apply run.exact (start_sharing False)
    · intro s a t sharing taken unused
      exact step_sharing sharing taken unused False.elim
    · intro s sharing
      exact sharing.one_memory
    · intro s a t sharing taken used
      exact open_breaks sharing taken used
  · intro last
    have kept := run.keeps LastOut (start_sharing True) (fun sharing taken last =>
      step_sharing sharing taken (sharing.unused _) fun _ => last) last
    exact kept.2.imp fun _ sharing => sharing.one_memory

end

-- The owner deletes its object, and its name is used anew, while another still has the
-- old segment.
def parted_actions : List (Action Nat) :=
  [.malloc 1 .create 0 8,.shm_open 0 true,.set_size 0 true,.mmap 0 true,.close 0,.malloc 2 .opening 0 0,.shm_open 1 true,
   .set_size 1 true,.mmap 1 true,.close 1,.delete 0,.leave 0,.malloc 3 .create 0 8,.shm_open 2 true]

theorem memory_parted : ∃ moves s, Run (Follows advance) (start Nat) moves s ∧ moves.map Move.action = parted_actions ∧
    ¬ Meets Unused moves ∧ ¬ Meets LastOut moves := by
  obtain ⟨moves,s,run,same,parted⟩ := Run.of_check advance (start Nat) parted_actions
    (fun result => decide (¬ ∀ m ∈ result.1,OneMemory m.after)) (by decide +kernel)
  have exact := one_memory_exact run
  exact ⟨moves,s,run,same,fun unused => of_decide_eq_true parted (exact.1.mpr unused),
    fun last => of_decide_eq_true parted (exact.2 last)⟩

end Libcplus.Segments
