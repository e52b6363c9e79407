import Libcplus.Memmgr

-- Programs that ask the manager for any size of 32 bits, and whose nodes of the
-- registry may be refused.
namespace Libcplus.Memmgr
open Bytes SinglyLinked Transition Typedef

-- What a program has freed and was not given again since.
structure Ledger where
  session : Session
  freed : List Nat

def Unused (s : Memmgr) (answer : Option Answer) (ex : Option Nat) : Prop :=
  (∀ a ∈ answer, (s.memory a.mem).isNone) ∧ ∀ p ∈ ex, (s.info p).isNone

instance (s : Memmgr) (answer : Option Answer) (ex : Option Nat) : Decidable (Unused s answer ex) := by
  unfold Unused
  infer_instance

def Permitted (s : Session) : Action → Prop
  | .malloc size _ answer ex => size < 2^32 ∧ Unused s.mgr answer ex
  | .realloc ptr size _ answer ex => ptr ∈ s.live.map Prod.fst ∧ size < 2^32 ∧
      Unused {(s.mgr.erase_mem_info ptr).getD s.mgr with
        memory := Function.update s.mgr.memory (ptr - 4) none} answer ex
  | .free ptr => ptr ∈ s.live.map Prod.fst
  | .write ptr offset _ => ∃ b ∈ s.live, b.1 = ptr ∧ offset < b.2

instance (s : Session) : (a : Action) → Decidable (Permitted s a)
  | .malloc size _ answer ex => inferInstanceAs (Decidable (size < 2^32 ∧ Unused s.mgr answer ex))
  | .realloc ptr size _ answer ex => inferInstanceAs (Decidable (ptr ∈ s.live.map Prod.fst ∧ size < 2^32 ∧
      Unused {(s.mgr.erase_mem_info ptr).getD s.mgr with
        memory := Function.update s.mgr.memory (ptr - 4) none} answer ex))
  | .free ptr => inferInstanceAs (Decidable (ptr ∈ s.live.map Prod.fst))
  | .write ptr offset _ => inferInstanceAs (Decidable (∃ b ∈ s.live, b.1 = ptr ∧ offset < b.2))

namespace Ledger

def settles (freed : List Nat) (after : Session) : Action → List Nat
  | .malloc _ _ _ _ | .realloc _ _ _ _ _ => freed.filter fun ptr => some ptr ≠ after.returned
  | .free ptr => ptr :: freed
  | .write _ _ _ => freed

-- A call that faults ends the run.
def advance (ledger : Ledger) (a : Action) : Option Ledger :=
  if Permitted ledger.session a then
    (call ledger.session a).map fun after => ⟨after,settles ledger.freed after a⟩
  else none

abbrev Step : Ledger → Action → Ledger → Prop := Follows advance

def opened : Ledger := ⟨start,[]⟩

end Ledger

-- The assertion in front of a second free.
def Rejected (s : Memmgr) (ptr : Nat) : Prop := s.check_boundary (ptr - 4) ≠ some CPLUS_SUCCESS

-- The block that the system gives to a call of cplus_mgr_realloc.
def granted (s : Memmgr) (ptr size : Nat) (answer : Option Answer) : Option (List UInt8) :=
  let new_size := if size = 0 then 0 else (size + 2 * 4) % 2^32
  if s.check_boundary (ptr - 4) = some CPLUS_SUCCESS then
    (s.erase_mem_info ptr).bind fun s =>
      (realloc s.memory (ptr - 4) new_size answer).bind fun (result : (Nat → Option (List UInt8)) × Option Nat) =>
        result.2.bind result.1
  else none

variable {s t : Memmgr} {cells : List (Nat × Info)} {live recorded : List (Nat × Nat)} {b : Nat × Nat}
  {memory : Nat → Option (List UInt8)} {ptr mem size : Nat} {data : List UInt8}

theorem find_absent (registers : Registers s cells) (absent : ∀ c ∈ cells, c.2.mem_ref ≠ ptr) :
    s.find_mem_info ptr = some none := by
  have nowhere : cells.find? (fun c => c.2.mem_ref = ptr) = none := by
    apply List.find?_eq_none.mpr
    intro c member
    simpa using absent c member
  rw [find_mem_info_spec registers,nowhere]
  rfl

theorem check_absent (registers : Registers s cells) (absent : ∀ c ∈ cells, c.2.mem_ref ≠ ptr) (above : 4 ≤ ptr) :
    s.check_boundary (ptr - 4) = some CPLUS_SUCCESS := by
  unfold check_boundary
  rw [Nat.sub_add_cancel above,find_absent registers absent]
  rfl

theorem erase_loop_absent (linked : Linked s.info cells none) (absent : ∀ c ∈ cells, c.2.mem_ref ≠ ptr) {fuel : Nat}
    (enough : cells.length ≤ fuel) (prev : Option Nat) :
    s.erase_loop ptr fuel (DoublyLinked.first cells none) prev = some s := by
  induction cells generalizing fuel prev with
  | nil => cases fuel <;> rfl
  | cons cell rest ih =>
    obtain ⟨here,later⟩ := linked
    cases fuel with
    | zero => cases enough
    | succ fuel =>
      have differ := absent cell List.mem_cons_self
      simp only [DoublyLinked.first,erase_loop,here,Option.bind_some,if_neg differ]
      exact ih later (fun c member => absent c (List.mem_cons_of_mem _ member)) (Nat.le_of_succ_le_succ enough) _

-- What is not registered is erased without a change.
theorem erase_absent (registers : Registers s cells) (absent : ∀ c ∈ cells, c.2.mem_ref ≠ ptr) :
    s.erase_mem_info ptr = some s := by
  unfold erase_mem_info
  rw [registers.nodes,registers.start]
  exact erase_loop_absent registers.linked absent (Nat.le_refl _) none

-- The registry holds some of the live blocks, and all of them have their tags.
structure Covers (s : Memmgr) (live : List (Nat × Nat)) : Prop where
  represents : ∃ recorded cells, Represents s recorded cells ∧ recorded ⊆ live
  once : (live.map Prod.fst).Nodup
  intact : ∀ b ∈ live, Intact s.memory b.1 b.2

theorem Covers.same_block {c : Nat × Nat} (covers : Covers s live) (listed : c ∈ live) (member : b ∈ live)
    (same : c.1 = b.1) : c = b :=
  List.inj_on_of_nodup_map covers.once listed member same

-- A change of memory that leaves the tags of the live blocks.
theorem Represents.moved {cells : List (Nat × Info)} (represents : Represents s recorded cells)
    (intact : ∀ b ∈ recorded, Intact memory b.1 b.2) : Represents {s with memory := memory} recorded cells := by
  obtain ⟨linked,start,last_is,nodup,count⟩ := represents.registers
  exact ⟨⟨linked,start,last_is,nodup,count⟩,represents.entries,represents.once,intact⟩

theorem Represents.absent (represents : Represents s recorded cells) (outside : ∀ c ∈ recorded, c.1 ≠ ptr) :
    ∀ c ∈ cells, c.2.mem_ref ≠ ptr := by
  intro c member
  apply outside (entry c)
  rw [← represents.entries]
  exact List.mem_map_of_mem member

theorem Covers.boundary (covers : Covers s live) (member : b ∈ live) :
    s.check_boundary (b.1 - 4) = some CPLUS_SUCCESS := by
  obtain ⟨recorded,cells,represents,listed⟩ := covers.represents
  by_cases registered : b ∈ recorded
  · exact represents.boundary registered
  · apply check_absent represents.registers (represents.absent ?_) (covers.intact b member).1
    intro c inside same
    exact registered (covers.same_block (listed inside) member same ▸ inside)

-- A pointer to a block that the system has back passes the check.
theorem Covers.unnoticed (covers : Covers s live) (above : 4 ≤ ptr) (gone : s.memory (ptr - 4) = none) :
    ∃ recorded cells, Represents s recorded cells ∧ ∀ c ∈ cells, c.2.mem_ref ≠ ptr := by
  obtain ⟨recorded,cells,represents,listed⟩ := covers.represents
  refine ⟨recorded,cells,represents,represents.absent ?_⟩
  rintro c inside rfl
  obtain ⟨_,_,_,there⟩ := represents.intact c inside
  rw [gone] at there
  cases there

theorem mem_loses {c : Nat × Nat} (member : c ∈ live) (apart : c.1 ≠ ptr) : c ∈ loses live ptr :=
  (List.mem_eraseP_of_neg (by simpa using apart)).mpr member

theorem Covers.intact_rest (covers : Covers s live) (member : b ∈ live) (content : Option (List UInt8)) :
    ∀ c ∈ loses live b.1, Intact (Function.update s.memory (b.1 - 4) content) c.1 c.2 := by
  intro c inside
  obtain ⟨inside,apart⟩ := loses_member covers.once inside
  apply (covers.intact c inside).update
  have above := (covers.intact c inside).1
  have above_here := (covers.intact b member).1
  omega

theorem Covers.erase (covers : Covers s live) (member : b ∈ live) (memory : Nat → Option (List UInt8)) :
    ∃ t, erase_mem_info {s with memory := memory} b.1 = some t ∧ t.memory = memory ∧
      Covers {t with memory := Function.update s.memory (b.1 - 4) none} (loses live b.1) := by
  obtain ⟨recorded,cells,represents,listed⟩ := covers.represents
  have once := loses_once covers.once b.1
  have intact := covers.intact_rest member none
  by_cases registered : b ∈ recorded
  · obtain ⟨t,rest,erased,same,after⟩ := represents.erase registered memory
    refine ⟨t,erased,same,⟨_,rest,after,?_⟩,once,intact⟩
    intro c inside
    obtain ⟨inside,apart⟩ := loses_member represents.once inside
    exact mem_loses (listed inside) apart
  · have outside : ∀ c ∈ recorded, c.1 ≠ b.1 := by
      intro c inside same
      exact registered (covers.same_block (listed inside) member same ▸ inside)
    have within : recorded ⊆ loses live b.1 := fun c inside => mem_loses (listed inside) (outside c inside)
    obtain ⟨linked,start,last_is,nodup,count⟩ := represents.registers
    have placed : Registers {s with memory := memory} cells := ⟨linked,start,last_is,nodup,count⟩
    refine ⟨_,erase_absent placed (represents.absent outside),rfl,⟨recorded,cells,?_,within⟩,once,intact⟩
    exact represents.moved fun c inside => intact c (within inside)

theorem Covers.add (covers : Covers s live) (free : s.memory mem = none) {ex : Option Nat}
    (fresh : ∀ p ∈ ex, (s.info p).isNone) (length : data.length = size) (site : Site) :
    ∃ t, add_mem_info
        {s with
          memory := Function.update s.memory mem
            (some (littleEndian32 BEGCHK ++ data ++ littleEndian32 ENDCHK))}
        ex (mem + 4) size site = some t ∧
      t.memory = Function.update s.memory mem (some (littleEndian32 BEGCHK ++ data ++ littleEndian32 ENDCHK)) ∧
      Covers t (gains live size (some (mem + 4))) := by
  obtain ⟨recorded,cells,represents,listed⟩ := covers.represents
  have once := gains_once covers.intact free covers.once size
  have intact := gains_intact covers.intact free length
  cases ex with
  | none =>
    refine ⟨_,rfl,rfl,⟨recorded,cells,?_,?_⟩,once,intact⟩
    · exact represents.moved fun c inside => intact c (List.mem_append_left _ (listed inside))
    · exact fun c inside => List.mem_append_left _ (listed inside)
  | some p =>
    have unused := Option.isNone_iff_eq_none.mp (fresh p rfl)
    obtain ⟨t,more,added,memory,after⟩ := represents.add free unused length site
    refine ⟨t,added,memory,⟨_,more,after,?_⟩,once,?_⟩
    · exact List.append_subset.mpr ⟨fun c inside => List.mem_append_left _ (listed inside),
        List.subset_append_right _ _⟩
    · rw [memory]
      exact intact

theorem write_parts {start : Nat} {bytes : List UInt8} {after : Nat → Option (List UInt8)}
    (wrote : write memory mem start bytes = some after) : ∃ block next, memory mem = some block ∧
      start + bytes.length ≤ block.length ∧ next.length = block.length ∧
      after = Function.update memory mem (some next) := by
  unfold write at wrote
  obtain ⟨block,there,written⟩ := Option.bind_eq_some_iff.mp wrote
  obtain ⟨next,spliced,rfl⟩ := Option.map_eq_some_iff.mp written
  exact ⟨block,next,there,(splice_parts spliced).1,splice_length spliced,rfl⟩

-- There is room for the second tag.
theorem guard_block_room {block : List UInt8} {after : Nat → Option (List UInt8)} (there : memory mem = some block)
    (guarded : guard_block memory mem size = some after) : size + 8 ≤ block.length := by
  unfold guard_block at guarded
  obtain ⟨begun,first,second⟩ := Option.bind_eq_some_iff.mp guarded
  obtain ⟨block',next,there',_,length,rfl⟩ := write_parts first
  obtain ⟨block'',_,again,fits,_⟩ := write_parts second
  cases there.symm.trans there'
  cases (Function.update_self mem (some next) memory).symm.trans again
  rw [littleEndian32_length,length] at fits
  omega

-- The system frees the block, refuses another size, or moves the block.
theorem realloc_cases {block : List UInt8} {answer : Option Answer} {result : (Nat → Option (List UInt8)) × Option Nat}
    (there : memory mem = some block) (resized : realloc memory mem size answer = some result) :
    (size = 0 ∧ result = (Function.update memory mem none,none)) ∨ (0 < size ∧ answer = none ∧ result = (memory,none)) ∨
      ∃ a moved, answer = some a ∧ 0 < size ∧ moved.length = size ∧
        result = (Function.update (Function.update memory mem none) a.mem (some moved),some a.mem) := by
  unfold realloc at resized
  rw [there,Option.map_some] at resized
  obtain rfl := Option.some.inj resized
  by_cases zero : size = 0
  · exact .inl ⟨zero,if_pos zero⟩
  rw [if_neg zero]
  cases answer with
  | none => exact .inr (.inl ⟨Nat.pos_of_ne_zero zero,rfl,rfl⟩)
  | some a =>
    refine .inr (.inr ⟨a,_,rfl,Nat.pos_of_ne_zero zero,?_,rfl⟩)
    rw [List.length_append,List.length_take,List.length_map,List.length_drop,List.length_range]
    omega

-- What was free is free, or is what the call returns.
def Leaves (before after : Session) : Prop :=
  ∀ mem, before.mgr.memory mem = none → after.returned ≠ some (mem + 4) → after.mgr.memory mem = none

variable {session after : Session} {called_from : Site} {answer : Option Answer} {ex : Option Nat}

theorem malloc_covers (covers : Covers session.mgr session.live) (unused : Unused session.mgr answer ex)
    (called : call session (.malloc size called_from answer ex) = some after) :
    Covers after.mgr after.live ∧ Leaves session after := by
  simp only [call,cplus_mgr_malloc] at called
  have nothing : Covers session.mgr (gains session.live size none) := by
    rw [gains_none]
    exact covers
  by_cases zero : size = 0
  · rw [if_pos zero] at called
    cases called
    exact ⟨nothing,fun _ free _ => free⟩
  rw [if_neg zero] at called
  cases answer with
  | none =>
    cases called
    exact ⟨nothing,fun _ free _ => free⟩
  | some a =>
    have free := Option.isNone_iff_eq_none.mp (unused.1 a rfl)
    obtain ⟨data,length,guarded⟩ := malloc_guards session.mgr.memory a size
    obtain ⟨t,added,memory,kept⟩ := covers.add free unused.2 length called_from
    simp only [guarded,Option.bind_some,added,Option.map_some] at called
    cases called
    refine ⟨kept,fun mem free differ => ?_⟩
    have apart : mem ≠ a.mem := fun same => differ (congrArg (fun mem => some (mem + 4)) same.symm)
    exact (congrFun memory mem).trans ((Function.update_of_ne apart _ _).trans free)

theorem free_covers (covers : Covers session.mgr session.live) (member : b ∈ session.live)
    (called : call session (.free b.1) = some after) :
    Covers after.mgr after.live ∧ after.mgr.memory = Function.update session.mgr.memory (b.1 - 4) none := by
  obtain ⟨cleared,wrote⟩ := (covers.intact b member).cleared
  obtain ⟨t,erased,same,kept⟩ := covers.erase member (Function.update session.mgr.memory (b.1 - 4) (some cleared))
  simp only [call,cplus_mgr_free,if_pos (covers.boundary member),wrote,Option.bind_some,erased,
    Memmgr.free,same,Function.update_self,Option.map_some,Function.update_idem] at called
  cases called
  exact ⟨kept,rfl⟩

theorem write_covers {offset : Nat} {value : UInt8} (covers : Covers session.mgr session.live)
    (member : b ∈ session.live) (inside : offset < b.2) (called : call session (.write b.1 offset value) = some after) :
    Covers after.mgr after.live ∧
      ∃ written, after.mgr.memory = Function.update session.mgr.memory (b.1 - 4) (some written) := by
  obtain ⟨written,wrote,intact⟩ := (covers.intact b member).write inside value
  rw [call,wrote,Option.map_some] at called
  cases called
  obtain ⟨recorded,cells,represents,listed⟩ := covers.represents
  have intact_all : ∀ c ∈ session.live,
      Intact (Function.update session.mgr.memory (b.1 - 4) (some written)) c.1 c.2 := by
    intro c there
    by_cases here : c.1 = b.1
    · obtain rfl := covers.same_block there member here
      exact intact
    · exact covers.intact_rest member _ c (mem_loses there here)
  refine ⟨⟨⟨recorded,cells,?_,listed⟩,covers.once,intact_all⟩,written,rfl⟩
  exact represents.moved fun c there => intact_all c (listed there)

theorem realloc_covers (covers : Covers session.mgr session.live) (member : b ∈ session.live)
    (unused : Unused {(session.mgr.erase_mem_info b.1).getD session.mgr with
      memory := Function.update session.mgr.memory (b.1 - 4) none} answer ex)
    (called : call session (.realloc b.1 size called_from answer ex) = some after) :
    Covers after.mgr after.live ∧ Leaves session after := by
  obtain ⟨above,data,length,there⟩ := covers.intact b member
  obtain ⟨t,erased,same,kept⟩ := covers.erase member session.mgr.memory
  have erased : session.mgr.erase_mem_info b.1 = some t := erased
  rw [erased,Option.getD_some] at unused
  rw [← same] at there
  have nothing : Covers {t with memory := Function.update session.mgr.memory (b.1 - 4) none}
      (gains (loses session.live b.1) size none) := by
    rw [gains_none]
    exact kept
  have still_free : ∀ mem, session.mgr.memory mem = none →
      Function.update session.mgr.memory (b.1 - 4) none mem = none := by
    intro mem free
    by_cases here : mem = b.1 - 4
    · exact here ▸ Function.update_self _ _ _
    · exact (Function.update_of_ne here _ _).trans free
  obtain ⟨result,made,rfl⟩ := Option.map_eq_some_iff.mp called
  simp only [cplus_mgr_realloc,if_pos (covers.boundary member),erased,Option.bind_some] at made
  obtain ⟨resized,moves,ends⟩ := Option.bind_eq_some_iff.mp made
  rcases realloc_cases there moves with ⟨_,rfl⟩ | ⟨some_size,_,rfl⟩ | ⟨a,moved,rfl,some_size,moved_length,rfl⟩
  · by_cases zero : size = 0
    · simp only [zero,ne_eq,not_true,if_false] at ends
      cases ends
      rw [zero,same]
      exact ⟨nothing,fun mem free _ => still_free mem free⟩
    · -- The size has wrapped to nothing, and the block is freed twice.
      simp only [ne_eq,zero,not_false_iff,if_true,Memmgr.free,Function.update_self,Option.map_none] at ends
      cases ends
  · have more : size ≠ 0 := fun zero => absurd some_size (by simp [zero])
    simp only [ne_eq,more,not_false_iff,if_true,Memmgr.free,there,Option.map_some] at ends
    cases ends
    rw [same]
    exact ⟨nothing,fun mem free _ => still_free mem free⟩
  · obtain ⟨guarded_memory,guarded,rest⟩ := Option.bind_eq_some_iff.mp ends
    obtain ⟨next,added,rfl⟩ := Option.map_eq_some_iff.mp rest
    have more : size ≠ 0 := fun zero => absurd some_size (by simp [zero])
    have at_moved := Function.update_self a.mem (some moved) (Function.update t.memory (b.1 - 4) none)
    -- With room for both tags the size has not wrapped.
    have room := guard_block_room at_moved guarded
    rw [if_neg more] at moved_length
    have whole : moved.length = size + 8 :=
      Nat.le_antisymm (moved_length ▸ Nat.mod_le _ _) room
    have guards := guard_block_spec at_moved whole
    rw [Function.update_idem,guarded] at guards
    cases guards
    have data_length : ((moved.drop 4).take size).length = size := by
      rw [List.length_take,List.length_drop,whole]
      omega
    have free := Option.isNone_iff_eq_none.mp (unused.1 a rfl)
    obtain ⟨next',added',memory,grown⟩ := kept.add free unused.2 data_length called_from
    rw [same] at added
    cases added.symm.trans added'
    refine ⟨grown,fun mem free differ => ?_⟩
    have apart : mem ≠ a.mem := fun at_mem => differ (congrArg (fun mem => some (mem + 4)) at_mem.symm)
    exact (congrFun memory mem).trans ((Function.update_of_ne apart _ _).trans (still_free mem free))

-- A second free of a block whose bytes are still there.
theorem freed_again {block : List UInt8} (registers : Registers s cells) (absent : ∀ c ∈ cells, c.2.mem_ref ≠ ptr)
    (above : 4 ≤ ptr) (gone : s.memory (ptr - 4) = none) (room : 4 ≤ block.length) :
    (s.overwritten ptr block).cplus_mgr_free (some ptr) = some (s,CPLUS_SUCCESS) := by
  obtain ⟨linked,start,last_is,nodup,count⟩ := registers
  have placed : ∀ bytes, Registers (s.overwritten ptr bytes) cells := fun _ => ⟨linked,start,last_is,nodup,count⟩
  have there : (s.overwritten ptr block).memory (ptr - 4) = some block := Function.update_self _ _ _
  have fits : 0 + (littleEndian32 CLRCHK).length ≤ block.length := by
    rw [littleEndian32_length]
    omega
  let cleared := block.take 0 ++ littleEndian32 CLRCHK ++ block.drop (0 + (littleEndian32 CLRCHK).length)
  have wrote : write (s.overwritten ptr block).memory (ptr - 4) 0 (littleEndian32 CLRCHK) =
      some (s.overwritten ptr cleared).memory :=
    (write_spec there fits).trans (congrArg some (Function.update_idem _ _ _))
  have erased := erase_absent (placed cleared) absent
  have freed : Memmgr.free (s.overwritten ptr cleared).memory (ptr - 4) = some s.memory := by
    simp only [Memmgr.free,overwritten,Function.update_self,Option.map_some,Function.update_idem]
    rw [← gone,Function.update_eq_self]
  simp only [cplus_mgr_free]
  rw [if_pos (check_absent (placed block) absent above),wrote,Option.bind_some]
  exact (congrArg (Option.bind · _) erased).trans (congrArg (Option.map _) freed)

-- The block has the size modulo 2^32, and there is none when that is nothing.
theorem granted_length (covers : Covers s live) (member : b ∈ live) (positive : 0 < size) (a : Answer) :
    (∀ block, granted s b.1 size (some a) = some block → 0 < (size + 8) % 2^32 ∧ block.length = (size + 8) % 2^32) ∧
      (0 < (size + 8) % 2^32 → ∃ block, granted s b.1 size (some a) = some block) := by
  obtain ⟨_,_,_,there⟩ := covers.intact b member
  obtain ⟨t,erased,same,_⟩ := covers.erase member s.memory
  have erased : s.erase_mem_info b.1 = some t := erased
  rw [← same] at there
  obtain ⟨result,resized⟩ : ∃ result, realloc t.memory (b.1 - 4) ((size + 8) % 2^32) (some a) = some result := by
    unfold realloc
    rw [there]
    exact ⟨_,rfl⟩
  have grants : granted s b.1 size (some a) = result.2.bind result.1 := by
    simp only [granted,if_pos (covers.boundary member),erased,Option.bind_some,if_neg (Nat.ne_of_gt positive)]
    rw [resized,Option.bind_some]
  rcases realloc_cases there resized with ⟨nothing,rfl⟩ | ⟨_,refused,_⟩ | ⟨_,moved,_,some_size,length,rfl⟩
  · rw [grants,nothing]
    exact ⟨nofun,fun some_size => absurd some_size (Nat.lt_irrefl 0)⟩
  · cases refused
  · have at_moved : granted s b.1 size (some a) = some moved := grants.trans (Function.update_self _ _ _)
    refine ⟨fun block found => ?_,fun _ => ⟨moved,at_moved⟩⟩
    cases at_moved.symm.trans found
    exact ⟨some_size,length⟩

namespace Ledger

structure Kept (ledger : Ledger) : Prop where
  covers : Covers ledger.session.mgr ledger.session.live
  gone : ∀ ptr ∈ ledger.freed, 4 ≤ ptr ∧ ledger.session.mgr.memory (ptr - 4) = none

variable {ledger next : Ledger} {a : Action} {moves : List (Move Ledger Action)}

theorem step_parts (taken : Step ledger a next) : Permitted ledger.session a ∧
    ∃ after, call ledger.session a = some after ∧ next = ⟨after,settles ledger.freed after a⟩ := by
  simp only [Step,Follows,advance] at taken
  split at taken
  · rename_i permitted
    obtain ⟨after,called,rfl⟩ := Option.map_eq_some_iff.mp taken
    exact ⟨permitted,after,called,rfl⟩
  · cases taken

-- What was freed is not returned again.
theorem Kept.leaves (kept : Kept ledger) (leaves : Leaves ledger.session after) :
    ∀ ptr ∈ ledger.freed.filter (fun ptr => some ptr ≠ after.returned), 4 ≤ ptr ∧ after.mgr.memory (ptr - 4) = none := by
  intro ptr inside
  obtain ⟨inside,differ⟩ := List.mem_filter.mp inside
  obtain ⟨above,gone⟩ := kept.gone ptr inside
  refine ⟨above,leaves _ gone ?_⟩
  rw [Nat.sub_add_cancel above]
  exact Ne.symm (by simpa using differ)

theorem step_keeps (kept : Kept ledger) (taken : Step ledger a next) : Kept next := by
  obtain ⟨permitted,after,called,rfl⟩ := step_parts taken
  cases a with
  | malloc size site answer ex =>
    obtain ⟨covers,leaves⟩ := malloc_covers kept.covers permitted.2 called
    exact ⟨covers,kept.leaves leaves⟩
  | realloc ptr size site answer ex =>
    obtain ⟨listed,_,unused⟩ := permitted
    obtain ⟨b,member,rfl⟩ := List.mem_map.mp listed
    obtain ⟨covers,leaves⟩ := realloc_covers kept.covers member unused called
    exact ⟨covers,kept.leaves leaves⟩
  | free ptr =>
    obtain ⟨b,member,rfl⟩ := List.mem_map.mp permitted
    obtain ⟨covers,memory⟩ := free_covers kept.covers member called
    have here : after.mgr.memory (b.1 - 4) = none := (congrFun memory _).trans (Function.update_self _ _ _)
    refine ⟨covers,fun ptr inside => ?_⟩
    rcases List.mem_cons.mp inside with rfl | earlier
    · exact ⟨(kept.covers.intact b member).1,here⟩
    · obtain ⟨above,gone⟩ := kept.gone ptr earlier
      refine ⟨above,?_⟩
      by_cases same : ptr - 4 = b.1 - 4
      · exact same ▸ here
      · exact (congrFun memory _).trans ((Function.update_of_ne same _ _).trans gone)
  | write ptr offset value =>
    obtain ⟨b,member,rfl,inside⟩ := permitted
    obtain ⟨covers,written,memory⟩ := write_covers kept.covers member inside called
    refine ⟨covers,fun ptr earlier => ?_⟩
    obtain ⟨above,gone⟩ := kept.gone ptr earlier
    refine ⟨above,(congrFun memory _).trans ((Function.update_of_ne ?_ _ _).trans gone)⟩
    intro same
    obtain ⟨_,_,_,there⟩ := kept.covers.intact b member
    rw [← same,gone] at there
    cases there

theorem opened_kept : Kept opened :=
  ⟨⟨⟨[],[],start_represents,List.Subset.refl _⟩,List.nodup_nil,nofun⟩,nofun⟩

-- The entry that the check looks for is gone with the first free: every second free
-- passes, and writes to a block that the system has. Where the bytes are still there
-- it frees them again.
theorem double_free_missed (run : Run Step opened moves ledger) {ptr : Nat} (freed : ptr ∈ ledger.freed) :
    ¬ Rejected ledger.session.mgr ptr ∧ ledger.session.mgr.memory (ptr - 4) = none ∧
      ∀ block : List UInt8, 4 ≤ block.length →
        (ledger.session.mgr.overwritten ptr block).cplus_mgr_free (some ptr) = some (ledger.session.mgr,CPLUS_SUCCESS) := by
  have kept := (run.invariant opened_kept step_keeps).1
  obtain ⟨above,gone⟩ := kept.gone ptr freed
  obtain ⟨recorded,cells,represents,absent⟩ := kept.covers.unnoticed above gone
  have passes := check_absent represents.registers absent above
  refine ⟨fun rejected => rejected passes,gone,fun block room => ?_⟩
  exact freed_again represents.registers absent above gone room

-- One of two blocks is freed; the other has no node.
def returned : List Action := [.malloc 2 site (zeros 100) (some 1),.malloc 1 site (zeros 200) none,.free 104]

theorem returned_missed : ∃ moves ledger, Run Step opened moves ledger ∧ moves.map Move.action = returned ∧
    ledger.freed = [104] ∧ ¬ Rejected ledger.session.mgr 104 ∧ ledger.session.mgr.memory (104 - 4) = none ∧
      ∀ block : List UInt8, 4 ≤ block.length →
        (ledger.session.mgr.overwritten 104 block).cplus_mgr_free (some 104) =
          some (ledger.session.mgr,CPLUS_SUCCESS) := by
  obtain ⟨moves,ledger,run,same,checked⟩ := Run.of_check advance opened returned
    (fun result => decide (result.2.freed = [104])) (by decide +kernel)
  have freed := of_decide_eq_true checked
  exact ⟨moves,ledger,run,same,freed,double_free_missed run (freed ▸ List.mem_singleton_self 104)⟩

theorem returned_passes : ∃ moves ledger, Run Step opened moves ledger ∧ moves.map Move.action = returned ∧
    ¬ ∀ ptr ∈ ledger.freed, Rejected ledger.session.mgr ptr := by
  obtain ⟨moves,ledger,run,same,checked⟩ := Run.of_check advance opened returned
    (fun result => decide (104 ∈ result.2.freed) &&
      decide (result.2.session.mgr.check_boundary (104 - 4) = some CPLUS_SUCCESS)) (by decide +kernel)
  obtain ⟨freed,passes⟩ := Bool.and_eq_true_iff.mp checked
  exact ⟨moves,ledger,run,same,fun rejected => rejected 104 (of_decide_eq_true freed) (of_decide_eq_true passes)⟩

-- The size of a call that wraps around leaves the block without room for its tags.
theorem realloc_room_exact (run : Run Step opened moves ledger) {ptr size : Nat}
    (listed : ptr ∈ ledger.session.live.map Prod.fst) (answer : Answer) (positive : 0 < size) (small : size < 2^32) :
    (∀ block, granted ledger.session.mgr ptr size (some answer) = some block → size + 8 ≤ block.length) ↔
      size + 8 ≤ 2^32 := by
  have kept := (run.invariant opened_kept step_keeps).1
  obtain ⟨b,member,rfl⟩ := List.mem_map.mp listed
  obtain ⟨length,made⟩ := granted_length kept.covers member positive answer
  constructor
  · intro fits
    by_contra wraps
    obtain ⟨block,found⟩ := made (by omega)
    have room := fits block found
    rw [(length block found).2] at room
    omega
  · intro inside block found
    obtain ⟨some_size,length⟩ := length block found
    omega

-- A block of two bytes is to hold three, or all but one of 2^32.
theorem resized_room : ∃ moves ledger block, Run Step opened moves ledger ∧
    moves.map Move.action = [.malloc 2 site (zeros 100) (some 1)] ∧
    granted ledger.session.mgr 104 3 (zeros 300) = some block ∧ 3 + 8 ≤ 2^32 ∧ 3 + 8 ≤ block.length := by
  obtain ⟨moves,ledger,run,same,checked⟩ := Run.of_check advance opened [.malloc 2 site (zeros 100) (some 1)]
    (fun result => decide (104 ∈ result.2.session.live.map Prod.fst) &&
      (granted result.2.session.mgr 104 3 (zeros 300)).isSome) (by decide +kernel)
  obtain ⟨listed,found⟩ := Bool.and_eq_true_iff.mp checked
  obtain ⟨block,granted⟩ := Option.isSome_iff_exists.mp found
  have small : 3 + 8 ≤ 2^32 := by decide
  have room : 3 + 8 ≤ block.length :=
    (realloc_room_exact run (of_decide_eq_true listed) ⟨300,fun _ => 0⟩ (by decide) (by decide)).mpr small block granted
  exact ⟨moves,ledger,block,run,same,granted,small,room⟩

-- The system gives seven bytes, and the second tag goes far behind them.
theorem resized_wraps : ∃ moves ledger, Run Step opened moves ledger ∧
    moves.map Move.action = [.malloc 2 site (zeros 100) (some 1)] ∧
    (∃ block, granted ledger.session.mgr 104 (2^32 - 1) (zeros 300) = some block ∧ ¬ 2^32 - 1 + 8 ≤ block.length) ∧
    (ledger.session.mgr.cplus_mgr_realloc (some 104) (2^32 - 1) site (zeros 300) (some 1)).isNone := by
  obtain ⟨moves,ledger,run,same,checked⟩ := Run.of_check advance opened [.malloc 2 site (zeros 100) (some 1)]
    (fun result => decide ((granted result.2.session.mgr 104 (2^32 - 1) (zeros 300)).map List.length = some 7) &&
      (result.2.session.mgr.cplus_mgr_realloc (some 104) (2^32 - 1) site (zeros 300) (some 1)).isNone) (by decide +kernel)
  obtain ⟨seven,faults⟩ := Bool.and_eq_true_iff.mp checked
  obtain ⟨block,found,length⟩ := Option.map_eq_some_iff.mp (of_decide_eq_true seven)
  refine ⟨moves,ledger,run,same,⟨block,found,?_⟩,faults⟩
  rw [length]
  decide

end Ledger
end Libcplus.Memmgr
