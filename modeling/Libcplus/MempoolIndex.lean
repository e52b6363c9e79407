import Libcplus.Mempool

namespace Libcplus.Mempool
open Bytes Memory Transition

variable {mp after : Mempool} {outcome : Outcome} {block_count block_size i j : Nat} {stack chain : List Nat}

section Geometry

-- The blocks are apart, inside the region, and found again by their addresses.
structure Geometry (mp : Mempool) : Prop where
  inside : ∀ i, i < mp.block_count → mp.index_to_addr i + mp.block_size ≤ mp.mem_start.length
  apart : ∀ i j, i < mp.block_count → j < mp.block_count → i ≠ j →
    mp.index_to_addr i + mp.block_size ≤ mp.index_to_addr j ∨ mp.index_to_addr j + mp.block_size ≤ mp.index_to_addr i
  index : ∀ i, i < mp.block_count → mp.addr_to_index (mp.index_to_addr i) = i

theorem new_parts (new : cplus_mempool_new outcome block_count block_size = some mp) :
    mp.block_count = block_count ∧ mp.block_size = block_size ∧ 4 ≤ block_size ∧
      mp.mem_start.length = block_count * block_size % 2^32 := by
  unfold cplus_mempool_new at new
  split at new
  · cases new
  · split at new
    · cases new
    · rename_i room
      obtain ⟨mem,obtained,rfl⟩ := Option.map_eq_some_iff.mp new
      exact ⟨rfl,rfl,Nat.le_of_not_lt room,malloc_length obtained⟩

-- The products wrap around when the region is to have 2^32 bytes or more, and the
-- region that is allocated then is smaller than its blocks.
theorem geometry_exact (new : cplus_mempool_new outcome block_count block_size = some mp) :
    Geometry mp ↔ block_count * block_size < 2^32 := by
  obtain ⟨rfl,rfl,room,length⟩ := new_parts new
  constructor
  · intro geometry
    have packed : (Finset.range mp.block_count).card * mp.block_size ≤ mp.mem_start.length := by
      refine BlockPool.packed (fun i member => geometry.inside i (Finset.mem_range.mp member)) ?_
      intro i here j there differ
      exact geometry.apart i j (Finset.mem_range.mp here) (Finset.mem_range.mp there) differ
    rw [Finset.card_range,length] at packed
    exact Nat.lt_of_le_of_lt packed (Nat.mod_lt _ (by decide))
  · intro small
    rw [Nat.mod_eq_of_lt small] at length
    refine ⟨fun i within => ?_,fun i j within inside differ => ?_,fun i within => ?_⟩
    · rw [index_to_addr_spec small within,length]
      exact block_inside within
    · rw [index_to_addr_spec small within,index_to_addr_spec small inside]
      exact blocks_apart differ
    · rw [index_to_addr_spec small within]
      exact addr_to_index_spec room small within

-- A pool of two blocks.
theorem two_blocks_geometry : ∃ mp, cplus_mempool_new (some fun _ => 0) 2 4 = some mp ∧ 2 * 4 < 2^32 ∧ Geometry mp := by
  obtain ⟨mp,new⟩ : ∃ mp, cplus_mempool_new (some fun _ => 0) 2 4 = some mp := ⟨_,rfl⟩
  have small : 2 * 4 < 2^32 := by decide
  exact ⟨mp,new,small,(geometry_exact new).mpr small⟩

-- The region of 2^30 + 1 blocks of four bytes has four bytes.
theorem wrapped_geometry : ∃ mp, cplus_mempool_new (some fun _ => 0) (2^30 + 1) 4 = some mp ∧
    mp.mem_start.length = 4 ∧ ¬ Geometry mp := by
  refine ⟨⟨2^30 + 1,4,2^30 + 1,0,[0,0,0,0],some 0⟩,rfl,rfl,fun geometry => ?_⟩
  exact absurd (geometry.inside 1 (by decide)) (by decide)

end Geometry

section Indices

-- These two take the lock for one read of the pool. The address is not NULL.
def cplus_mempool_get_index (mp : Mempool) (addr : Nat) : Nat := mp.addr_to_index addr

def cplus_mempool_get_addr_by_index (mp : Mempool) (index : Nat) : Nat := mp.index_to_addr index

def cplus_mempool_alloc_as_index (mp : Mempool) : Option (Mempool × Nat) :=
  mp.cplus_mempool_alloc.map fun (mp,addr) =>
    match addr with
    | some addr => (mp,mp.cplus_mempool_get_index addr)
    | none => (mp,0)

def cplus_mempool_free_by_index (mp : Mempool) (index : Nat) : Option Mempool :=
  mp.cplus_mempool_free (mp.cplus_mempool_get_addr_by_index index)

-- An index comes off the stack, and 0 when there is none.
theorem alloc_as_index_spec (stands : Stands mp stack chain) : ∃ after chain',
    mp.cplus_mempool_alloc_as_index = some (after,stack.headD 0) ∧ Stands after stack.tail chain' ∧
      after.block_count = mp.block_count ∧ after.block_size = mp.block_size := by
  obtain ⟨after,chain',done,kept,count,size⟩ := alloc_spec stands
  refine ⟨after,chain',?_,kept,count,size⟩
  unfold cplus_mempool_alloc_as_index
  rw [done,Option.map_some]
  cases stack with
  | nil => rfl
  | cons i below =>
    have within : i < after.block_count := count ▸ parts_within stands List.mem_cons_self
    have index := addr_to_index_spec kept.room kept.small within
    rw [size] at index
    simp only [List.head?_cons,Option.map_some,cplus_mempool_get_index,index,List.headD_cons]

theorem free_by_index_spec (stands : Stands mp stack chain) (within : i < mp.block_count) (outside : i ∉ stack) :
    ∃ after, mp.cplus_mempool_free_by_index i = some after ∧ Stands after (i :: stack) (i :: chain) ∧
      after.block_count = mp.block_count ∧ after.block_size = mp.block_size := by
  unfold cplus_mempool_free_by_index cplus_mempool_get_addr_by_index
  rw [index_to_addr_spec stands.small within]
  exact free_spec stands within outside

-- A caller that keeps every index it is given until it frees it.
structure Holder where
  pool : Option Mempool
  live : List Nat
  answer : Option Nat

inductive Use where
  | alloc
  | free (index : Nat)
  | write (index offset : Nat) (byte : UInt8)
  deriving DecidableEq

namespace Holder

def created (mp : Mempool) : Holder := ⟨some mp,[],none⟩

def call (holder : Holder) : Use → Holder
  | .alloc =>
    match holder.pool.bind cplus_mempool_alloc_as_index with
    | none => {holder with pool := none,answer := none}
    | some (mp,index) => ⟨some mp,index :: holder.live,some index⟩
  | .free index =>
    ⟨holder.pool.bind fun mp => mp.cplus_mempool_free_by_index index,holder.live.erase index,none⟩
  | .write index offset byte =>
    ⟨holder.pool.bind fun mp => mp.write_block (mp.cplus_mempool_get_addr_by_index index + offset) byte,holder.live,none⟩

-- Only live indices are freed, and their blocks are written inside their bounds.
def Legal (block_size : Nat) (holder : Holder) : Use → Prop
  | .alloc => True
  | .free index => index ∈ holder.live
  | .write index offset _ => index ∈ holder.live ∧ offset < block_size

instance (block_size : Nat) (holder : Holder) (call : Use) : Decidable (Legal block_size holder call) := by
  cases call <;> unfold Legal <;> infer_instance

def advance (block_size : Nat) (holder : Holder) (call : Use) : Option Holder :=
  if Legal block_size holder call then some (holder.call call) else none

abbrev Step (block_size : Nat) : Holder → Use → Holder → Prop := Follows (advance block_size)

-- No index is held twice, and what is held and what is free are all the blocks.
structure Sound (block_count : Nat) (holder : Holder) : Prop where
  pool : ∃ mp, holder.pool = some mp ∧ mp.free_blocks_count + holder.live.length = block_count
  nodup : holder.live.Nodup
  within : ∀ i ∈ holder.live, i < block_count

-- An alloc is made while a block is free.
def Spare (holder : Holder) : Use → Prop
  | .alloc => ∃ mp, holder.pool = some mp ∧ 0 < mp.free_blocks_count
  | _ => True

structure Accounts (block_count block_size : Nat) (holder : Holder) (mp : Mempool) (stack chain : List Nat) : Prop where
  pool : holder.pool = some mp
  stands : Stands mp stack chain
  count : mp.block_count = block_count
  size : mp.block_size = block_size
  all : (holder.live ++ stack).Perm (List.range block_count)

def Invariant (block_count block_size : Nat) (holder : Holder) : Prop :=
  ∃ mp stack chain, Accounts block_count block_size holder mp stack chain

variable {holder next : Holder} {call : Use}

theorem Accounts.apart (accounts : Accounts block_count block_size holder mp stack chain) :
    holder.live.Nodup ∧ (∀ i ∈ holder.live, i < block_count ∧ i ∉ stack) ∧
      holder.live.length + stack.length = block_count := by
  have nodup := accounts.all.nodup_iff.mpr List.nodup_range
  obtain ⟨live_nodup,_,differ⟩ := List.nodup_append.mp nodup
  refine ⟨live_nodup,fun i member => ⟨?_,fun there => differ i member i there rfl⟩,?_⟩
  · exact List.mem_range.mp (accounts.all.subset (List.mem_append_left _ member))
  · rw [← List.length_append,accounts.all.length_eq,List.length_range]

theorem sound (valid : Invariant block_count block_size holder) : Sound block_count holder := by
  obtain ⟨mp,stack,chain,accounts⟩ := valid
  obtain ⟨nodup,within,total⟩ := accounts.apart
  refine ⟨⟨mp,accounts.pool,?_⟩,nodup,fun i member => (within i member).1⟩
  rw [accounts.stands.count]
  omega

theorem step_parts (taken : Step block_size holder call next) : Legal block_size holder call ∧ next = holder.call call := by
  unfold Step Follows advance at taken
  split at taken
  · rename_i legal
    exact ⟨legal,(Option.some.inj taken).symm⟩
  · cases taken

theorem alloc_result (accounts : Accounts block_count block_size holder mp stack chain) : ∃ after chain',
    holder.call .alloc = ⟨some after,stack.headD 0 :: holder.live,some (stack.headD 0)⟩ ∧
      Stands after stack.tail chain' ∧ after.block_count = block_count ∧ after.block_size = block_size := by
  obtain ⟨after,chain',done,stands,count,size⟩ := alloc_as_index_spec accounts.stands
  refine ⟨after,chain',?_,stands,count.trans accounts.count,size.trans accounts.size⟩
  simp only [call,accounts.pool,Option.bind_some,done]

theorem step_keeps (valid : Invariant block_count block_size holder) (taken : Step block_size holder call next)
    (spare : Spare holder call) : Invariant block_count block_size next := by
  obtain ⟨mp,stack,chain,accounts⟩ := valid
  obtain ⟨legal,rfl⟩ := step_parts taken
  obtain ⟨nodup,within,total⟩ := accounts.apart
  cases call with
  | alloc =>
    obtain ⟨after,chain',result,stands,count,size⟩ := alloc_result accounts
    obtain ⟨mp',pool,some_free⟩ := spare
    cases accounts.pool.symm.trans pool
    rw [accounts.stands.count] at some_free
    rw [result]
    cases stack with
    | nil => cases some_free
    | cons i below => exact ⟨after,below,chain',rfl,stands,count,size,List.perm_middle.symm.trans accounts.all⟩
  | free index =>
    obtain ⟨inside,outside⟩ := within index legal
    obtain ⟨after,done,stands,count,size⟩ := free_by_index_spec accounts.stands (accounts.count ▸ inside) outside
    have pool : (holder.call (.free index)).pool = some after := by
      simp only [Holder.call,accounts.pool,Option.bind_some,done]
    refine ⟨after,index :: stack,index :: chain,pool,stands,count.trans accounts.count,size.trans accounts.size,?_⟩
    refine List.perm_middle.trans (.trans ?_ accounts.all)
    exact (List.perm_cons_erase legal).symm.append_right stack
  | write index offset byte =>
    obtain ⟨bounded,outside⟩ := within index legal.1
    obtain ⟨after,done,stands,count,size⟩ :=
      write_spec accounts.stands (accounts.count ▸ bounded) outside (accounts.size ▸ legal.2) byte
    have pool : (holder.call (.write index offset byte)).pool = some after := by
      simp only [Holder.call,accounts.pool,Option.bind_some,cplus_mempool_get_addr_by_index]
      rw [index_to_addr_spec accounts.stands.small (accounts.count ▸ bounded)]
      exact done
    exact ⟨after,stack,chain,pool,stands,count.trans accounts.count,size.trans accounts.size,accounts.all⟩

-- The answer of a pool without a free block is the index of a block that is held.
theorem exhausted_breaks (valid : Invariant block_count block_size holder) (positive : 0 < block_count)
    (taken : Step block_size holder call next) (missed : ¬ Spare holder call) : ¬ Sound block_count next := by
  obtain ⟨mp,stack,chain,accounts⟩ := valid
  obtain ⟨_,rfl⟩ := step_parts taken
  cases call with
  | alloc =>
    obtain ⟨after,chain',result,_⟩ := alloc_result accounts
    have empty : stack = [] := by
      apply List.length_eq_zero_iff.mp
      by_contra some_left
      exact missed ⟨mp,accounts.pool,accounts.stands.count ▸ Nat.pos_of_ne_zero some_left⟩
    subst empty
    have held : 0 ∈ holder.live := by
      have member := accounts.all.mem_iff.mpr (List.mem_range.mpr positive)
      rwa [List.append_nil] at member
    intro sound
    have nodup := sound.nodup
    rw [result] at nodup
    exact (List.nodup_cons.mp nodup).1 held
  | free index => exact absurd trivial missed
  | write index offset byte => exact absurd trivial missed

theorem created_invariant (small : block_count * block_size < 2^32)
    (new : cplus_mempool_new outcome block_count block_size = some mp) :
    Invariant block_count block_size (created mp) := by
  obtain ⟨stands,count,size⟩ := new_spec small new
  exact ⟨mp,_,[],rfl,stands,count,size,.refl _⟩

theorem index_allocation_exact (small : block_count * block_size < 2^32)
    (new : cplus_mempool_new outcome block_count block_size = some mp) {moves : List (Move Holder Use)}
    (run : Run (Step block_size) (created mp) moves holder) : Throughout (Sound block_count) moves ↔ Meets Spare moves := by
  have positive : 0 < block_count := by
    unfold cplus_mempool_new at new
    split at new
    · cases new
    · exact Nat.pos_of_ne_zero (Ne.symm ‹_›)
  exact run.exact (created_invariant small new) step_keeps sound fun valid => exhausted_breaks valid positive

-- Both blocks are allocated, one is written and freed, and allocated again.
theorem two_blocks_indices : ∃ mp moves holder, cplus_mempool_new (some fun _ => 0) 2 4 = some mp ∧
    Run (Step 4) (created mp) moves holder ∧
    moves.map Move.action = [.alloc,.alloc,.write 1 3 255,.free 1,.alloc] ∧
    Meets Spare moves ∧ Throughout (Sound 2) moves := by
  have new : cplus_mempool_new (some fun _ => 0) 2 4 = some Client.two_blocks := rfl
  obtain ⟨moves,holder,run,same,checked⟩ := Run.of_check (advance 4) (created Client.two_blocks)
    [.alloc,.alloc,.write 1 3 255,.free 1,.alloc] (fun result => result.1.all fun m =>
      m.action != .alloc || m.before.pool.any fun (mp : Mempool) => 0 < mp.free_blocks_count) (by decide +kernel)
  have spare : Meets Spare moves := by
    intro m member
    have found := List.all_eq_true.mp checked m member
    unfold Spare
    split
    · rename_i alloc
      simp only [alloc,bne_self_eq_false,Bool.false_or] at found
      obtain ⟨mp,there,free⟩ := (Option.any_eq_true _ _).mp found
      exact ⟨mp,there,of_decide_eq_true free⟩
    · trivial
  exact ⟨Client.two_blocks,moves,holder,new,run,same,spare,(index_allocation_exact (by decide) new run).mpr spare⟩

-- An empty pool hands out index 0 once more. Freed twice, it counts two free blocks out of one.
theorem empty_pool_index : ∃ mp moves holder, cplus_mempool_new (some fun _ => 0) 1 4 = some mp ∧
    Run (Step 4) (created mp) moves holder ∧ moves.map Move.action = [.alloc,.alloc,.free 0,.free 0] ∧
    (∀ after, holder.pool = some after → after.free_blocks_count = 2) ∧ ¬ Throughout (Sound 1) moves := by
  have new : cplus_mempool_new (some fun _ => 0) 1 4 = some ⟨1,4,1,0,[0,0,0,0],some 0⟩ := rfl
  obtain ⟨moves,holder,run,same,checked⟩ := Run.of_check (advance 4) (created ⟨1,4,1,0,[0,0,0,0],some 0⟩)
    [.alloc,.alloc,.free 0,.free 0] (fun result => decide (∃ m ∈ result.1,¬ m.after.live.Nodup) &&
      decide (result.2.pool.map (·.free_blocks_count) = some 2)) (by decide +kernel)
  obtain ⟨twice,counted⟩ := Bool.and_eq_true_iff.mp checked
  refine ⟨_,moves,holder,new,run,same,fun after pool => ?_,fun sound => ?_⟩
  · have counted := of_decide_eq_true counted
    rw [pool] at counted
    exact Option.some.inj counted
  · obtain ⟨m,member,held_twice⟩ := of_decide_eq_true twice
    exact held_twice (sound m member).nodup

end Holder

end Indices

end Libcplus.Mempool
