import Libcplus.Program
import Mathlib.Algebra.Order.Group.Multiset
import Mathlib.Data.Multiset.Range
import Mathlib.Tactic.Abel

-- Programs that acquire and release resources.
namespace Ownership
open Program
variable {κ ε α β : Type}

-- What was acquired, in this order, and the numbers of what was released. The number
-- of a resource is its place among those acquired, so no two ever share one.
structure Ledger (κ : Type) where
  acquired : List κ
  released : List Nat

def opened : Ledger κ := ⟨[],[]⟩

def acquire (granted : Bool) (kind : κ) : Prog (Ledger κ) ε (Option Nat) := fun s =>
  if granted then .ok (some s.acquired.length,{s with acquired := s.acquired ++ [kind]}) else .ok (none,s)

-- A second release of the same resource is entered once more.
def release (number : Nat) : Prog (Ledger κ) ε Unit := modify fun s => {s with released := s.released ++ [number]}

-- For a pointer that may be null.
def whenSome (delete : β → Prog (Ledger κ) ε Unit) : Option β → Prog (Ledger κ) ε Unit
  | none => pure ()
  | some b => delete b

-- A part without which the rest cannot go on.
def demand (make : Prog (Ledger κ) ε (Option β)) (fail : Prog (Ledger κ) ε α) (next : β → Prog (Ledger κ) ε α) :
    Prog (Ledger κ) ε α := do
  match ← make with
  | none => fail
  | some b => next b

def ReleasedOnce (s : Ledger κ) : Prop := ∀ number < s.acquired.length, s.released.count number = 1

-- What is acquired and not released.
def Holds (s : Ledger κ) (owned : Multiset Nat) : Prop :=
  Multiset.range s.acquired.length = (s.released : Multiset Nat) + owned

-- A program that is given `owned` answers and leaves what `left` says, whatever else
-- is held around it.
def Passes (owned : Multiset Nat) (prog : Prog (Ledger κ) ε α) (left : α → Multiset Nat → Prop) : Prop :=
  ∀ s frame, Holds s (owned + frame) → ∃ a t rest, prog s = .ok (a,t) ∧ left a rest ∧ Holds t (rest + frame)

-- What an optional part owns.
def ownedBy (owns : β → Multiset Nat) : Option β → Multiset Nat
  | none => 0
  | some b => owns b

variable {s : Ledger κ} {owned more rest : Multiset Nat} {prog : Prog (Ledger κ) ε α} {next : α → Prog (Ledger κ) ε β}
  {left mid : α → Multiset Nat → Prop} {last : β → Multiset Nat → Prop}

@[simp] theorem ownedBy_none (owns : β → Multiset Nat) : ownedBy owns none = 0 := rfl

@[simp] theorem ownedBy_some (owns : β → Multiset Nat) (b : β) : ownedBy owns (some b) = owns b := rfl

theorem holds_opened : Holds (opened : Ledger κ) 0 := rfl

-- Each number was acquired at most once.
theorem holds_count (holds : Holds s owned) (number : Nat) :
    s.released.count number + owned.count number = if number < s.acquired.length then 1 else 0 := by
  rw [← Multiset.coe_count,← Multiset.count_add,← holds]
  split
  · exact Multiset.count_eq_one_of_mem (Multiset.nodup_range _) (Multiset.mem_range.mpr ‹_›)
  · exact Multiset.count_eq_zero.mpr fun there => ‹¬ _› (Multiset.mem_range.mp there)

theorem released_at_most_once (holds : Holds s owned) (number : Nat) : s.released.count number ≤ 1 := by
  have counted := holds_count holds number
  split at counted <;> omega

theorem released_once_iff (holds : Holds s owned) : ReleasedOnce s ↔ owned = 0 := by
  constructor
  · intro once
    apply Multiset.eq_zero_of_forall_notMem
    intro number there
    have counted := holds_count holds number
    have present := Multiset.count_pos.mpr there
    split at counted
    · have all := once number ‹_›
      omega
    · omega
  · rintro rfl number small
    have counted := holds_count holds number
    rw [if_pos small,Multiset.count_zero] at counted
    exact counted

theorem Passes.pure (a : α) (reached : left a owned) : Passes owned (pure a : Prog (Ledger κ) ε α) left :=
  fun s _ holds => ⟨a,s,owned,rfl,reached,holds⟩

theorem Passes.bind (first : Passes owned prog mid) (then_ : ∀ a rest, mid a rest → Passes rest (next a) last) :
    Passes owned (prog >>= next) last := by
  intro s frame holds
  obtain ⟨a,t,rest,ran,reached,holds⟩ := first s frame holds
  obtain ⟨b,u,end_,answered,reached,holds⟩ := then_ a rest reached t frame holds
  exact ⟨b,u,end_,(bind_ok ran).trans answered,reached,holds⟩

theorem Passes.imp (passes : Passes owned prog mid) (weaker : ∀ a rest, mid a rest → left a rest) :
    Passes owned prog left := by
  intro s frame holds
  obtain ⟨a,t,rest,ran,reached,holds⟩ := passes s frame holds
  exact ⟨a,t,rest,ran,weaker a rest reached,holds⟩

-- What the program does not touch stays owned.
theorem Passes.beside (passes : Passes owned prog left) (other : Multiset Nat) :
    Passes (owned + other) prog fun a rest => ∃ part, left a part ∧ rest = part + other := by
  intro s frame holds
  rw [add_assoc] at holds
  obtain ⟨a,t,part,ran,reached,holds⟩ := passes s (other + frame) holds
  rw [← add_assoc] at holds
  exact ⟨a,t,part + other,ran,⟨part,reached,rfl⟩,holds⟩

theorem Passes.acquire (granted : Bool) (kind : κ) : Passes 0 (acquire granted kind : Prog (Ledger κ) ε (Option Nat))
    fun number rest => rest = ownedBy ({·}) number ∧ (number = none ↔ granted = false) := by
  intro s frame holds
  unfold Ownership.acquire
  cases granted with
  | false => exact ⟨none,s,0,rfl,⟨rfl,iff_of_true rfl rfl⟩,holds⟩
  | true =>
    refine ⟨some s.acquired.length,_,{s.acquired.length},rfl,⟨rfl,iff_of_false nofun nofun⟩,?_⟩
    unfold Holds at holds ⊢
    rw [List.length_append,List.length_singleton,Multiset.range_succ,holds,← Multiset.singleton_add]
    abel

theorem Passes.demand {make : Prog (Ledger κ) ε (Option β)} {fail : Prog (Ledger κ) ε α} {next : β → Prog (Ledger κ) ε α}
    {such : Option β → Multiset Nat → Prop} (made : Passes more make such)
    (fails : ∀ rest, such none rest → Passes (rest + owned) fail left)
    (goes : ∀ b rest, such (some b) rest → Passes (rest + owned) (next b) left) :
    Passes (more + owned) (demand make fail next) left := by
  apply (made.beside owned).bind
  rintro b _ ⟨rest,known,rfl⟩
  cases b with
  | none => exact fails rest known
  | some b => exact goes b rest known

-- The part needs nothing, and where it fails nothing of it is left.
theorem Passes.demand_new {make : Prog (Ledger κ) ε (Option β)} {fail : Prog (Ledger κ) ε α} {next : β → Prog (Ledger κ) ε α}
    {owns : β → Multiset Nat} {such : Option β → Prop} (made : Passes 0 make fun b rest => rest = ownedBy owns b ∧ such b)
    (fails : such none → Passes owned fail left) (goes : ∀ b, such (some b) → Passes (owns b + owned) (next b) left) :
    Passes owned (Ownership.demand make fail next) left := by
  rw [← zero_add owned]
  apply made.demand
  · rintro _ ⟨rfl,known⟩
    rw [ownedBy_none,zero_add]
    exact fails known
  · rintro b _ ⟨rfl,known⟩
    exact goes b known

-- A program that gives up all that it is given.
def Discharges (owned : Multiset Nat) (prog : Prog (Ledger κ) ε Unit) : Prop := Passes owned prog fun _ rest => rest = 0

theorem Discharges.release (number : Nat) : Discharges {number} (release number : Prog (Ledger κ) ε Unit) := by
  intro s frame holds
  refine ⟨(),_,0,rfl,rfl,?_⟩
  unfold Holds at holds ⊢
  rw [holds,← Multiset.coe_add,Multiset.coe_singleton]
  abel

theorem Discharges.whenSome {delete : β → Prog (Ledger κ) ε Unit} {owns : β → Multiset Nat} {part : Option β}
    (discharges : ∀ b, part = some b → Discharges (owns b) (delete b)) :
    Discharges (ownedBy owns part) (whenSome delete part) := by
  cases part with
  | none => exact .pure () rfl
  | some b => exact discharges b rfl

-- One part is given up and the rest goes on with the others.
theorem Discharges.then {first : Prog (Ledger κ) ε Unit} {rest : Prog (Ledger κ) ε α} (discharges : Discharges owned first)
    (then_ : Passes more rest left) : Passes (owned + more) (first >>= fun _ => rest) left := by
  apply (discharges.beside more).bind
  rintro _ _ ⟨_,rfl,rfl⟩
  rw [zero_add]
  exact then_

-- Whenever the program answers, it is with an object exactly when `granted`.
def Decided (granted : Prop) (prog : Prog (Ledger κ) ε (Option β)) : Prop :=
  ∀ s b t, prog s = .ok (b,t) → (b.isSome = true ↔ granted)

theorem Decided.some (b : β) : Decided True (Pure.pure (Option.some b) : Prog (Ledger κ) ε (Option β)) := by
  intro s answer t ran
  cases ran
  simp

theorem Decided.none : Decided False (Pure.pure Option.none : Prog (Ledger κ) ε (Option β)) := by
  intro s answer t ran
  cases ran
  simp

theorem Decided.after {granted : Prop} {first : Prog (Ledger κ) ε α} {prog : Prog (Ledger κ) ε (Option β)}
    (decided : Decided granted prog) : Decided granted (first >>= fun _ => prog) := by
  intro s answer t ran
  obtain ⟨_,u,_,then_⟩ := bind_iff.mp ran
  exact decided u answer t then_

theorem Decided.acquire (granted : Bool) (kind : κ) :
    Decided (granted = true) (Ownership.acquire granted kind : Prog (Ledger κ) ε (Option Nat)) := by
  intro s answer t ran
  unfold Ownership.acquire at ran
  split at ran <;> cases ran <;> simp_all

theorem Decided.demand {first then_ : Prop} {make : Prog (Ledger κ) ε (Option β)} {fail : Prog (Ledger κ) ε (Option α)}
    {next : β → Prog (Ledger κ) ε (Option α)} (made : Decided first make) (fails : Decided False fail)
    (goes : ∀ b, Decided then_ (next b)) : Decided (first ∧ then_) (Ownership.demand make fail next) := by
  intro s answer t ran
  obtain ⟨part,u,ran,rest⟩ := bind_iff.mp ran
  have decided := made s part u ran
  cases part with
  | none =>
    rw [fails u answer t rest,← decided]
    simp
  | some b =>
    rw [goes b u answer t rest,← decided]
    simp

theorem Decided.ite {c then_ : Prop} [Decidable c] {prog other : Prog (Ledger κ) ε (Option β)} (yes : Decided then_ prog)
    (no : Decided False other) : Decided (c ∧ then_) (if c then prog else other) := by
  intro s answer t ran
  split at ran
  · rw [yes s answer t ran]
    simp [‹c›]
  · rw [no s answer t ran]
    simp [‹¬ c›]

end Ownership
