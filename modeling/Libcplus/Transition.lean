import Mathlib.Algebra.BigOperators.Group.Finset.Piecewise
import Mathlib.Data.Fintype.Basic
import Mathlib.Data.List.Basic

namespace Transition
universe u v
variable {σ : Type u} {α : Type v}

-- One executed step, kept with the states around it, so that a property of a
-- run can speak about every state it passes and every action it takes.
structure Move (σ : Type u) (α : Type v) where
  before : σ
  action : α
  after : σ

inductive Run (step : σ → α → σ → Prop) (origin : σ) : List (Move σ α) → σ → Prop where
  | nil : Run step origin [] origin
  | snoc {moves s a t} : Run step origin moves s → step s a t →
      Run step origin (moves ++ [⟨s,a,t⟩]) t

-- The steps of a machine given by a partial function.
def Follows (advance : σ → α → Option σ) (s : σ) (a : α) (t : σ) : Prop := advance s a = some t

def execute (advance : σ → α → Option σ) : σ → List α → Option (List (Move σ α) × σ)
  | s,[] => some ([],s)
  | s,a :: rest => (advance s a).bind fun t =>
    (execute advance t rest).map fun result => (⟨s,a,t⟩ :: result.1,result.2)

variable {step : σ → α → σ → Prop} {origin s t u : σ} {moves : List (Move σ α)}

-- A condition on steps, checked where each step of the run was taken.
def Meets (cond : σ → α → Prop) (moves : List (Move σ α)) : Prop :=
  ∀ m ∈ moves, cond m.before m.action

instance (cond : σ → α → Prop) [∀ s a, Decidable (cond s a)] (moves : List (Move σ α)) :
    Decidable (Meets cond moves) :=
  inferInstanceAs (Decidable (∀ m ∈ moves, cond m.before m.action))

def Throughout (P : σ → Prop) (moves : List (Move σ α)) : Prop :=
  ∀ m ∈ moves, P m.after

theorem meets_snoc {cond : σ → α → Prop} {m : Move σ α} :
    Meets cond (moves ++ [m]) ↔ Meets cond moves ∧ cond m.before m.action := by
  simp [Meets,or_imp,forall_and]

theorem throughout_snoc {P : σ → Prop} {m : Move σ α} :
    Throughout P (moves ++ [m]) ↔ Throughout P moves ∧ P m.after := by
  simp [Throughout,or_imp,forall_and]

theorem meets_nil {cond : σ → α → Prop} : Meets cond ([] : List (Move σ α)) := by simp [Meets]
theorem throughout_nil {P : σ → Prop} : Throughout P ([] : List (Move σ α)) := by simp [Throughout]

theorem Throughout.imp {P Q : σ → Prop} (holds : Throughout P moves) (imp : ∀ s, P s → Q s) :
    Throughout Q moves := fun m member => imp _ (holds m member)

theorem Run.cons {a : α} (taken : step s a t) (run : Run step t moves u) :
    Run step s (⟨s,a,t⟩ :: moves) u := by
  induction run with
  | nil => exact Run.nil.snoc taken
  | snoc _ next ih => exact ih.snoc next

theorem Run.imp {other : σ → α → σ → Prop} (run : Run step origin moves s)
    (imp : ∀ s a t, step s a t → other s a t) : Run other origin moves s := by
  induction run with
  | nil => exact .nil
  | snoc _ taken ih => exact ih.snoc (imp _ _ _ taken)

-- A condition that every step of the run met is part of its steps.
theorem Run.meeting {cond : σ → α → Prop} (run : Run step origin moves s) (met : Meets cond moves) :
    Run (fun s a t => step s a t ∧ cond s a) origin moves s := by
  induction run with
  | nil => exact .nil
  | snoc _ taken ih =>
    obtain ⟨earlier,here⟩ := meets_snoc.mp met
    exact (ih earlier).snoc ⟨taken,here⟩

-- The run up to one of its moves.
theorem Run.reaches {before after : List (Move σ α)} {m : Move σ α}
    (run : Run step origin (before ++ m :: after) s) :
    Run step origin before m.before ∧ step m.before m.action m.after := by
  generalize same : before ++ m :: after = moves at run
  induction run generalizing after with
  | nil => simp at same
  | @snoc moves s a t prior taken ih =>
      rcases List.eq_nil_or_concat after with rfl | ⟨rest,last,rfl⟩
      · obtain ⟨rfl,tail⟩ := List.append_inj' same rfl
        obtain rfl := List.singleton_inj.mp tail
        exact ⟨prior,taken⟩
      · rw [List.concat_eq_append,← List.cons_append,← List.append_assoc] at same
        exact ih (List.append_inj' same rfl).1

theorem Run.of_execute (advance : σ → α → Option σ) (s : σ) (actions : List α)
    (ran : execute advance s actions = some (moves,t)) :
    Run (Follows advance) s moves t ∧ moves.map Move.action = actions := by
  induction actions generalizing s moves with
  | nil => cases ran; exact ⟨.nil,rfl⟩
  | cons a rest ih =>
      cases taken : advance s a with
      | none => simp [execute,taken] at ran
      | some next =>
          cases tail : execute advance next rest with
          | none => simp [execute,taken,tail] at ran
          | some result =>
              obtain ⟨later,last⟩ := result
              simp only [execute,taken,tail,Option.bind_some,Option.map_some,Option.some.injEq,
                Prod.mk.injEq] at ran
              obtain ⟨rfl,rfl⟩ := ran
              obtain ⟨run,same⟩ := ih next tail
              exact ⟨run.cons taken,by simp [same]⟩

theorem Run.of_executes (advance : σ → α → Option σ) (s : σ) (actions : List α)
    (ran : (execute advance s actions).isSome = true) :
    ∃ moves t, execute advance s actions = some (moves,t) ∧ Run (Follows advance) s moves t ∧
      moves.map Move.action = actions := by
  obtain ⟨⟨moves,t⟩,result⟩ := Option.isSome_iff_exists.mp ran
  exact ⟨moves,t,result,Run.of_execute advance s actions result⟩

theorem Run.of_check (advance : σ → α → Option σ) (s : σ) (actions : List α)
    (check : List (Move σ α) × σ → Bool) (passes : (execute advance s actions).any check = true) :
    ∃ moves t, Run (Follows advance) s moves t ∧ moves.map Move.action = actions ∧
      check (moves,t) = true := by
  cases ran : execute advance s actions with
  | none =>
    rw [ran] at passes
    cases passes
  | some result =>
    obtain ⟨moves,t⟩ := result
    rw [ran] at passes
    obtain ⟨run,same⟩ := Run.of_execute advance s actions ran
    exact ⟨moves,t,run,same,passes⟩

theorem execute_snoc (advance : σ → α → Option σ) (s : σ) (actions : List α) {a : α}
    (ran : execute advance s actions = some (moves,t)) (taken : advance t a = some u) :
    execute advance s (actions ++ [a]) = some (moves ++ [⟨t,a,u⟩],u) := by
  induction actions generalizing s moves with
  | nil => cases ran; simp [execute,taken]
  | cons b rest ih =>
      cases first : advance s b with
      | none => simp [execute,first] at ran
      | some next =>
          cases tail : execute advance next rest with
          | none => simp [execute,first,tail] at ran
          | some result =>
              obtain ⟨later,last⟩ := result
              simp only [execute,first,tail,Option.bind_some,Option.map_some,Option.some.injEq,
                Prod.mk.injEq] at ran
              obtain ⟨rfl,rfl⟩ := ran
              simp only [List.cons_append,execute,first,Option.bind_some,ih next tail,
                Option.map_some]

-- Such a machine has one run for each list of actions.
theorem Run.executes {advance : σ → α → Option σ} (run : Run (Follows advance) s moves t) :
    execute advance s (moves.map Move.action) = some (moves,t) := by
  induction run with
  | nil => rfl
  | snoc _ taken ih =>
      rw [List.map_append]
      exact execute_snoc advance s _ ih taken

-- An invariant whose preservation needs a condition on the step: a run all of
-- whose steps meet the condition keeps it in every state.
theorem Run.keeps {J : σ → Prop} (run : Run step origin moves s) (cond : σ → α → Prop)
    (start : J origin) (keep : ∀ {s a t}, J s → step s a t → cond s a → J t)
    (met : Meets cond moves) : J s ∧ Throughout J moves := by
  induction run with
  | nil => exact ⟨start,throughout_nil⟩
  | snoc prior taken ih =>
      obtain ⟨earlier,here⟩ := meets_snoc.mp met
      obtain ⟨held,all⟩ := ih earlier
      have next := keep held taken here
      exact ⟨next,throughout_snoc.mpr ⟨all,next⟩⟩

-- Such a run, move by move.
theorem Run.each {J : σ → Prop} (run : Run step origin moves s) (cond : σ → α → Prop)
    (start : J origin) (keep : ∀ {s a t}, J s → step s a t → cond s a → J t)
    (met : Meets cond moves) : ∀ m ∈ moves, J m.before ∧ step m.before m.action m.after := by
  induction run with
  | nil => simp
  | snoc prior taken ih =>
      obtain ⟨earlier,_⟩ := meets_snoc.mp met
      intro m member
      rcases List.mem_append.mp member with early | last
      · exact ih earlier m early
      · obtain rfl := List.mem_singleton.mp last
        exact ⟨(prior.keeps cond start keep earlier).1,taken⟩

theorem Run.invariant {J : σ → Prop} (run : Run step origin moves s) (start : J origin)
    (keep : ∀ {s a t}, J s → step s a t → J t) : J s ∧ Throughout J moves :=
  run.keeps (fun _ _ => True) start (fun held taken _ => keep held taken) (fun _ _ => trivial)

-- When a step that misses the condition also breaks the property, the runs that
-- satisfy the property everywhere are exactly the runs that meet the condition.
theorem Run.exact {J P : σ → Prop} {cond : σ → α → Prop} (run : Run step origin moves s)
    (start : J origin) (keep : ∀ {s a t}, J s → step s a t → cond s a → J t)
    (shows : ∀ {s}, J s → P s)
    (breaks : ∀ {s a t}, J s → step s a t → ¬ cond s a → ¬ P t) :
    Throughout P moves ↔ Meets cond moves := by
  constructor
  · intro all
    induction run with
    | nil => exact meets_nil
    | snoc prior taken ih =>
        obtain ⟨earlier,here⟩ := throughout_snoc.mp all
        have met := ih earlier
        refine meets_snoc.mpr ⟨met,?_⟩
        by_contra missed
        exact breaks (prior.keeps cond start keep met).1 taken missed here
  · intro met
    exact (run.keeps cond start keep met).2.imp fun _ held => shows held

-- Steps that lower a measure, as long as an invariant holds, are no more than it allows.
theorem Run.lowers {J : σ → Prop} {measure : σ → Nat} (run : Run step origin moves s) (start : J origin)
    (keep : ∀ {s a t}, J s → step s a t → J t) (lower : ∀ {s a t}, J s → step s a t → measure t < measure s) :
    moves.length + measure s ≤ measure origin := by
  induction run with
  | nil => simp
  | snoc prior taken ih =>
      have less := lower (prior.invariant start keep).1 taken
      rw [List.length_append,List.length_singleton]
      omega

-- The states of an endless run, one step apart.
def Endless (step : σ → α → σ → Prop) (states : Nat → σ) : Prop := ∀ n, ∃ a, step (states n) a (states (n + 1))

theorem Endless.runs {states : Nat → σ} (endless : Endless step states) (n : Nat) :
    ∃ moves, moves.length = n ∧ Run step (states 0) moves (states n) := by
  induction n with
  | zero => exact ⟨[],rfl,.nil⟩
  | succ n ih =>
      obtain ⟨moves,length,run⟩ := ih
      obtain ⟨a,taken⟩ := endless n
      exact ⟨_,by rw [List.length_append,length,List.length_singleton],run.snoc taken⟩

theorem not_endless {J : σ → Prop} {measure : σ → Nat} {states : Nat → σ} (start : J (states 0))
    (keep : ∀ {s a t}, J s → step s a t → J t) (lower : ∀ {s a t}, J s → step s a t → measure t < measure s) :
    ¬ Endless step states := by
  intro endless
  obtain ⟨moves,length,run⟩ := endless.runs (measure (states 0) + 1)
  have few := run.lowers start keep lower
  omega

theorem Run.append {later : List (Move σ α)} (first : Run step origin moves s) (second : Run step s later t) :
    Run step origin (moves ++ later) t := by
  induction second with
  | nil => simpa using first
  | snoc _ taken ih =>
      rw [← List.append_assoc]
      exact ih.snoc taken

-- A machine whose steps are followed by runs of another has its runs followed.
theorem Run.followed {τ β : Type*} {other : τ → β → τ → Prop} {start : τ}
    {R : List (Move σ α) → σ → List (Move τ β) → τ → Prop} (run : Run step origin moves s)
    (cond : σ → α → Prop) (begins : R [] origin [] start)
    (follow : ∀ {before s a t done u}, R before s done u → step s a t → cond s a →
      ∃ more v, Run other u more v ∧ R (before ++ [⟨s,a,t⟩]) t (done ++ more) v)
    (met : Meets cond moves) : ∃ done u, Run other start done u ∧ R moves s done u := by
  induction run with
  | nil => exact ⟨[],start,.nil,begins⟩
  | snoc prior taken ih =>
      obtain ⟨earlier,here⟩ := meets_snoc.mp met
      obtain ⟨done,u,followed,related⟩ := ih earlier
      obtain ⟨more,v,further,next⟩ := follow related taken here
      exact ⟨_,v,followed.append further,next⟩

-- Nothing that still can happen changes this part of the state.
def Stuck {γ : Type*} (step : σ → α → σ → Prop) (part : σ → γ) (s : σ) : Prop :=
  ∀ moves t, Run step s moves t → part t = part s

theorem Run.ended (run : Run step origin moves s) (ended : ∀ a t, ¬ step origin a t) : s = origin := by
  induction run with
  | nil => rfl
  | snoc prior taken ih =>
      rw [ih] at taken
      exact absurd taken (ended _ _)

theorem stuck_of_ended {γ : Type*} {part : σ → γ} (ended : ∀ a t, ¬ step s a t) : Stuck step part s :=
  fun _ _ run => congrArg part (run.ended ended)

theorem Stuck.still {γ : Type*} {part : σ → γ} {a : α} (stuck : Stuck step part s) (taken : step s a t) :
    part t = part s := stuck _ t (Run.nil.snoc taken)

section Phases
variable {ι β : Type} [Fintype ι] [DecidableEq ι] (P : β → Prop) [DecidablePred P]

-- How many threads are in a phase. One thread moving changes the count by
-- what it left and what it entered.
def count (f : ι → β) : Nat := (Finset.univ.filter fun i => P (f i)).card

omit [DecidableEq ι] in
theorem count_eq_zero {f : ι → β} (none : ∀ i, ¬ P (f i)) : count P f = 0 := by
  simp [count,none]

theorem count_update (f : ι → β) (i : ι) (b : β) :
    count P (Function.update f i b) + (if P (f i) then 1 else 0) =
      count P f + (if P b then 1 else 0) := by
  have others : ∑ j ∈ Finset.univ.erase i, (if P (Function.update f i b j) then 1 else 0) =
      ∑ j ∈ Finset.univ.erase i, (if P (f j) then 1 else 0) := by
    refine Finset.sum_congr rfl fun j member => ?_
    rw [Function.update_of_ne (Finset.ne_of_mem_erase member)]
  have before := Finset.add_sum_erase Finset.univ (fun j => if P (f j) then 1 else 0)
    (Finset.mem_univ i)
  have after := Finset.add_sum_erase Finset.univ
    (fun j => if P (Function.update f i b j) then 1 else 0) (Finset.mem_univ i)
  simp only [Function.update_self] at after
  unfold count
  rw [Finset.card_filter,Finset.card_filter]
  omega

end Phases

end Transition
