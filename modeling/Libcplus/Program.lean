-- Programs that read and write a state and may end without an answer.
namespace Program
universe u
variable {σ ε : Type u} {α β : Type u}

abbrev Prog (σ ε α : Type u) := StateT σ (Except ε) α

-- From every state in `pre` the program answers in a state in `post`, or ends
-- without an answer for a reason that is allowed.
def Takes (allowed : ε → Prop) (pre post : σ → Prop) (prog : Prog σ ε α) : Prop :=
  ∀ s, pre s → match prog s with
    | .ok (_,t) => post t
    | .error reason => allowed reason

variable {allowed : ε → Prop} {pre mid post : σ → Prop} {prog : Prog σ ε α} {rest : α → Prog σ ε β}

theorem Takes.pure (a : α) : Takes allowed pre pre (pure a : Prog σ ε α) := fun _ here => here

theorem Takes.bind (first : Takes allowed pre mid prog) (then_ : ∀ a, Takes allowed mid post (rest a)) :
    Takes allowed pre post (prog >>= rest) := by
  intro s here
  have taken := first s here
  simp only [Bind.bind,StateT.bind]
  cases result : prog s with
  | error reason => simpa [result,Except.bind] using taken
  | ok answer =>
    simp only [result] at taken
    exact then_ answer.1 answer.2 taken

-- Reading the state: the rest may rely on what it read being the state.
theorem Takes.get {rest : σ → Prog σ ε β} (then_ : ∀ s, pre s → Takes allowed (· = s) post (rest s)) :
    Takes allowed pre post (get >>= rest) := fun s here => then_ s here s rfl

theorem Takes.throw {reason : ε} (permitted : allowed reason) :
    Takes allowed pre post (throw reason : Prog σ ε α) := fun _ _ => permitted

theorem Takes.modify {change : σ → σ} (keeps : ∀ s, pre s → post (change s)) :
    Takes allowed pre post (modify change : Prog σ ε PUnit) := fun s here => keeps s here

theorem Takes.weaken {less : σ → Prop} (takes : Takes allowed pre post prog) (stronger : ∀ s, less s → pre s) :
    Takes allowed less post prog := fun s here => takes s (stronger s here)

theorem Takes.imp {more : σ → Prop} (takes : Takes allowed pre post prog) (weaker : ∀ s, post s → more s) :
    Takes allowed pre more prog := by
  intro s here
  have taken := takes s here
  cases result : prog s with
  | error reason => simpa [result] using taken
  | ok answer =>
    simp only [result] at taken
    exact weaker _ taken

theorem Takes.ite {c : Prop} [Decidable c] {other : Prog σ ε α} (yes : c → Takes allowed pre post prog)
    (no : ¬ c → Takes allowed pre post other) :
    Takes allowed pre post (if c then prog else other) := by
  split
  · exact yes ‹c›
  · exact no ‹¬ c›

-- What an answer, and what an end without one, says of the program's run.
theorem Takes.answer (takes : Takes allowed pre post prog) {s t : σ} {a : α} (here : pre s)
    (ran : prog s = .ok (a,t)) : post t := by
  have taken := takes s here
  rw [ran] at taken
  exact taken

theorem Takes.ends (takes : Takes allowed pre post prog) {s : σ} {reason : ε} (here : pre s)
    (ran : prog s = .error reason) : allowed reason := by
  have taken := takes s here
  rw [ran] at taken
  exact taken

-- A step that answers hands its answer and its state to the rest.
theorem bind_ok {s t : σ} {a : α} (ran : prog s = .ok (a,t)) : (prog >>= rest) s = rest a t := by
  simp only [Bind.bind,StateT.bind,ran]
  rfl

-- Running the parts of a program, for simp.
theorem run_bind (s : σ) : (prog >>= rest) s = (prog s).bind fun answer => rest answer.1 answer.2 := rfl

theorem run_pure (a : α) (s : σ) : (pure a : Prog σ ε α) s = .ok (a,s) := rfl

theorem run_get (s : σ) : (get : Prog σ ε σ) s = .ok (s,s) := rfl

theorem run_set (t s : σ) : (set t : Prog σ ε PUnit) s = .ok (⟨⟩,t) := rfl

theorem run_modify (change : σ → σ) (s : σ) : (modify change : Prog σ ε PUnit) s = .ok (⟨⟩,change s) := rfl

theorem ok_bind {γ δ : Type u} (answer : γ) (next : γ → Except ε δ) : (Except.ok answer).bind next = next answer := rfl

-- A program that answered did so step by step.
theorem bind_parts {s u : σ} {b : β} (ran : (prog >>= rest) s = .ok (b,u)) :
    ∃ a t, prog s = .ok (a,t) ∧ rest a t = .ok (b,u) := by
  cases first : prog s with
  | error reason =>
    simp only [Bind.bind,StateT.bind,first] at ran
    cases ran
  | ok answer => exact ⟨answer.1,answer.2,rfl,(bind_ok first).symm.trans ran⟩

theorem bind_iff {s u : σ} {b : β} :
    (prog >>= rest) s = .ok (b,u) ↔ ∃ a t, prog s = .ok (a,t) ∧ rest a t = .ok (b,u) :=
  ⟨bind_parts,fun ⟨_,_,first,second⟩ => (bind_ok first).trans second⟩

theorem Takes.of_answers (answers : ∀ s a t, pre s → prog s = .ok (a,t) → post t) :
    Takes (fun _ => True) pre post prog := by
  intro s here
  cases ran : prog s with
  | error reason => trivial
  | ok answer => exact answers s answer.1 answer.2 here ran

-- From two states that R relates the program ends alike: with one answer and in
-- states that R relates again, or for one reason.
def Alike (R : σ → σ → Prop) (prog : Prog σ ε α) : Prop :=
  ∀ s t, R s t → match prog s,prog t with
    | .ok (a,u),.ok (b,v) => a = b ∧ R u v
    | .error reason,.error other => reason = other
    | _,_ => False

section Alike
variable {R : σ → σ → Prop}

theorem Alike.pure (a : α) : Alike R (pure a : Prog σ ε α) := fun _ _ related => ⟨rfl,related⟩

theorem Alike.throw (reason : ε) : Alike R (throw reason : Prog σ ε α) := fun _ _ _ => rfl

theorem Alike.modify {change : σ → σ} (keeps : ∀ s t, R s t → R (change s) (change t)) :
    Alike R (modify change : Prog σ ε PUnit) := fun s t related => ⟨rfl,keeps s t related⟩

theorem Alike.bind (first : Alike R prog) (then_ : ∀ a, Alike R (rest a)) : Alike R (prog >>= rest) := by
  intro s t related
  have both := first s t related
  simp only [Bind.bind,StateT.bind]
  cases one : prog s with
  | error reason =>
    cases two : prog t with
    | error other => simpa [one,two,Except.bind] using both
    | ok answer => simp [one,two] at both
  | ok answer =>
    obtain ⟨a,u⟩ := answer
    cases two : prog t with
    | error other => simp [one,two] at both
    | ok other =>
      obtain ⟨b,v⟩ := other
      simp only [one,two] at both
      obtain ⟨rfl,related⟩ := both
      exact then_ a u v related

-- What follows a look at the state sees the same in both.
theorem Alike.get {rest : σ → Prog σ ε β} (same : ∀ s t, R s t → rest s = rest t) (then_ : ∀ s, Alike R (rest s)) :
    Alike R (get >>= rest) := by
  intro s t related
  have next := then_ s s t related
  rw [run_bind,run_bind,run_get,run_get,ok_bind,ok_bind,← same s t related]
  exact next

theorem Alike.ite {c : Prop} [Decidable c] {other : Prog σ ε α} (yes : Alike R prog) (no : Alike R other) :
    Alike R (if c then prog else other) := by
  split
  · exact yes
  · exact no

theorem Alike.answers {s t : σ} (alike : Alike R prog) (related : R s t) :
    (prog s).map Prod.fst = (prog t).map Prod.fst := by
  have both := alike s t related
  cases one : prog s with
  | error reason =>
    cases two : prog t with
    | error other => rw [one,two] at both; exact congrArg Except.error both
    | ok answer => rw [one,two] at both; exact both.elim
  | ok answer =>
    cases two : prog t with
    | error other => rw [one,two] at both; exact both.elim
    | ok other => rw [one,two] at both; exact congrArg Except.ok both.1

end Alike

end Program
