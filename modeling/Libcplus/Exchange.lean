import Libcplus.Transition

-- Two parties with a channel each way. A message is handled when its turn comes, and
-- its answers go out on the other channel.
namespace Exchange
open Transition
universe u v w
variable {σ : Type u} {μ : Type v} {ε : Type w}

inductive Side where
  | left
  | right
  deriving DecidableEq, Repr

def Side.peer : Side → Side
  | .left => .right
  | .right => .left

@[simp] theorem peer_peer (side : Side) : side.peer.peer = side := by cases side <;> rfl
@[simp] theorem peer_ne (side : Side) : side.peer ≠ side := by cases side <;> decide
@[simp] theorem ne_peer (side : Side) : side ≠ side.peer := by cases side <;> decide

-- A party with the channel to it. `sent` is everything that was put into the channel,
-- answers marked, and `handled` what was taken from it, with the answers it got.
structure Port (σ : Type u) (μ : Type v) where
  state : σ
  inbox : List μ
  sent : List (Bool × μ)
  handled : List (μ × List μ)

def Port.fresh (state : σ) : Port σ μ := ⟨state,[],[],[]⟩

def Port.put (port : Port σ μ) (answer : Bool) (messages : List μ) : Port σ μ :=
  {port with
    inbox := port.inbox ++ messages
    sent := port.sent ++ messages.map fun message => (answer,message)}

-- The first message of the inbox is gone.
def Port.taken (port : Port σ μ) (state : σ) (message : μ) (rest answers : List μ) : Port σ μ :=
  {port with
    state := state
    inbox := rest
    handled := port.handled ++ [(message,answers)]}

abbrev Duplex (σ : Type u) (μ : Type v) := Side → Port σ μ

def opened (state : Side → σ) : Duplex σ μ := fun side => .fresh (state side)

-- A message of its own accord to a side, or the next one to it, with what its
-- surroundings do meanwhile.
inductive Act (μ : Type v) (ε : Type w) where
  | post (side : Side) (message : μ)
  | deliver (side : Side) (surroundings : ε)

def Act.delivers : Act μ ε → Bool
  | .post _ _ => false
  | .deliver _ _ => true

section
variable (handle : σ → μ → ε → Option (σ × List μ))

def deliver (link : Duplex σ μ) (side : Side) (surroundings : ε) : Option (Duplex σ μ) :=
  match (link side).inbox with
  | [] => none
  | message :: rest => (handle (link side).state message surroundings).map fun result =>
      Function.update (Function.update link side ((link side).taken result.1 message rest result.2)) side.peer
        ((link side.peer).put true result.2)

def advance (link : Duplex σ μ) : Act μ ε → Option (Duplex σ μ)
  | .post side message => some (Function.update link side ((link side).put false [message]))
  | .deliver side surroundings => deliver handle link side surroundings

end

variable {handle : σ → μ → ε → Option (σ × List μ)} {link next : Duplex σ μ} {moves : List (Move (Duplex σ μ) (Act μ ε))}

-- Everything a delivery can do.
structure Delivery (handle : σ → μ → ε → Option (σ × List μ)) (link next : Duplex σ μ) (side : Side)
    (surroundings : ε) (message : μ) (answers : List μ) : Prop where
  rest : ∃ rest state, (link side).inbox = message :: rest ∧
    handle (link side).state message surroundings = some (state,answers) ∧
    next side = (link side).taken state message rest answers
  peer : next side.peer = (link side.peer).put true answers

theorem deliver_parts {side : Side} {surroundings : ε} (taken : deliver handle link side surroundings = some next) :
    ∃ message answers, Delivery handle link next side surroundings message answers := by
  unfold deliver at taken
  cases queue : (link side).inbox with
  | nil => simp [queue] at taken
  | cons message rest =>
    simp only [queue,Option.map_eq_some_iff] at taken
    obtain ⟨⟨state,answers⟩,handles,rfl⟩ := taken
    refine ⟨message,answers,⟨rest,state,queue,handles,?_⟩,?_⟩
    · rw [Function.update_of_ne (ne_peer side),Function.update_self]
    · rw [Function.update_self]

-- Both sides of a link are the side of a delivery and its peer.
theorem forall_side {P : Side → Prop} (side : Side) : (∀ other, P other) ↔ P side ∧ P side.peer := by
  constructor
  · intro all
    exact ⟨all side,all side.peer⟩
  · intro ⟨here,there⟩ other
    cases side <;> cases other <;> assumption

-- Nothing is lost, doubled or overtaken, and the answers of a side are what it
-- answered, in order.
structure Faithful (link : Duplex σ μ) : Prop where
  order : ∀ side, (link side).handled.map Prod.fst ++ (link side).inbox = (link side).sent.map Prod.snd
  answers : ∀ side, ((link side).sent.filter Prod.fst).map Prod.snd = (link side.peer).handled.flatMap Prod.snd

theorem put_order {port : Port σ μ} {answer : Bool} {messages : List μ}
    (order : port.handled.map Prod.fst ++ port.inbox = port.sent.map Prod.snd) :
    (port.put answer messages).handled.map Prod.fst ++ (port.put answer messages).inbox =
      (port.put answer messages).sent.map Prod.snd := by
  have same : messages.map (Prod.snd ∘ fun message => (answer,message)) = messages := List.map_id messages
  simp only [Port.put,List.map_append,List.map_map,same,← order,List.append_assoc]

theorem put_posted (port : Port σ μ) (messages : List μ) :
    ((port.put false messages).sent.filter Prod.fst).map Prod.snd = (port.sent.filter Prod.fst).map Prod.snd := by
  simp [Port.put]

theorem put_answers (port : Port σ μ) (messages : List μ) :
    ((port.put true messages).sent.filter Prod.fst).map Prod.snd =
      (port.sent.filter Prod.fst).map Prod.snd ++ messages := by
  have all : ((messages.map fun message => (true,message)).filter Prod.fst).map Prod.snd = messages := by
    induction messages with
    | nil => rfl
    | cons message rest ih => simpa using ih
  rw [Port.put,List.filter_append,List.map_append,all]

theorem step_faithful {act : Act μ ε} (faithful : Faithful link) (taken : Follows (advance handle) link act next) :
    Faithful next := by
  cases act with
  | post side message =>
    cases taken
    refine ⟨(forall_side side).mpr ⟨?_,?_⟩,(forall_side side).mpr ⟨?_,?_⟩⟩
    · rw [Function.update_self]
      exact put_order (faithful.order side)
    · rw [Function.update_of_ne (peer_ne side)]
      exact faithful.order side.peer
    · rw [Function.update_self,Function.update_of_ne (peer_ne side),put_posted]
      exact faithful.answers side
    · rw [Function.update_of_ne (peer_ne side),peer_peer,Function.update_self]
      simpa [Port.put] using faithful.answers side.peer
  | deliver side surroundings =>
    obtain ⟨message,answers,⟨rest,state,queue,_,here⟩,there⟩ := deliver_parts taken
    refine ⟨(forall_side side).mpr ⟨?_,?_⟩,(forall_side side).mpr ⟨?_,?_⟩⟩
    · have order := faithful.order side
      rw [queue] at order
      rw [here]
      simpa [Port.taken] using order
    · rw [there]
      exact put_order (faithful.order side.peer)
    · rw [here,there]
      exact faithful.answers side
    · have before := faithful.answers side.peer
      rw [peer_peer] at before
      rw [peer_peer,here,there,put_answers,before]
      simp [Port.taken]

theorem opened_faithful (state : Side → σ) : Faithful (opened (μ := μ) state) :=
  ⟨fun _ => rfl,fun _ => rfl⟩

theorem run_faithful {state : Side → σ} (run : Run (Follows (advance handle)) (opened state) moves link) :
    Faithful link := (run.invariant (opened_faithful state) step_faithful).1

-- What was posted to a side, in order.
def posts (side : Side) (moves : List (Move (Duplex σ μ) (Act μ ε))) : List μ :=
  moves.filterMap fun move => match move.action with
    | .post other message => if other = side then some message else none
    | .deliver _ _ => none

theorem posts_snoc (side : Side) (moves : List (Move (Duplex σ μ) (Act μ ε))) (move : Move (Duplex σ μ) (Act μ ε)) :
    posts side (moves ++ [move]) = posts side moves ++ posts side [move] := List.filterMap_append

def Port.unasked (port : Port σ μ) : List μ := (port.sent.filter fun entry => !entry.1).map Prod.snd

theorem put_unasked (port : Port σ μ) (messages : List μ) :
    (port.put false messages).unasked = port.unasked ++ messages ∧ (port.put true messages).unasked = port.unasked := by
  have all : ((messages.map fun message => (false,message)).filter fun entry => !entry.1).map Prod.snd = messages := by
    induction messages with
    | nil => rfl
    | cons message rest ih => simpa using ih
  refine ⟨?_,?_⟩
  · rw [Port.unasked,Port.put,List.filter_append,List.map_append,all]
    rfl
  · simp [Port.unasked,Port.put]

theorem run_unasked {state : Side → σ} (run : Run (Follows (advance handle)) (opened state) moves link) (side : Side) :
    (link side).unasked = posts side moves := by
  induction run with
  | nil => rfl
  | @snoc moves s act t prior taken ih =>
    rw [posts_snoc,← ih]
    cases act with
    | post other message =>
      cases taken
      by_cases same : other = side
      · subst same
        rw [Function.update_self,(put_unasked _ _).1]
        simp [posts]
      · rw [Function.update_of_ne (Ne.symm same)]
        simp [posts,same]
    | deliver other surroundings =>
      obtain ⟨message,answers,⟨rest,state,_,_,here⟩,there⟩ := deliver_parts taken
      have none : posts side [(⟨s,.deliver other surroundings,t⟩ : Move (Duplex σ μ) (Act μ ε))] = [] := rfl
      rw [none,List.append_nil]
      revert side
      refine (forall_side other).mpr ⟨?_,?_⟩
      · intro _ _
        rw [here]
        rfl
      · intro _ _
        rw [there,(put_unasked _ _).2]

-- Answers and posts are all that is sent.
theorem unasked_all {port : Port σ μ} (none : (port.sent.filter Prod.fst).map Prod.snd = []) :
    port.unasked = port.sent.map Prod.snd := by
  have none := List.filter_eq_nil_iff.mp (List.map_eq_nil_iff.mp none)
  rw [Port.unasked,List.filter_eq_self.mpr]
  intro entry member
  simpa using none entry member

theorem answers_all {port : Port σ μ} (none : port.unasked = []) :
    (port.sent.filter Prod.fst).map Prod.snd = port.sent.map Prod.snd := by
  have none := List.filter_eq_nil_iff.mp (List.map_eq_nil_iff.mp none)
  rw [List.filter_eq_self.mpr]
  intro entry member
  simpa using none entry member

-- What every answer to a message keeps to.
theorem run_handled {state : Side → σ} {J : Side → σ → Prop} {P : Side → μ → List μ → Prop}
    (run : Run (Follows (advance handle)) (opened state) moves link) (cond : Duplex σ μ → Act μ ε → Prop)
    (start : ∀ side, J side (state side))
    (keep : ∀ {link side surroundings s message answers}, cond link (.deliver side surroundings) →
      J side (link side).state → handle (link side).state message surroundings = some (s,answers) →
      J side s ∧ P side message answers)
    (met : Meets cond moves) :
    (∀ side, J side (link side).state) ∧ ∀ side, ∀ entry ∈ (link side).handled, P side entry.1 entry.2 := by
  refine (run.keeps (J := fun link => (∀ side, J side (link side).state) ∧
    ∀ side, ∀ entry ∈ (link side).handled, P side entry.1 entry.2) cond
    ⟨start,fun _ _ member => absurd member List.not_mem_nil⟩ ?_ met).1
  intro link act next held taken here
  cases act with
  | post side message =>
    cases taken
    refine ⟨(forall_side side).mpr ⟨?_,?_⟩,(forall_side side).mpr ⟨?_,?_⟩⟩
    · rw [Function.update_self]
      exact held.1 side
    · rw [Function.update_of_ne (peer_ne side)]
      exact held.1 side.peer
    · rw [Function.update_self]
      exact held.2 side
    · rw [Function.update_of_ne (peer_ne side)]
      exact held.2 side.peer
  | deliver side surroundings =>
    obtain ⟨message,answers,⟨rest,state,_,handles,port⟩,there⟩ := deliver_parts taken
    obtain ⟨kept,fits⟩ := keep here (held.1 side) handles
    refine ⟨(forall_side side).mpr ⟨?_,?_⟩,(forall_side side).mpr ⟨?_,?_⟩⟩
    · rw [port]
      exact kept
    · rw [there]
      exact held.1 side.peer
    · rw [port]
      intro entry member
      rcases List.mem_append.mp member with early | last
      · exact held.2 side entry early
      · obtain rfl := List.mem_singleton.mp last
        exact fits
    · rw [there]
      exact held.2 side.peer

-- The answers to a side, where only its peer's answers are sent to it and the side
-- itself has none: what its peer answered to what was posted.
theorem one_way {state : Side → σ} (run : Run (Follows (advance handle)) (opened state) moves link) (side : Side)
    (unposted : posts side moves = []) (silent : ∀ entry ∈ (link side).handled, entry.2 = []) :
    (link side).handled.map Prod.fst ++ (link side).inbox = (link side.peer).handled.flatMap Prod.snd ∧
    (link side.peer).handled.map Prod.fst ++ (link side.peer).inbox = posts side.peer moves := by
  have faithful := run_faithful run
  have back : ((link side.peer).sent.filter Prod.fst).map Prod.snd = [] := by
    rw [faithful.answers side.peer,peer_peer]
    exact List.flatMap_eq_nil_iff.mpr silent
  constructor
  · rw [faithful.order side,← faithful.answers side,answers_all]
    rw [run_unasked run side,unposted]
  · rw [faithful.order side.peer,← unasked_all back,run_unasked run]

section Weights
variable (weight : μ → Nat)

def load : List μ → Nat
  | [] => 0
  | message :: rest => weight message + load rest

-- What is on the way.
def traffic (link : Duplex σ μ) : Nat := load weight (link .left).inbox + load weight (link .right).inbox

def posted (moves : List (Move (Duplex σ μ) (Act μ ε))) : Nat :=
  load weight (moves.filterMap fun move => match move.action with
    | .post _ message => some message
    | .deliver _ _ => none)

def deliveries (moves : List (Move (Duplex σ μ) (Act μ ε))) : Nat := (moves.filter fun move => move.action.delivers).length

-- A message weighs more than everything that is sent for it.
def Lowers (handle : σ → μ → ε → Option (σ × List μ)) : Prop :=
  ∀ s message surroundings t answers, handle s message surroundings = some (t,answers) → load weight answers < weight message

variable {weight}

theorem load_append (first second : List μ) : load weight (first ++ second) = load weight first + load weight second := by
  induction first with
  | nil => simp [load]
  | cons message rest ih => simp [load,ih,Nat.add_assoc]

theorem traffic_sides (link : Duplex σ μ) (side : Side) :
    traffic weight link = load weight (link side).inbox + load weight (link side.peer).inbox := by
  cases side with
  | left => rfl
  | right => exact Nat.add_comm _ _

theorem post_traffic (link : Duplex σ μ) (side : Side) (message : μ) :
    traffic weight (Function.update link side ((link side).put false [message])) = traffic weight link + weight message := by
  rw [traffic_sides _ side,traffic_sides link side,Function.update_self,Function.update_of_ne (peer_ne side)]
  have one : load weight [message] = weight message := rfl
  simp only [Port.put,load_append,one]
  omega

theorem posted_snoc (moves : List (Move (Duplex σ μ) (Act μ ε))) (move : Move (Duplex σ μ) (Act μ ε)) :
    posted weight (moves ++ [move]) = posted weight moves + posted weight [move] := by
  rw [posted,List.filterMap_append,load_append,posted,posted]

theorem deliveries_snoc (moves : List (Move (Duplex σ μ) (Act μ ε))) (move : Move (Duplex σ μ) (Act μ ε)) :
    deliveries (moves ++ [move]) = deliveries moves + deliveries [move] := by
  rw [deliveries,List.filter_append,List.length_append,deliveries,deliveries]

theorem deliver_traffic (lowers : Lowers weight handle) {side : Side} {surroundings : ε}
    (taken : deliver handle link side surroundings = some next) : traffic weight next < traffic weight link := by
  obtain ⟨message,answers,⟨rest,state,queue,handles,here⟩,there⟩ := deliver_parts taken
  have less := lowers _ _ _ _ _ handles
  rw [traffic_sides next side,traffic_sides link side,here,there,queue]
  simp only [Port.put,Port.taken,load_append,load]
  omega

-- However the steps interleave, no more is handled than was posted by weight.
theorem run_deliveries {origin : Duplex σ μ} (lowers : Lowers weight handle)
    (run : Run (Follows (advance handle)) origin moves link) :
    deliveries moves + traffic weight link ≤ traffic weight origin + posted weight moves := by
  induction run with
  | nil => simp [deliveries,posted]
  | @snoc moves s act t prior taken ih =>
    cases act with
    | post side message =>
      have none : deliveries [(⟨s,.post side message,t⟩ : Move (Duplex σ μ) (Act μ ε))] = 0 := rfl
      have more : posted weight [(⟨s,.post side message,t⟩ : Move (Duplex σ μ) (Act μ ε))] = weight message := rfl
      have grown : traffic weight t = traffic weight s + weight message := by
        cases taken
        exact post_traffic s side message
      rw [deliveries_snoc,posted_snoc,none,more,grown]
      omega
    | deliver side surroundings =>
      have one : deliveries [(⟨s,.deliver side surroundings,t⟩ : Move (Duplex σ μ) (Act μ ε))] = 1 := rfl
      have none : posted weight [(⟨s,.deliver side surroundings,t⟩ : Move (Duplex σ μ) (Act μ ε))] = 0 := rfl
      have less := deliver_traffic lowers taken
      rw [deliveries_snoc,posted_snoc,one,none]
      omega

-- And left alone, the exchange ends.
theorem deliveries_end {states : Nat → Duplex σ μ} (lowers : Lowers weight handle) :
    ¬ Endless (fun s (act : Act μ ε) t => Follows (advance handle) s act t ∧ act.delivers = true) states := by
  have lower : ∀ {s : Duplex σ μ} {act : Act μ ε} {t}, True →
      Follows (advance handle) s act t ∧ act.delivers = true → traffic weight t < traffic weight s := by
    intro s act t _ taken
    obtain ⟨step,delivers⟩ := taken
    cases act with
    | post side message => cases delivers
    | deliver side surroundings => exact deliver_traffic lowers step
  exact not_endless (J := fun _ => True) trivial (fun _ _ => trivial) lower

end Weights

end Exchange
