import Mathlib.Data.List.Basic

namespace Transducer
universe u v w
variable {σ : Type u} {α : Type v} {β : Type w}

-- A machine that reads one symbol at a time and may answer it.
def feedAll (feed : σ → α → σ × Option β) : σ → List α → σ × List β
  | s,[] => (s,[])
  | s,a :: rest =>
    let first := feed s a
    let later := feedAll feed first.1 rest
    (later.1,first.2.toList ++ later.2)

variable (feed : σ → α → σ × Option β)

@[simp] theorem feedAll_nil (s : σ) : feedAll feed s [] = (s,[]) := rfl

theorem feedAll_cons (s : σ) (a : α) (rest : List α) :
    feedAll feed s (a :: rest) = ((feedAll feed (feed s a).1 rest).1,
      (feed s a).2.toList ++ (feedAll feed (feed s a).1 rest).2) := rfl

-- Where the input is cut does not matter.
theorem feedAll_append (s : σ) (left right : List α) :
    feedAll feed s (left ++ right) = ((feedAll feed (feedAll feed s left).1 right).1,
      (feedAll feed s left).2 ++ (feedAll feed (feedAll feed s left).1 right).2) := by
  induction left generalizing s with
  | nil => rfl
  | cons a rest ih => simp only [List.cons_append,feedAll_cons,ih,List.append_assoc]

theorem feedAll_single (s : σ) (a : α) :
    feedAll feed s [a] = ((feed s a).1,(feed s a).2.toList) := by
  simp [feedAll_cons]

end Transducer
