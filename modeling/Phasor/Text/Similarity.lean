/-!
# Similar words

Two words are as alike as the blocks of characters that they share: the longest block that stands in
both is set apart, then the longest on either side of it, and so on. `closest` picks from a list the
names that a misspelt word may stand for.
-/

namespace Phasor.Text

/-- A run of characters that stands in two words, from the places `first` and `second` on. -/
structure Block where
  first : Nat
  second : Nat
  size : Nat
deriving Repr, DecidableEq

/-- The length of the longest common beginning. -/
def agreement : List Char → List Char → Nat
  | a :: as, b :: bs => if a = b then agreement as bs + 1 else 0
  | _, _ => 0

def blocks (a b : List Char) : List Block :=
  (List.range a.length).flatMap fun i =>
    (List.range b.length).map fun j => ⟨i, j, agreement (a.drop i) (b.drop j)⟩

/-- Of several longest blocks, the first in `a`, and of these the first in `b`. -/
def longestBlock? (a b : List Char) : Option Block := (blocks a b).maxOn? (·.size)

theorem first_lt_of_longestBlock? {a b : List Char} {m : Block} (h : longestBlock? a b = some m) :
    m.first < a.length := by
  have hm : m ∈ blocks a b := List.maxOn?_mem h
  simp only [blocks, List.mem_flatMap, List.mem_map, List.mem_range] at hm
  obtain ⟨i, hi, j, _, rfl⟩ := hm
  exact hi

/-- The number of characters in shared blocks. -/
def shared (a b : List Char) : Nat :=
  match h : longestBlock? a b with
  | some m =>
    if m.size = 0 then 0
    else
      have := first_lt_of_longestBlock? h
      shared (a.take m.first) (b.take m.second) + m.size +
        shared (a.drop (m.first + m.size)) (b.drop (m.second + m.size))
  | none => 0
termination_by a.length
decreasing_by
  · rw [List.length_take]; omega
  · rw [List.length_drop]; omega

/-- The share of both words that lies in shared blocks. -/
def likeness (a b : List Char) : Rat := mkRat (2 * shared a b) (a.length + b.length)

/-- At most three names, in alphabetical order: those most like the word, if they agree with it in
three fifths of the characters. -/
def closest (word : String) (names : List String) : List String :=
  let rated := names.map fun n => (likeness n.toList word.toList, n)
  let near := (rated.filter fun p => 3 / 5 ≤ p.1).mergeSort fun p q =>
    q.1 < p.1 || (q.1 == p.1 && q.2 ≤ p.2)
  ((near.take 3).map Prod.snd).mergeSort (· ≤ ·)

end Phasor.Text
