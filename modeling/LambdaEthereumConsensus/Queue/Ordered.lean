import Mathlib

/-
  Queue.Ordered — a queue whose entries carry a key that a clock bounds (`OrderedBelow`): the keys
  in the order of the queue, none past the clock.

  Proved, as rules for the proofs that use them: the empty queue is ordered below any clock; a
  clock moved forward keeps the order (`OrderedBelow.mono`), and so does an entry appended with a
  key between the old clock and the new one (`OrderedBelow.push`) and taking entries from the
  front (`OrderedBelow.drop`). A consumer that takes entries from the front and stops at the first
  one not yet due leaves none due behind it (`OrderedBelow.not_due_of_le`).
-/

namespace Queue

variable {α β : Type} [Preorder β]

/-- The keys of `xs` in the order of the queue, none past `clock`. -/
structure OrderedBelow (key : α → β) (clock : β) (xs : List α) : Prop where
  sorted : xs.Pairwise fun a b => key a ≤ key b
  le_clock : ∀ x ∈ xs, key x ≤ clock

variable {key : α → β} {clock clock' : β} {xs : List α}

theorem OrderedBelow.nil (key : α → β) (clock : β) : OrderedBelow key clock [] :=
  ⟨.nil, fun _ hx => absurd hx List.not_mem_nil⟩

/-- A clock moved forward keeps the queue below it. -/
theorem OrderedBelow.mono (h : OrderedBelow key clock xs) (hle : clock ≤ clock') : OrderedBelow key clock' xs :=
  ⟨h.sorted, fun x hx => le_trans (h.le_clock x hx) hle⟩

/-- An entry appended with a key from the old clock on, the clock moved forward to it. -/
theorem OrderedBelow.push {x : α} (h : OrderedBelow key clock xs) (hle : clock ≤ key x) (hx : key x ≤ clock') :
    OrderedBelow key clock' (xs ++ [x]) where
  sorted := by
    refine List.pairwise_append.mpr ⟨h.sorted, List.pairwise_singleton _ x, fun a ha b hb => ?_⟩
    obtain rfl := List.mem_singleton.mp hb
    exact le_trans (h.le_clock a ha) hle
  le_clock := by
    intro y hy
    rcases List.mem_append.mp hy with hy | hy
    · exact le_trans (h.le_clock y hy) (le_trans hle hx)
    · obtain rfl := List.mem_singleton.mp hy
      exact hx

/-- Entries taken from the front leave the rest ordered. -/
theorem OrderedBelow.drop (h : OrderedBelow key clock xs) (n : Nat) : OrderedBelow key clock (xs.drop n) :=
  ⟨h.sorted.sublist (List.drop_sublist n xs), fun x hx => h.le_clock x (List.mem_of_mem_drop hx)⟩

/-- Behind an entry not yet due at `due`, no entry is due. -/
theorem OrderedBelow.not_due_of_le (h : OrderedBelow key clock xs) {due : β} {i j : Nat} {a b : α} (hij : i ≤ j)
    (ha : xs[i]? = some a) (hb : xs[j]? = some b) (hdue : due < key a) : due < key b := by
  obtain ⟨hi, rfl⟩ := List.getElem?_eq_some_iff.mp ha
  obtain ⟨hj, rfl⟩ := List.getElem?_eq_some_iff.mp hb
  rcases Nat.lt_or_eq_of_le hij with hlt | rfl
  · exact lt_of_lt_of_le hdue (List.pairwise_iff_getElem.mp h.sorted i j hi hj hlt)
  · exact hdue

end Queue
