import Polliwog.Codec.Run

/-!
# Draining a queue over many calls

A system that hands out the front of what it holds back, some of it at each
call.  As long as something is held back the calls together have handed out
exactly what is missing.  A system that goes on by whole pieces, whatever was
taken of each, loses what was not taken.
-/

namespace Codec

variable {σ ι ω β : Type*} {step : σ → ι → ω → σ → Prop} {state last : σ}
  {trace : List (ι × ω)}

/-- What the exchanges of a run hand out is the front of what was held back. -/
theorem Run.drains (pending : σ → List β) (handed : ι → ω → List β)
    (kept : ∀ {state request answer next}, pending state ≠ [] →
      step state request answer next →
      pending state = handed request answer ++ pending next ∧ pending next ≠ [])
    (unfinished : pending state ≠ []) (run : Run step state trace last) :
    pending state = (trace.flatMap fun entry => handed entry.1 entry.2) ++
    pending last ∧
      pending last ≠ [] := by
  induction run with
  | nil => exact ⟨rfl, unfinished⟩
  | cons exchange _ ih =>
      obtain ⟨front, left⟩ := kept unfinished exchange
      obtain ⟨rest, lasting⟩ := ih left
      refine ⟨?_, lasting⟩
      rw [front, rest, List.flatMap_cons, List.append_assoc]

theorem length_flatMap_take_le {α : Type*} (piece : α → List β)
    (count : α → Nat) (items : List α) :
    (items.flatMap fun item => (piece item).take (count item)).length ≤
      (items.flatMap piece).length := by
  induction items with
  | nil => exact Nat.le_refl _
  | cons item items ih =>
      simp only [List.flatMap_cons, List.length_append, List.length_take]
      omega

/-- What is taken of the pieces adds up to all of them exactly when all of every
piece is taken. -/
theorem flatMap_take_eq_iff {α : Type*} (piece : α → List β) (count : α → Nat)
    (items : List α) :
    (items.flatMap fun item => (piece item).take (count item)) =
      items.flatMap piece ↔
      ∀ item ∈ items, (piece item).length ≤ count item := by
  induction items with
  | nil => simp
  | cons item items ih =>
      rw [List.flatMap_cons, List.flatMap_cons, List.forall_mem_cons, ← ih]
      constructor
      · intro same
        have lengths := congrArg List.length same
        have later := length_flatMap_take_le piece count items
        simp only [List.length_append, List.length_take] at lengths
        have all : (piece item).length ≤ count item := by omega
        rw [List.take_of_length_le all] at same
        exact ⟨all, List.append_cancel_left same⟩
      · intro whole
        rw [List.take_of_length_le whole.1, whole.2]

end Codec
