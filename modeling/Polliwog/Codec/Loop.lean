import Mathlib.Data.Nat.Basic

/-!
# Loops that end

A loop body returns or goes on.  A loop ends whose rounds use up the first of
two measures, or the second while the first stays.  One that uses up a chunk at
each round returns at the last chunk.
-/

namespace Codec

variable {σ τ : Type*}

/-- Run a loop body for at most `fuel` rounds. -/
def loop (body : σ → τ ⊕ σ) : (fuel : Nat) → σ → Option τ
  | 0, _ => none
  | fuel + 1, state =>
      match body state with
      | .inl result => some result
      | .inr next => loop body fuel next

theorem loop_ends {body : σ → τ ⊕ σ} (Inv : σ → Prop) (major minor : σ → Nat)
    (kept : ∀ {state next}, Inv state → body state = .inr next → Inv next ∧
      (major next < major state ∨
        (major next = major state ∧ minor next < minor state)))
    {state : σ} (holds : Inv state) :
    ∃ fuel, (loop body fuel state).isSome := by
  induction outer : major state using Nat.strong_induction_on
    generalizing state with
  | _ first ihFirst =>
      induction inner : minor state using Nat.strong_induction_on
        generalizing state with
      | _ second ihSecond =>
          cases round : body state with
          | inl result => exact ⟨1, by simp [loop, round]⟩
          | inr next =>
              obtain ⟨still, less⟩ := kept holds round
              obtain ⟨fuel, ends⟩ : ∃ fuel, (loop body fuel next).isSome := by
                rcases less with smaller | ⟨same, smaller⟩
                · exact ihFirst _ (outer ▸ smaller) still rfl
                · exact ihSecond _ (inner ▸ smaller) still
                    (same.trans outer) rfl
              exact ⟨fuel + 1, by simpa only [loop, round] using ends⟩

/-- What every round keeps, and returning makes of it, is true of the result. -/
theorem loop_result {body : σ → τ ⊕ σ} (Inv : σ → Prop) (Post : τ → Prop)
    (kept : ∀ {state next}, Inv state → body state = .inr next → Inv next)
    (returns : ∀ {state result}, Inv state → body state = .inl result →
      Post result)
    {fuel : Nat} {state : σ} {result : τ} (holds : Inv state)
    (ended : loop body fuel state = some result) : Post result := by
  induction fuel generalizing state with
  | zero => cases ended
  | succ fuel ih =>
      rw [loop] at ended
      cases round : body state with
      | inl returned =>
          rw [round] at ended
          cases ended
          exact returns holds round
      | inr next =>
          rw [round] at ended
          exact ih (kept holds round) ended

/-- How many chunks a size is cut into. -/
def chunks (size chunk : Nat) : Nat := (size + (chunk - 1)) / chunk

theorem chunks_last {size chunk : Nat} (nonempty : 0 < size)
    (last : size ≤ chunk) :
    chunks size chunk = 1 :=
  Nat.div_eq_of_lt_le (by omega) (by omega)

theorem chunks_add {size chunk : Nat} (chunk_pos : 0 < chunk) :
    chunks (size + chunk) chunk = chunks size chunk + 1 := by
  rw [chunks, chunks, ← Nat.add_div_right _ chunk_pos, Nat.add_right_comm]

/-- A loop that goes on by whole chunks, and returns at the last of them, makes
as many rounds as there are chunks. -/
theorem loop_by_chunks {body : σ → τ ⊕ σ} (Inv : σ → Prop) (left : σ → Nat)
    {chunk : Nat} {result : τ} (chunk_pos : 0 < chunk)
    (goesOn : ∀ {state}, Inv state → chunk < left state → ∃ next,
      body state = .inr next ∧ Inv next ∧ left next + chunk = left state)
    (returns : ∀ {state}, Inv state → 0 < left state → left state ≤ chunk →
      body state = .inl result)
    {state : σ} (holds : Inv state) (nonempty : 0 < left state) (fuel : Nat) :
    loop body fuel state = if chunks (left state) chunk ≤ fuel then some result
      else none := by
  induction fuel generalizing state with
  | zero =>
      have rounds : 0 < chunks (left state) chunk :=
        Nat.div_pos (by omega) chunk_pos
      rw [loop, if_neg (Nat.not_le.mpr rounds)]
  | succ fuel ih =>
      rcases Nat.lt_or_ge chunk (left state) with more | last
      · obtain ⟨next, went, still, less⟩ := goesOn holds more
        rw [loop, went, ← less, chunks_add chunk_pos]
        simp only [Nat.add_le_add_iff_right]
        exact ih still (by omega)
      · rw [loop, returns holds nonempty last, chunks_last nonempty last,
          if_pos (Nat.succ_le_succ (Nat.zero_le fuel))]

end Codec
