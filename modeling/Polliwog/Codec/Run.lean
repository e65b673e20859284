import Mathlib.Data.List.Basic
import Mathlib.Data.List.Forall2

/-!
# Runs of requests

A system answers requests one at a time, each answer moving it to a next
state.  A run lists its exchanges in order.  The rules below turn a fact about
one exchange into a fact about a whole run.
-/

namespace Codec

variable {σ ι ω : Type*}

inductive Run (step : σ → ι → ω → σ → Prop) : σ → List (ι × ω) → σ → Prop where
  | nil (state : σ) : Run step state [] state
  | cons {state mid last : σ} {request : ι} {answer : ω}
    {trace : List (ι × ω)} :
      step state request answer mid → Run step mid trace last →
      Run step state ((request, answer) :: trace) last

namespace Run

variable {step : σ → ι → ω → σ → Prop} {state last : σ} {trace : List (ι × ω)}

theorem one {request : ι} {answer : ω}
    (exchange : step state request answer last) :
    Run step state [(request, answer)] last :=
  .cons exchange (.nil last)

theorem concat {mid : σ} {request : ι} {answer : ω}
    (run : Run step state trace mid) (exchange : step mid request answer last) :
    Run step state (trace ++ [(request, answer)]) last := by
  induction run with
  | nil state => exact .one exchange
  | cons first _ ih => exact .cons first (ih exchange)

theorem split {earlier later : List (ι × ω)}
    (run : Run step state (earlier ++ later) last) :
    ∃ mid, Run step state earlier mid ∧ Run step mid later last := by
  induction earlier generalizing state with
  | nil => exact ⟨state, .nil state, run⟩
  | cons exchange earlier ih =>
      cases run with
      | cons first rest =>
          obtain ⟨mid, before, after⟩ := ih rest
          exact ⟨mid, .cons first before, after⟩

/-- What every exchange keeps, given what came before it, a run keeps. -/
theorem history (Inv : List (ι × ω) → σ → Prop)
    (kept : ∀ {past state request answer next}, Inv past state →
      step state request answer next → Inv (past ++ [(request, answer)]) next)
    {past : List (ι × ω)} (holds : Inv past state)
    (run : Run step state trace last) :
    Inv (past ++ trace) last := by
  induction run generalizing past with
  | nil => simpa using holds
  | cons exchange _ ih =>
      have next := ih (kept holds exchange)
      simpa using next

/-- An invariant of the states, and what it says of every exchange. -/
theorem always (Inv : σ → Prop) (Good : ι → ω → Prop)
    (kept : ∀ {state request answer next}, Inv state →
      step state request answer next → Good request answer ∧ Inv next)
    (holds : Inv state) (run : Run step state trace last) :
    (∀ entry ∈ trace, Good entry.1 entry.2) ∧ Inv last := by
  induction run with
  | nil => exact ⟨by simp, holds⟩
  | cons exchange _ ih =>
      obtain ⟨good, next⟩ := kept holds exchange
      obtain ⟨later, lasting⟩ := ih next
      refine ⟨?_, lasting⟩
      intro entry listed
      rcases List.mem_cons.mp listed with rfl | listedLater
      · exact good
      · exact later entry listedLater

/-- Exchanges that each lower a measure, for as long as something is the case,
are no more than the measure. -/
theorem length_le (Inv Going : σ → Prop) (measure : σ → Nat)
    (kept : ∀ {state request answer next}, Inv state →
      step state request answer next → Inv next ∧
      (Going next → Going state ∧ measure next < measure state))
    (holds : Inv state) (run : Run step state trace last) (going : Going last) :
    Going state ∧ trace.length + measure last ≤ measure state := by
  induction run with
  | nil state => exact ⟨going, by simp⟩
  | cons exchange _ ih =>
      obtain ⟨next, back⟩ := kept holds exchange
      obtain ⟨there, later⟩ := ih next going
      obtain ⟨here, less⟩ := back there
      refine ⟨here, ?_⟩
      rw [List.length_cons]
      omega

theorem sharpen (Inv : σ → Prop) {step' : σ → ι → ω → σ → Prop}
    (kept : ∀ {state request answer next}, Inv state →
      step state request answer next →
      step' state request answer next ∧ Inv next)
    (holds : Inv state) (run : Run step state trace last) :
    Run step' state trace last := by
  induction run with
  | nil state => exact .nil state
  | cons exchange _ ih =>
      obtain ⟨sharper, next⟩ := kept holds exchange
      exact .cons sharper (ih next)

theorem restrict (Good : ι → ω → Prop)
    (good : ∀ entry ∈ trace, Good entry.1 entry.2)
    (run : Run step state trace last) :
    Run (fun state request answer next => step state request answer next ∧
      Good request answer) state trace last := by
  induction run with
  | nil state => exact .nil state
  | cons exchange _ ih =>
      have later := ih fun entry listed =>
        good entry (List.mem_cons_of_mem _ listed)
      exact .cons ⟨exchange, good _ List.mem_cons_self⟩ later

/-- A property of the last state that no exchange can bring about was true all
along, and so was whatever losing it takes. -/
theorem sharpen_of_last (Inv Holds : σ → Prop) {step' : σ → ι → ω → σ → Prop}
    (kept : ∀ {state request answer next}, Inv state →
      step state request answer next → Inv next ∧
      (Holds next → Holds state ∧ step' state request answer next))
    (holds : Inv state) (run : Run step state trace last)
    (atLast : Holds last) :
    Holds state ∧ Run step' state trace last := by
  induction run with
  | nil state => exact ⟨atLast, .nil state⟩
  | cons exchange _ ih =>
      obtain ⟨next, back⟩ := kept holds exchange
      obtain ⟨there, later⟩ := ih next atLast
      obtain ⟨here, sharper⟩ := back there
      exact ⟨here, .cons sharper later⟩

/-- A system that follows another: whatever the other answers it answers in its
own way, and stays related. -/
theorem follow {τ κ : Type*} {step' : τ → ι → κ → τ → Prop}
    (run : Run step state trace last) (R : σ → τ → Prop) (Match : ω → κ → Prop)
    (follows : ∀ {state other request answer next}, R state other →
      step state request answer next →
        ∃ answer' other', step' other request answer' other' ∧ R next other' ∧
          Match answer answer')
    {other : τ} (related : R state other) :
    ∃ trace' last', Run step' other trace' last' ∧ R last last' ∧
      List.Forall₂ (fun entry entry' => entry.1 = entry'.1 ∧
        Match entry.2 entry'.2) trace trace' := by
  induction run generalizing other with
  | nil => exact ⟨[], other, .nil other, related, .nil⟩
  | cons exchange _ ih =>
      obtain ⟨answer', mid', exchange', related', matching⟩ :=
        follows related exchange
      obtain ⟨trace', last', later, reached, rest⟩ := ih related'
      exact ⟨_, last', .cons exchange' later, reached,
        .cons ⟨rfl, matching⟩ rest⟩

/-- A part of a system, and the exchanges that touch it, make a run of their
own. -/
theorem project {τ κ ζ : Type*} {step' : τ → κ → ζ → τ → Prop} (view : σ → τ)
    (pick : ι × ω → Option (κ × ζ))
    (aside : ∀ {state request answer next}, step state request answer next →
      pick (request, answer) = none → view next = view state)
    (picked : ∀ {state request answer next entry},
      step state request answer next → pick (request, answer) = some entry →
      step' (view state) entry.1 entry.2 (view next))
    (run : Run step state trace last) :
    Run step' (view state) (trace.filterMap pick) (view last) := by
  induction run with
  | nil state => exact .nil (view state)
  | @cons state mid last request answer trace exchange _ ih =>
      cases chosen : pick (request, answer) with
      | none =>
          rw [List.filterMap_cons_none chosen, ← aside exchange chosen]
          exact ih
      | some entry =>
          rw [List.filterMap_cons_some chosen]
          exact .cons (picked exchange chosen) ih

theorem lockstep_from {τ κ : Type*} {step' : τ → ι → κ → τ → Prop}
    (R : List (ι × ω) → List (ι × κ) → σ → τ → Prop)
    (kept : ∀ {past past' left right request answer answer' left' right'},
      R past past' left right → step left request answer left' →
      step' right request answer' right' →
      R (past ++ [(request, answer)])
        (past' ++ [(request, answer')]) left' right')
    {past : List (ι × ω)} {past' trace' : List (ι × κ)} {right right' : τ}
    (related : R past past' state right) (run : Run step state trace last)
    (run' : Run step' right trace' right')
    (same : trace.map Prod.fst = trace'.map Prod.fst) :
    R (past ++ trace) (past' ++ trace') last right' := by
  induction run generalizing past past' right trace' with
  | nil =>
      cases run' with
      | nil => simpa using related
      | cons => simp at same
  | cons exchange _ ih =>
      cases run' with
      | nil => simp at same
      | cons exchange' rest' =>
          simp only [List.map_cons, List.cons.injEq] at same
          obtain ⟨sameRequest, sameLater⟩ := same
          subst sameRequest
          have next := ih (kept related exchange exchange') rest' sameLater
          simpa using next

/-- Two systems in lockstep: what related systems keep, sent the same request
after the same history, they keep over the same requests. -/
theorem lockstep {τ κ : Type*} {step' : τ → ι → κ → τ → Prop}
    (R : List (ι × ω) → List (ι × κ) → σ → τ → Prop)
    (kept : ∀ {past past' left right request answer answer' left' right'},
      R past past' left right → step left request answer left' →
      step' right request answer' right' →
      R (past ++ [(request, answer)])
        (past' ++ [(request, answer')]) left' right')
    {trace' : List (ι × κ)} {right right' : τ} (related : R [] [] state right)
    (run : Run step state trace last) (run' : Run step' right trace' right')
    (same : trace.map Prod.fst = trace'.map Prod.fst) :
    R trace trace' last right' :=
  lockstep_from R kept related run run' same

end Run

end Codec
