import Polliwog.Format

/-!
# The error taxonomy

Errors are values.  Callers switch on the kind; the note carries the engine's
own text when one is forwarded.
-/

namespace Polliwog

inductive Kind where
  | streamCorrupt
  | bufferTooSmall
  | levelUnsupported
  | formatMismatch
  | backendFailure
  | outOfMemory
  | internalContractViolation
  deriving DecidableEq, Repr

inductive BackendId where
  | none
  | zlib
  | zlibNg
  | zstd
  | lz4
  deriving DecidableEq, Repr

structure Error where
  kind : Kind
  backend : BackendId
  pos : Nat
  note : String
  deriving DecidableEq, Repr

/-- The refusal of the library itself when no engine serves the format. -/
def formatMismatchErr : Error :=
  { kind := .formatMismatch, backend := .none, pos := 0, note := "" }

/-- The refusal of an output span shorter than the bound. -/
def bufferTooSmallErr : Error :=
  { kind := .bufferTooSmall, backend := .none, pos := 0, note := "" }

/-- A refusal of a kind. -/
def FailsWith {α : Type} (kind : Kind) (result : Except Error α) : Prop :=
  ∃ e, result = .error e ∧ e.kind = kind

namespace FailsWith

variable {α β : Type} {kind : Kind}

@[simp] theorem error_iff {e : Error} :
    FailsWith kind (.error e : Except Error α) ↔ e.kind = kind := by
  simp [FailsWith]

@[simp] theorem not_ok {value : α} :
    ¬ FailsWith kind (.ok value : Except Error α) := by
  simp [FailsWith]

@[simp] theorem map_iff {g : α → β} {result : Except Error α} :
    FailsWith kind (result.map g) ↔ FailsWith kind result := by
  cases result with
  | error e => simp [Except.map]
  | ok value => simp [Except.map]

theorem unique {kind' : Kind} {result : Except Error α}
    (first : FailsWith kind result) (second : FailsWith kind' result) :
    kind = kind' := by
  obtain ⟨e, failed, same⟩ := first
  obtain ⟨e', failed', same'⟩ := second
  rw [failed, Except.error.injEq] at failed'
  rw [← same, failed', same']

end FailsWith

end Polliwog
