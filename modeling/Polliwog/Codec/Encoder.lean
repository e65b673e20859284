import Polliwog.Codec.Wire

/-!
# Encoders that are handed windows

An encoder absorbs input and emits output, each as far as its windows allow.
Between calls it is described by what it has absorbed, what it has emitted,
and what it would still emit if it were finished now.  The stream has ended
when nothing is left to emit.
-/

namespace Codec

variable {β : Type}

@[ext] structure Enc (β : Type) where
  source : List β
  output : List β
  rest : List β

namespace Enc

/-- Emitted and pending bytes together are one whole stream of what was
absorbed. -/
structure Sound (W : Wire β) (e : Enc β) : Prop where
  complete : W.Complete (e.output ++ e.rest)
  content : W.content (e.output ++ e.rest) = e.source

def Ended (e : Enc β) : Prop := e.rest = []

instance [DecidableEq β] (e : Enc β) : Decidable e.Ended :=
  inferInstanceAs (Decidable (e.rest = []))

/-- A call that may absorb input and emit output, the stream staying open. -/
structure Absorbs (e : Enc β) (offered : List β) (room taken : Nat)
    (written : List β) (e' : Enc β) : Prop where
  taken_le : taken ≤ offered.length
  room_le : written.length ≤ room
  source : e'.source = e.source ++ offered.take taken
  output : e'.output = e.output ++ written
  opened : ¬ e'.Ended

/-- A flush: unless it filled its room, everything absorbed can be decoded
from what has been emitted. -/
structure Syncs (W : Wire β) (e : Enc β) (room : Nat) (written : List β)
    (e' : Enc β) : Prop extends Absorbs e [] room 0 written e' where
  synced : written.length < room → W.content e'.output = e'.source

/-- A finishing call: it emits what is left when that fits, and fills its room
otherwise. -/
structure Finishes (e : Enc β) (room : Nat) (written : List β) (e' : Enc β) :
    Prop where
  source : e'.source = e.source
  output : e'.output = e.output ++ written
  fits : e.rest.length ≤ room → written = e.rest ∧ e'.Ended
  short : room < e.rest.length → written.length = room ∧ ¬ e'.Ended

variable {W : Wire β} {e e' : Enc β} {offered written : List β}
  {room taken : Nat}

theorem Sound.ended (sound : e.Sound W) (ended : e.Ended) :
    W.Complete e.output ∧ W.content e.output = e.source := by
  have complete := sound.complete
  have content := sound.content
  have nothing : e.rest = [] := ended
  rw [nothing, List.append_nil] at complete content
  exact ⟨complete, content⟩

/-- What has been emitted is always a prefix of one whole stream. -/
theorem Sound.output_isPrefix (sound : e.Sound W) :
    ∃ s, W.Complete s ∧ e.output <+: s :=
  ⟨e.output ++ e.rest, sound.complete, List.prefix_append _ _⟩

theorem Absorbs.of_nil (absorbs : e.Absorbs [] room taken written e') :
    e.Absorbs [] room 0 written e' := by
  have nothing : taken = 0 := Nat.le_zero.mp absorbs.taken_le
  exact nothing ▸ absorbs

/-- A call that emitted some of what is left, then finishing calls in the rest
of its room, make one finishing call. -/
theorem Finishes.after {e₁ : Enc β} {first : List β}
    (source : e₁.source = e.source) (output : e₁.output = e.output ++ first)
    (left : e.rest = first ++ e₁.rest) (inRoom : first.length ≤ room)
    (finishes : e₁.Finishes (room - first.length) written e') :
    e.Finishes room (first ++ written) e' := by
  have length : e.rest.length = first.length + e₁.rest.length := by
    rw [left, List.length_append]
  refine ⟨finishes.source.trans source, ?_, ?_, ?_⟩
  · rw [finishes.output, output, List.append_assoc]
  · intro fits
    obtain ⟨same, ended⟩ := finishes.fits (by omega)
    exact ⟨by rw [same, left], ended⟩
  · intro short
    obtain ⟨filled, opened⟩ := finishes.short (by omega)
    refine ⟨?_, opened⟩
    rw [List.length_append]
    omega

/-- A finishing call ends the stream exactly when all that is left fits. -/
theorem Finishes.ended_iff (finishes : e.Finishes room written e') :
    e'.Ended ↔ e.rest.length ≤ room := by
  constructor
  · intro ended
    by_contra tooLong
    exact (finishes.short (Nat.lt_of_not_le tooLong)).2 ended
  · intro fits
    exact (finishes.fits fits).2

end Enc

end Codec
