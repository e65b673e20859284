import Polliwog.Codec.Wire

/-!
# Decoders that are handed windows

A decoder is called with some input and some room.  It reads as far as it can,
delivers what it can, and signals whether it wants more, has reached the end
of its stream, or has found the stream damaged.  `Reads` is the contract of
one such call; everything below it follows from the contract alone.
-/

namespace Codec

variable {β : Type}

inductive Signal where
  | more
  | done
  | bad
  deriving DecidableEq, Repr

/-- What a decoder is ready for: more of its stream, or nothing more. -/
inductive Dec.Status where
  | opened
  | ended
  | failed
  deriving DecidableEq, Repr

/-- The status of an opened decoder after a call with this signal. -/
def Signal.status : Signal → Dec.Status
  | .more => .opened
  | .done => .ended
  | .bad => .failed

theorem Signal.status_opened_iff (signal : Signal) :
    signal.status = .opened ↔ signal = .more := by
  cases signal <;> simp [status]

/-- What a decoder has read and delivered since it was opened. -/
structure Dec (β : Type) where
  read : List β
  delivered : List β

namespace Dec

def fresh : Dec β := ⟨[], []⟩

def after (d : Dec β) (taken written : List β) : Dec β :=
  ⟨d.read ++ taken, d.delivered ++ written⟩

/-- A decoder that has more to do: its stream is live, or it has been read to
its end or to its damage, and what is left is held back for want of room. -/
structure Open (W : Wire β) (d : Dec β) : Prop where
  faithful : d.delivered <+: W.content d.read
  unsettled : W.Live d.read ∨
    (W.Complete d.read ∧ d.delivered ≠ W.content d.read) ∨ W.Damaged d.read

theorem open_fresh (W : Wire β) : (fresh : Dec β).Open W :=
  ⟨List.nil_prefix, .inl W.live_nil⟩

/-- The contract of one call: `taken` bytes of `offered` were read and
`written` was delivered into `room`.  Damage may pass unseen for as long as
there is no room to go on. -/
structure Reads (W : Wire β) (d : Dec β) (offered : List β) (room taken : Nat)
    (written : List β) (signal : Signal) : Prop where
  taken_le : taken ≤ offered.length
  room_le : written.length ≤ room
  more : signal = .more → (d.after (offered.take taken) written).Open W
  greedy : signal = .more → ¬ W.Damaged (d.read ++ offered) →
    (taken = offered.length ∧
      d.delivered ++ written = W.content (d.read ++ offered)) ∨
      (written.length = room ∧
        d.delivered ++ written ≠ W.content (d.read ++ offered))
  held : signal = .more → W.Damaged (d.read ++ offered) → written.length = room
  done : signal = .done →
    W.Complete (d.read ++ offered.take taken) ∧
      d.delivered ++ written = W.content (d.read ++ offered.take taken)
  bad : signal = .bad → W.Damaged (d.read ++ offered)

/-- Damage is found although there may be no room left to go on. -/
def Prompt (W : Wire β) (d : Dec β) (offered : List β) (room : Nat)
    (signal : Signal) :
    Prop :=
  W.Damaged (d.read ++ offered) →
    (W.content (d.read ++ offered)).length ≤ d.delivered.length + room →
    signal = .bad

namespace Reads

variable {W : Wire β} {d : Dec β} {offered written : List β} {room taken : Nat}
  {signal : Signal}

theorem read_take_isPrefix (d : Dec β) (offered : List β) (taken : Nat) :
    d.read ++ offered.take taken <+: d.read ++ offered :=
  (List.prefix_append_right_inj d.read).mpr (List.take_prefix taken offered)

theorem not_bad (reads : Reads W d offered room taken written signal)
    {s : List β} (complete : W.Complete s)
    (related : d.read ++ offered <+: s ∨ s <+: d.read ++ offered) :
    signal ≠ .bad := by
  intro isBad
  exact complete.not_damaged related (reads.bad isBad)

/-- Room for everything decodable is never the reason to stop. -/
theorem greedy_of_roomy (reads : Reads W d offered room taken written signal)
    (isMore : signal = .more) (sound : ¬ W.Damaged (d.read ++ offered))
    (roomy : (W.content (d.read ++ offered)).length ≤
      d.delivered.length + room) :
    taken = offered.length ∧
    d.delivered ++ written = W.content (d.read ++ offered) := by
  rcases reads.greedy isMore sound with all | ⟨full, partway⟩
  · exact all
  · exfalso
    have faithful : d.delivered ++ written <+: W.content (d.read ++ offered) :=
      (reads.more isMore).faithful.trans
        (W.content_mono (read_take_isPrefix d offered taken))
    apply partway
    apply faithful.eq_of_length_le
    rw [List.length_append, full]
    exact roomy

theorem take_all {taken : Nat} (all : taken = offered.length) :
    offered.take taken = offered := by
  rw [all, List.take_length]

/-- With room enough, an input that reaches the end of a stream ends the call
there. -/
theorem ends (reads : Reads W d offered room taken written signal)
    {s : List β} (complete : W.Complete s) (reached : s <+: d.read ++ offered)
    (roomy : (W.content s).length ≤ d.delivered.length + room) :
    signal = .done ∧ d.read ++ offered.take taken = s ∧
      d.delivered ++ written = W.content s := by
  have sameContent : W.content (d.read ++ offered) = W.content s :=
    W.content_final complete reached
  cases signal with
  | bad => exact absurd rfl (reads.not_bad complete (.inr reached))
  | done =>
      obtain ⟨ended, delivered⟩ := reads.done rfl
      have same : d.read ++ offered.take taken = s :=
        W.complete_unique ended complete
          (read_take_isPrefix d offered taken) reached
      exact ⟨rfl, same, same ▸ delivered⟩
  | more =>
      exfalso
      have sound := complete.not_damaged (.inr reached)
      obtain ⟨all, delivered⟩ :=
        reads.greedy_of_roomy rfl sound (by rw [sameContent]; exact roomy)
      have unsettled := (reads.more rfl).unsettled
      simp only [after, take_all all] at unsettled
      rcases unsettled with live | ⟨-, pending⟩ | damaged
      · exact (live s reached).1 complete
      · exact pending delivered
      · exact sound damaged

theorem done_inside (reads : Reads W d offered room taken written signal)
    (isDone : signal = .done) {s : List β} (complete : W.Complete s)
    (inside : d.read ++ offered <+: s) :
    taken = offered.length ∧ d.read ++ offered = s ∧
    d.delivered ++ written = W.content s := by
  obtain ⟨ended, delivered⟩ := reads.done isDone
  have isPrefix := read_take_isPrefix d offered taken
  have same : d.read ++ offered.take taken = s :=
    W.complete_unique ended complete (isPrefix.trans inside) List.prefix_rfl
  have all : d.read ++ offered = s := by
    apply inside.eq_of_length_le
    rw [← same]
    exact isPrefix.length_le
  rw [same] at delivered
  refine ⟨?_, all, delivered⟩
  have long := congrArg List.length (same.trans all.symm)
  have within := reads.taken_le
  simp only [List.length_append, List.length_take] at long
  omega

/-- With room enough, an input inside a whole stream is read and decoded whole.
-/
theorem reads_all (reads : Reads W d offered room taken written signal)
    {s : List β} (complete : W.Complete s) (inside : d.read ++ offered <+: s)
    (roomy : (W.content (d.read ++ offered)).length ≤
      d.delivered.length + room) :
    taken = offered.length ∧
    d.delivered ++ written = W.content (d.read ++ offered) := by
  cases signal with
  | bad => exact absurd rfl (reads.not_bad complete (.inl inside))
  | more =>
      exact reads.greedy_of_roomy rfl (complete.not_damaged (.inl inside)) roomy
  | done =>
      obtain ⟨all, same, delivered⟩ := reads.done_inside rfl complete inside
      exact ⟨all, same ▸ delivered⟩

theorem not_complete (reads : Reads W d offered room taken written signal)
    (isMore : signal = .more) {s : List β} (complete : W.Complete s)
    (inside : d.read ++ offered <+: s)
    (roomy : (W.content s).length ≤ d.delivered.length + room) :
    ¬ W.Complete (d.read ++ offered.take taken) := by
  intro ended
  have isPrefix := read_take_isPrefix d offered taken
  have same : d.read ++ offered.take taken = s :=
    W.complete_unique ended complete (isPrefix.trans inside) List.prefix_rfl
  obtain ⟨isDone, -⟩ := reads.ends complete (same ▸ isPrefix) roomy
  rw [isMore] at isDone
  cases isDone

theorem starves (reads : Reads W d offered room taken written signal)
    (live : W.Live (d.read ++ offered))
    (roomy : (W.content (d.read ++ offered)).length ≤
      d.delivered.length + room) :
    signal = .more ∧ taken = offered.length ∧
      d.delivered ++ written = W.content (d.read ++ offered) := by
  cases signal with
  | bad =>
      obtain ⟨p, isPrefix, corrupt⟩ := reads.bad rfl
      exact absurd corrupt (live p isPrefix).2
  | done =>
      exact absurd (reads.done rfl).1
        (live _ (read_take_isPrefix d offered taken)).1
  | more => exact ⟨rfl, reads.greedy_of_roomy rfl live.not_damaged roomy⟩

/-- With room to spare, an input that holds the damage is refused. -/
theorem breaks (reads : Reads W d offered room taken written signal)
    (damaged : W.Damaged (d.read ++ offered))
    (roomy : (W.content (d.read ++ offered)).length <
      d.delivered.length + room) :
    signal = .bad := by
  cases signal with
  | bad => rfl
  | done =>
      have isPrefix := read_take_isPrefix d offered taken
      exact absurd damaged ((reads.done rfl).1.not_damaged (.inr isPrefix))
  | more =>
      exfalso
      have full := reads.held rfl damaged
      have inside := ((reads.more rfl).faithful.trans
        (W.content_mono (read_take_isPrefix d offered taken))).length_le
      simp only [after, List.length_append, full] at inside
      omega

/-- A call that wants more after an offer of input and room has used some of
either. -/
theorem progress (reads : Reads W d offered room taken written signal)
    (isMore : signal = .more) (nonempty : offered ≠ []) (room_pos : 0 < room) :
    0 < taken ∨ 0 < written.length := by
  by_cases damaged : W.Damaged (d.read ++ offered)
  · exact .inr (reads.held isMore damaged ▸ room_pos)
  · rcases reads.greedy isMore damaged with ⟨all, -⟩ | ⟨full, -⟩
    · exact .inl (all ▸ List.length_pos_iff.mpr nonempty)
    · exact .inr (full ▸ room_pos)

theorem progress_at_end (reads : Reads W d offered room taken written signal)
    (isOpen : d.Open W) (complete : W.Complete d.read) (isMore : signal = .more)
    (room_pos : 0 < room) : 0 < written.length := by
  have pending : d.delivered ≠ W.content d.read := by
    rcases isOpen.unsettled with live | ⟨-, pending⟩ | damaged
    · exact absurd complete (live.not_complete List.prefix_rfl)
    · exact pending
    · exact absurd damaged (complete.not_damaged (.inl List.prefix_rfl))
  have sound := complete.not_damaged (.inr (List.prefix_append d.read offered))
  rcases reads.greedy isMore sound with ⟨-, delivered⟩ | ⟨full, -⟩
  · rw [W.content_final complete (List.prefix_append _ _)] at delivered
    by_contra nothing
    have blank : written = [] :=
      List.length_eq_zero_iff.mp (Nat.eq_zero_of_not_pos nothing)
    rw [blank, List.append_nil] at delivered
    exact pending delivered
  · exact full ▸ room_pos

theorem delivered_isPrefix (reads : Reads W d offered room taken written signal)
    (notBad : signal ≠ .bad) :
    d.delivered ++ written <+: W.content (d.read ++ offered.take taken) := by
  cases signal with
  | bad => exact absurd rfl notBad
  | done => exact (reads.done rfl).2 ▸ List.prefix_rfl
  | more => exact (reads.more rfl).faithful

/-- A call that took all it was offered and found no damage has filled its room
with the content as far as it goes; only where it goes no further than the room
can there be damage to be found. -/
theorem filled (reads : Reads W d offered room taken written signal)
    (notBad : signal ≠ .bad) (all : taken = offered.length) :
    d.delivered ++ written =
      (W.content (d.read ++ offered)).take (d.delivered.length + room) ∧
      (W.Live (d.read ++ offered) ∨ W.Complete (d.read ++ offered) ∨
        (W.Damaged (d.read ++ offered) ∧ written.length = room)) := by
  have inRoom := reads.room_le
  have whole (delivered : d.delivered ++ written =
      W.content (d.read ++ offered)) : d.delivered ++ written =
        (W.content (d.read ++ offered)).take (d.delivered.length + room) := by
    rw [← delivered, List.take_of_length_le]
    rw [List.length_append]
    omega
  cases signal with
  | bad => exact absurd rfl notBad
  | done =>
      obtain ⟨complete, delivered⟩ := reads.done rfl
      rw [take_all all] at complete delivered
      exact ⟨whole delivered, .inr (.inl complete)⟩
  | more =>
      have isOpen := reads.more rfl
      simp only [after, take_all all] at isOpen
      have cut (full : written.length = room) : d.delivered ++ written =
          (W.content (d.read ++ offered)).take (d.delivered.length + room) := by
        rw [← full, ← List.length_append]
        exact List.prefix_iff_eq_take.mp isOpen.faithful
      by_cases damaged : W.Damaged (d.read ++ offered)
      · have full := reads.held rfl damaged
        exact ⟨cut full, .inr (.inr ⟨damaged, full⟩)⟩
      · refine ⟨?_, ?_⟩
        · rcases reads.greedy rfl damaged with ⟨-, delivered⟩ | ⟨full, -⟩
          · exact whole delivered
          · exact cut full
        · rcases isOpen.unsettled with live | ⟨complete, -⟩ | found
          · exact .inl live
          · exact .inr (.inl complete)
          · exact absurd found damaged

end Reads

end Dec

end Codec
