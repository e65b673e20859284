import Polliwog.Codec.Decoder

/-!
# Decoders that read byte by byte

A serial machine takes one byte a step and decodes at most one.  It defines a
wire format, and run inside the windows of a call it keeps the contract of a
decoder of that format.
-/

namespace Codec

variable {β σ : Type}

structure Serial (β σ : Type) where
  start : σ
  step : σ → β → σ × Option β
  signal : σ → Signal
  signal_start : signal start = .more

namespace Serial

variable (M : Serial β σ)

/-- A machine that has settled stays as it is. -/
def next (s : σ) (b : β) : σ × Option β :=
  if M.signal s = .more then M.step s b else (s, none)

def state (s : σ) : List β → σ
  | [] => s
  | b :: bs => state (M.next s b).1 bs

def output (s : σ) : List β → List β
  | [] => []
  | b :: bs => (M.next s b).2.toList ++ output (M.next s b).1 bs

variable {M}

theorem state_append (s : σ) (p q : List β) :
    M.state s (p ++ q) = M.state (M.state s p) q := by
  induction p generalizing s with
  | nil => rfl
  | cons b p ih => exact ih _

theorem output_append (s : σ) (p q : List β) :
    M.output s (p ++ q) = M.output s p ++ M.output (M.state s p) q := by
  induction p generalizing s with
  | nil => rfl
  | cons b p ih =>
      simp only [List.cons_append, output, state, ih, List.append_assoc]

theorem state_of_settled {s : σ} (settled : M.signal s ≠ .more) (p : List β) :
    M.state s p = s := by
  induction p with
  | nil => rfl
  | cons b p ih => simpa only [state, next, settled, ↓reduceIte] using ih

theorem output_of_settled {s : σ} (settled : M.signal s ≠ .more) (p : List β) :
    M.output s p = [] := by
  induction p with
  | nil => rfl
  | cons b p ih =>
      simpa only [output, next, settled, ↓reduceIte, Option.toList_none,
        List.nil_append] using ih

theorem more_of_isPrefix {s : σ} {p q : List β}
    (more : M.signal (M.state s q) = .more) (isPrefix : p <+: q) :
    M.signal (M.state s p) = .more := by
  obtain ⟨t, rfl⟩ := isPrefix
  by_contra settled
  rw [state_append, state_of_settled settled] at more
  exact settled more

variable (M)

/-- The machine settles at the end of `p` and not before. -/
structure Settles (sig : Signal) (p : List β) : Prop where
  settled : sig ≠ .more
  signal : M.signal (M.state M.start p) = sig
  before : ∀ q, q <+: p → q ≠ p → M.signal (M.state M.start q) = .more

variable {M}

theorem Settles.unique {sig sig' : Signal} {p q : List β}
    (first : M.Settles sig p) (second : M.Settles sig' q) (isPrefix : p <+: q) :
    p = q := by
  by_contra different
  have more := second.before p isPrefix different
  rw [first.signal] at more
  exact first.settled more

/-- A machine that has settled did so somewhere. -/
theorem exists_settles {sig : Signal} {p : List β} (settled : sig ≠ .more)
    (signal : M.signal (M.state M.start p) = sig) :
    ∃ q, q <+: p ∧ M.Settles sig q := by
  induction p using List.reverseRecOn with
  | nil =>
      rw [state, M.signal_start] at signal
      exact absurd signal.symm settled
  | append_singleton p b ih =>
      by_cases more : M.signal (M.state M.start p) = .more
      · refine ⟨p ++ [b], List.prefix_rfl, settled, signal, ?_⟩
        intro q isPrefix different
        rcases List.prefix_concat_iff.mp isPrefix with whole | inside
        · exact absurd whole different
        · exact more_of_isPrefix more inside
      · have same : M.signal (M.state M.start p) = sig := by
          rw [state_append, state_of_settled more] at signal
          exact signal
        obtain ⟨q, inside, settles⟩ := ih same
        exact ⟨q, inside.trans (List.prefix_append _ _), settles⟩

variable (M)

/-- The wire format of a machine. -/
def wire : Wire β where
  Complete := M.Settles .done
  Corrupt := M.Settles .bad
  content := M.output M.start
  content_nil := rfl
  content_mono := by
    intro p q isPrefix
    obtain ⟨t, rfl⟩ := isPrefix
    rw [output_append]
    exact List.prefix_append _ _
  content_final := by
    intro p q complete isPrefix
    obtain ⟨t, rfl⟩ := isPrefix
    have settled : M.signal (M.state M.start p) ≠ .more := by
      rw [complete.signal]
      decide
    rw [output_append, output_of_settled settled, List.append_nil]
  settled := by
    intro p q left right isPrefix
    obtain ⟨sig, first⟩ : ∃ sig, M.Settles sig p := by
      rcases left with settles | settles <;> exact ⟨_, settles⟩
    obtain ⟨sig', second⟩ : ∃ sig, M.Settles sig q := by
      rcases right with settles | settles <;> exact ⟨_, settles⟩
    exact first.unique second isPrefix
  exclusive := by
    intro p complete corrupt
    have different := complete.signal.symm.trans corrupt.signal
    cases different
  not_complete_nil := by
    intro complete
    have different := complete.signal.symm.trans M.signal_start
    cases different
  not_corrupt_nil := by
    intro corrupt
    have different := corrupt.signal.symm.trans M.signal_start
    cases different

variable {M}

theorem live_iff (p : List β) :
    M.wire.Live p ↔ M.signal (M.state M.start p) = .more := by
  constructor
  · intro live
    cases signal : M.signal (M.state M.start p) with
    | more => rfl
    | done =>
        obtain ⟨q, isPrefix, settles⟩ := exists_settles (by decide) signal
        exact absurd settles (live q isPrefix).1
    | bad =>
        obtain ⟨q, isPrefix, settles⟩ := exists_settles (by decide) signal
        exact absurd settles (live q isPrefix).2
  · intro more q isPrefix
    have before := more_of_isPrefix more isPrefix
    constructor
    · intro settles
      have different := settles.signal.symm.trans before
      cases different
    · intro settles
      have different := settles.signal.symm.trans before
      cases different

theorem complete_of_last {p : List β} {b : β}
    (more : M.signal (M.state M.start p) = .more)
    (done : M.signal (M.state M.start (p ++ [b])) = .done) :
    M.wire.Complete (p ++ [b]) := by
  refine ⟨by decide, done, ?_⟩
  intro q isPrefix different
  rcases List.prefix_concat_iff.mp isPrefix with whole | inside
  · exact absurd whole different
  · exact more_of_isPrefix more inside

/-- What a machine did inside the windows of one call. -/
structure Drive (β σ : Type) where
  state : σ
  taken : Nat
  written : List β

variable (M)

/-- Read on until the input is out, the machine settles, or a decoded byte has
no room. -/
def drive (s : σ) : List β → Nat → Drive β σ
  | [], _ => ⟨s, 0, []⟩
  | b :: bs, room =>
      if M.signal s = .more then
        match M.step s b, room with
        | (s', none), room =>
            let rest := drive s' bs room
            ⟨rest.state, rest.taken + 1, rest.written⟩
        | (_, some _), 0 => ⟨s, 0, []⟩
        | (s', some x), room + 1 =>
            let rest := drive s' bs room
            ⟨rest.state, rest.taken + 1, x :: rest.written⟩
      else ⟨s, 0, []⟩

/-- What a drive did, said of the bytes it took. -/
structure Drives (s : σ) (offered : List β) (room : Nat) (d : Drive β σ) :
    Prop where
  taken_le : d.taken ≤ offered.length
  room_le : d.written.length ≤ room
  state : d.state = M.state s (offered.take d.taken)
  written : d.written = M.output s (offered.take d.taken)
  stops : M.signal d.state = .more → d.taken = offered.length ∨
    (d.written.length = room ∧ d.written ≠ M.output s offered)
  before : ∀ q, q <+: offered.take d.taken →
    q ≠ offered.take d.taken → M.signal (M.state s q) = .more

variable {M}

theorem Drives.idle {s : σ} {offered : List β} {room : Nat}
    (stops : M.signal s = .more → offered = [] ∨
      (room = 0 ∧ M.output s offered ≠ [])) :
    M.Drives s offered room ⟨s, 0, []⟩ where
  taken_le := Nat.zero_le _
  room_le := Nat.zero_le _
  state := rfl
  written := rfl
  stops := by
    intro more
    rcases stops more with blank | ⟨noRoom, pending⟩
    · exact .inl (by rw [blank]; rfl)
    · exact .inr ⟨noRoom.symm, pending.symm⟩
  before := by
    intro q isPrefix different
    rw [List.take_zero] at isPrefix different
    exact absurd (List.prefix_nil.mp isPrefix) different

theorem Drives.cons {s s' : σ} {b : β} {x : Option β} {offered : List β}
    {room room' : Nat} {d : Drive β σ} (more : M.signal s = .more)
    (step : M.step s b = (s', x)) (used : room = x.toList.length + room')
    (drives : M.Drives s' offered room' d) :
    M.Drives s (b :: offered) room ⟨d.state, d.taken + 1,
      x.toList ++ d.written⟩ := by
  have next : M.next s b = (s', x) := by
    rw [Serial.next, if_pos more, step]
  refine ⟨Nat.succ_le_succ drives.taken_le, ?_, ?_, ?_, ?_, ?_⟩
  · have inside := drives.room_le
    simp only [List.length_append]
    omega
  · rw [List.take_succ_cons, Serial.state, next]
    exact drives.state
  · rw [List.take_succ_cons, output, next, ← drives.written]
  · intro still
    rcases drives.stops still with all | ⟨full, pending⟩
    · exact .inl (congrArg (· + 1) all)
    · refine .inr ⟨by simp only [List.length_append]; omega, ?_⟩
      rw [output, next]
      intro same
      exact pending (List.append_cancel_left same)
  · intro q isPrefix different
    rw [List.take_succ_cons] at isPrefix different
    cases q with
    | nil => exact more
    | cons c q =>
        obtain ⟨rfl, inside⟩ := List.cons_prefix_cons.mp isPrefix
        have shorter : q ≠ offered.take d.taken :=
          fun same => different (same ▸ rfl)
        rw [Serial.state, next]
        exact drives.before q inside shorter

theorem drives_drive (s : σ) (offered : List β) (room : Nat) :
    M.Drives s offered room (M.drive s offered room) := by
  induction offered generalizing s room with
  | nil => exact .idle fun _ => .inl rfl
  | cons b offered ih =>
      by_cases more : M.signal s = .more
      · rcases step : M.step s b with ⟨s', x⟩
        cases x with
        | none =>
            simp only [drive, more, ↓reduceIte, step]
            exact .cons more step (Nat.zero_add room).symm (ih s' room)
        | some x =>
            cases room with
            | zero =>
                simp only [drive, more, ↓reduceIte, step]
                refine .idle fun _ => .inr ⟨rfl, ?_⟩
                simp [output, next, more, step]
            | succ room =>
                simp only [drive, more, ↓reduceIte, step]
                exact .cons more step (Nat.add_comm room 1) (ih s' room)
      · simp only [drive, more, ↓reduceIte]
        exact .idle fun still => absurd still more

/-- A drive that leaves input unread was stopped by a byte that decodes. -/
theorem drive_stopped {s : σ} {offered : List β} {room : Nat}
    (more : M.signal (M.drive s offered room).state = .more)
    (left : (M.drive s offered room).taken < offered.length) :
    ∃ b rest x, offered.drop (M.drive s offered room).taken = b :: rest ∧
      (M.step (M.drive s offered room).state b).2 = some x := by
  induction offered generalizing s room with
  | nil => exact absurd left (Nat.not_lt_zero _)
  | cons b offered ih =>
      by_cases open_ : M.signal s = .more
      · rcases step : M.step s b with ⟨s', x⟩
        cases x with
        | none =>
            simp only [drive, open_, ↓reduceIte, step] at more left ⊢
            exact ih more (Nat.lt_of_succ_lt_succ left)
        | some x =>
            cases room with
            | zero =>
                simp only [drive, open_, ↓reduceIte, step]
                exact ⟨b, offered, x, rfl, by rw [step]⟩
            | succ room =>
                simp only [drive, open_, ↓reduceIte, step] at more left ⊢
                exact ih more (Nat.lt_of_succ_lt_succ left)
      · simp only [drive, open_, ↓reduceIte] at more

theorem drive_of_settled {s : σ} (settled : M.signal s ≠ .more)
    (offered : List β) (room : Nat) : M.drive s offered room = ⟨s, 0, []⟩ := by
  cases offered with
  | nil => rfl
  | cons b offered => simp only [drive, settled, ↓reduceIte]

theorem Drives.after {read offered : List β} {room : Nat} {d : Drive β σ}
    (drives : M.Drives (M.state M.start read) offered room d) :
    M.state M.start (read ++ offered.take d.taken) = d.state ∧
      M.wire.content (read ++ offered.take d.taken) =
        M.wire.content read ++ d.written := by
  constructor
  · rw [state_append, drives.state]
  · rw [drives.written]
    exact output_append _ _ _

/-- A drive of a machine that has read `read` keeps the contract of a decoder
that has read and delivered as much. -/
theorem Drives.reads {read offered : List β} {room : Nat} {d : Drive β σ}
    (more : M.signal (M.state M.start read) = .more)
    (drives : M.Drives (M.state M.start read) offered room d) :
    Dec.Reads M.wire ⟨read, M.wire.content read⟩ offered room d.taken d.written
      (M.signal d.state) := by
  obtain ⟨state, moved⟩ := drives.after
  have content := moved.symm
  have settles {sig : Signal} (settled : sig ≠ .more)
      (signal : M.signal d.state = sig) :
      M.Settles sig (read ++ offered.take d.taken) := by
    refine ⟨settled, state.symm ▸ signal, ?_⟩
    intro q isPrefix different
    rcases List.prefix_or_prefix_of_prefix isPrefix
      (List.prefix_append read _) with inside | ⟨t, rfl⟩
    · exact more_of_isPrefix more inside
    · have inside := (List.prefix_append_right_inj read).mp isPrefix
      rw [state_append]
      exact drives.before t inside fun same => different (same ▸ rfl)
  refine ⟨drives.taken_le, drives.room_le, ?_, ?_, ?_, ?_, ?_⟩
  · intro still
    refine ⟨content ▸ List.prefix_rfl, .inl ?_⟩
    exact (live_iff _).mpr (state.symm ▸ still)
  · intro still _
    rcases drives.stops still with all | ⟨full, pending⟩
    · refine .inl ⟨all, ?_⟩
      rw [content, Dec.Reads.take_all all]
    · refine .inr ⟨full, ?_⟩
      have whole : M.wire.content (read ++ offered) =
          M.wire.content read ++ M.output (M.state M.start read) offered :=
        output_append _ _ _
      rw [whole]
      exact fun same => pending (List.append_cancel_left same)
  · intro still damaged
    rcases drives.stops still with all | ⟨full, -⟩
    · have live := (live_iff _).mpr (state.symm ▸ still)
      rw [Dec.Reads.take_all all] at live
      exact absurd damaged live.not_damaged
    · exact full
  · intro done
    exact ⟨settles (by decide) done, content⟩
  · intro bad
    exact ⟨_, Dec.Reads.read_take_isPrefix ⟨read, []⟩ offered d.taken,
      settles (by decide) bad⟩

/-- A machine looks at a byte before it knows whether there is room for what the
byte decodes to. -/
theorem Drives.prompt {read offered : List β} {room : Nat} {d : Drive β σ}
    (more : M.signal (M.state M.start read) = .more)
    (drives : M.Drives (M.state M.start read) offered room d) :
    Dec.Prompt M.wire ⟨read, M.wire.content read⟩ offered room
      (M.signal d.state) := by
  intro damaged roomy
  have reads := drives.reads more
  cases signal : M.signal d.state with
  | bad => rfl
  | done =>
      have isPrefix := Dec.Reads.read_take_isPrefix ⟨read, []⟩ offered d.taken
      exact absurd damaged ((reads.done signal).1.not_damaged (.inr isPrefix))
  | more =>
      exfalso
      rcases drives.stops signal with all | ⟨full, pending⟩
      · have live := (live_iff _).mpr (drives.after.1.symm ▸ signal)
        rw [Dec.Reads.take_all all] at live
        exact live.not_damaged damaged
      · have whole : M.wire.content (read ++ offered) =
            M.wire.content read ++ M.output (M.state M.start read) offered :=
          output_append _ _ _
        have inside : d.written <+:
            M.output (M.state M.start read) offered := by
          rw [drives.written]
          conv_rhs =>
            rw [← List.take_append_drop d.taken offered, output_append]
          exact List.prefix_append _ _
        apply pending
        apply inside.eq_of_length_le
        rw [whole, List.length_append] at roomy
        simp only at roomy
        omega

end Serial

end Codec
