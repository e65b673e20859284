import Polliwog.Codec.Serial

/-!
# Decoders that read ahead of their room

The same machines under a driver that takes the next byte before it knows
whether there is room for what the byte decodes to.  What has no room is held,
so that a stream may have been read to its end before its content is out.
-/

namespace Codec

variable {β σ : Type}

namespace Dec.Reads

variable {W : Wire β} {read front held offered written : List β}
  {room taken : Nat} {signal : Signal}

/-- What is held back is written before what a call decodes. -/
theorem of_held
    (reads : Reads W ⟨read, front ++ held⟩ offered room taken written signal) :
    Reads W ⟨read, front⟩ offered (held.length + room) taken (held ++ written)
      signal where
  taken_le := reads.taken_le
  room_le := by
    have inRoom := reads.room_le
    simp only [List.length_append]
    omega
  more more := by
    have isOpen := reads.more more
    simpa only [after, List.append_assoc] using isOpen
  greedy more sound := by
    rcases reads.greedy more sound with ⟨all, whole⟩ | ⟨full, partway⟩
    · exact .inl ⟨all, by simpa only [List.append_assoc] using whole⟩
    · refine .inr ⟨by rw [List.length_append, full], ?_⟩
      simpa only [List.append_assoc] using partway
  held more damaged := by
    rw [List.length_append, reads.held more damaged]
  done done := by
    obtain ⟨complete, whole⟩ := reads.done done
    exact ⟨complete, by simpa only [List.append_assoc] using whole⟩
  bad := reads.bad

end Dec.Reads

namespace Serial

/-- What has been read of a stream that was not settled before its last byte,
and whether what that byte decoded to is held. -/
structure Ahead (M : Serial β σ) where
  read : List β
  holds : Bool
  unsettled : ∀ q, q <+: read → q ≠ read →
    M.signal (M.state M.start q) = .more

namespace Ahead

variable {M : Serial β σ}

def fresh (M : Serial β σ) : Ahead M where
  read := []
  holds := false
  unsettled := fun _ isPrefix different =>
    absurd (List.prefix_nil.mp isPrefix) different

def content (a : Ahead M) : List β := M.output M.start a.read

/-- What is held. -/
def held (a : Ahead M) : List β :=
  if a.holds then a.content.getLast?.toList else []

def delivered (a : Ahead M) : List β :=
  if a.holds then a.content.dropLast else a.content

def view (a : Ahead M) : Dec β := ⟨a.read, a.delivered⟩

/-- A decoder that holds something wants more, of room if not of input. -/
def signal (a : Ahead M) : Signal :=
  if a.held.isEmpty then M.signal (M.state M.start a.read) else .more

theorem delivered_held (a : Ahead M) : a.delivered ++ a.held = a.content := by
  unfold delivered held
  cases a.holds with
  | false => simp
  | true =>
      cases last : a.content.getLast? with
      | none => simp [List.getLast?_eq_none_iff.mp last]
      | some x => exact List.dropLast_append_getLast? x last

theorem length_held_le (a : Ahead M) : a.held.length ≤ 1 := by
  unfold held
  cases a.holds with
  | false => simp
  | true => cases a.content.getLast? <;> simp

theorem settles (a : Ahead M) {sig : Signal} (settled : sig ≠ .more)
    (signal : M.signal (M.state M.start a.read) = sig) :
    M.Settles sig a.read :=
  ⟨settled, signal, a.unsettled⟩

theorem isOpen {a : Ahead M} (more : a.signal = .more) :
    a.view.Open M.wire := by
  have faithful : a.delivered <+: a.content :=
    a.delivered_held ▸ List.prefix_append _ _
  refine ⟨faithful, ?_⟩
  cases signal : M.signal (M.state M.start a.read) with
  | more => exact .inl ((live_iff _).mpr signal)
  | bad => exact .inr (.inr ⟨_, List.prefix_rfl, a.settles (by decide) signal⟩)
  | done =>
      refine .inr (.inl ⟨a.settles (by decide) signal, fun all => ?_⟩)
      have whole : a.delivered = a.content := all
      have nothing : a.held = [] := by
        have parts := a.delivered_held
        rw [whole] at parts
        exact List.append_right_eq_self.mp parts
      simp [Ahead.signal, nothing, signal] at more

/-- What a call took, wrote, and left behind. -/
structure Call (M : Serial β σ) where
  next : Ahead M
  taken : Nat
  written : List β

/-- The drive behind a call, into what room is left after what was held. -/
def drive (a : Ahead M) (offered : List β) (room : Nat) : Drive β σ :=
  M.drive (M.state M.start a.read) offered (room - a.held.length)

/-- A byte is looked at for which there may be no room. -/
def Peeks (a : Ahead M) (offered : List β) (room : Nat) : Prop :=
  M.signal (a.drive offered room).state = .more ∧
    (a.drive offered room).taken < offered.length

instance (a : Ahead M) (offered : List β) (room : Nat) :
    Decidable (a.Peeks offered room) :=
  inferInstanceAs (Decidable (_ ∧ _))

def reads (a : Ahead M) (offered : List β) (room : Nat) : Nat :=
  (a.drive offered room).taken + if a.Peeks offered room then 1 else 0

theorem drives (a : Ahead M) (offered : List β) (room : Nat) :
    M.Drives (M.state M.start a.read) offered (room - a.held.length)
      (a.drive offered room) :=
  drives_drive _ _ _

theorem reads_of_peeks {a : Ahead M} {offered : List β} {room : Nat}
    (peeks : a.Peeks offered room) :
    ∃ b x, offered.take (a.reads offered room) =
        offered.take (a.drive offered room).taken ++ [b] ∧
      M.output M.start (a.read ++ offered.take (a.reads offered room)) =
        a.content ++ (a.drive offered room).written ++ [x] := by
  obtain ⟨more, left⟩ := peeks
  have drives := a.drives offered room
  obtain ⟨b, rest, x, next, decodes⟩ := drive_stopped more left
  have step : (M.next (a.drive offered room).state b).2 = some x := by
    rw [Serial.next, if_pos more]
    exact decodes
  have taken : offered.take (a.reads offered room) =
      offered.take (a.drive offered room).taken ++ [b] := by
    have after : offered.drop (a.drive offered room).taken = b :: rest := next
    rw [reads, if_pos ⟨more, left⟩, List.take_add, after]
    rfl
  refine ⟨b, x, taken, ?_⟩
  obtain ⟨state, content⟩ := drives.after
  have before : M.output M.start
      (a.read ++ offered.take (a.drive offered room).taken) =
      a.content ++ (a.drive offered room).written := content
  rw [taken, ← List.append_assoc, output_append, before, state]
  simp only [output, step, Option.toList_some, List.append_nil]

theorem unsettled_reads (a : Ahead M) (offered : List β) (room : Nat) :
    ∀ q, q <+: a.read ++ offered.take (a.reads offered room) →
      q ≠ a.read ++ offered.take (a.reads offered room) →
      M.signal (M.state M.start q) = .more := by
  have drives := a.drives offered room
  have driven : ∀ q,
      q <+: a.read ++ offered.take (a.drive offered room).taken →
      q ≠ a.read ++ offered.take (a.drive offered room).taken →
      M.signal (M.state M.start q) = .more := by
    intro q isPrefix different
    by_cases inside : q <+: a.read ∧ q ≠ a.read
    · exact a.unsettled q inside.1 inside.2
    · obtain ⟨t, rfl⟩ : a.read <+: q := by
        rcases List.prefix_or_prefix_of_prefix isPrefix
          (List.prefix_append a.read _) with short | long
        · by_contra shorter
          exact inside ⟨short, fun same => shorter (same ▸ List.prefix_rfl)⟩
        · exact long
      rw [state_append]
      apply drives.before t ((List.prefix_append_right_inj a.read).mp isPrefix)
      exact fun same => different (same ▸ rfl)
  intro q isPrefix different
  by_cases peeks : a.Peeks offered room
  · obtain ⟨b, x, taken, -⟩ := reads_of_peeks peeks
    rw [taken, ← List.append_assoc] at isPrefix different
    rcases List.prefix_concat_iff.mp isPrefix with whole | inside
    · exact absurd whole different
    · by_cases all : q = a.read ++ offered.take (a.drive offered room).taken
      · rw [all, drives.after.1]
        exact peeks.1
      · exact driven q inside all
  · have same : a.reads offered room = (a.drive offered room).taken := by
      rw [reads, if_neg peeks, Nat.add_zero]
    rw [same] at isPrefix different
    exact driven q isPrefix different

/-- Hand out what is held, read on as far as there is room, and look at one
byte more. -/
def call (a : Ahead M) (offered : List β) (room : Nat) : Call M :=
  if a.held.length ≤ room then
    { next :=
        { read := a.read ++ offered.take (a.reads offered room)
          holds := decide (a.Peeks offered room)
          unsettled := a.unsettled_reads offered room }
      taken := a.reads offered room
      written := a.held ++ (a.drive offered room).written }
  else { next := a, taken := 0, written := [] }

variable {a : Ahead M} {offered : List β} {room : Nat}

theorem call_of_short (short : room < a.held.length) :
    a.call offered room = { next := a, taken := 0, written := [] } :=
  if_neg (Nat.not_le.mpr short)

theorem call_of_fits (offered : List β) (fits : a.held.length ≤ room) :
    (a.call offered room).taken = a.reads offered room ∧
      (a.call offered room).written =
        a.held ++ (a.drive offered room).written ∧
      (a.call offered room).next.read =
        a.read ++ offered.take (a.reads offered room) ∧
      (a.call offered room).next.holds = decide (a.Peeks offered room) := by
  rw [call, if_pos fits]
  exact ⟨rfl, rfl, rfl, rfl⟩

theorem call_within (a : Ahead M) (offered : List β) (room : Nat) :
    (a.call offered room).taken ≤ offered.length ∧
      (a.call offered room).written.length ≤ room := by
  by_cases fits : a.held.length ≤ room
  · obtain ⟨taken, written, -, -⟩ := call_of_fits offered fits
    have drives := a.drives offered room
    have inInput := drives.taken_le
    have inRoom := drives.room_le
    rw [taken, written, List.length_append, reads]
    refine ⟨?_, by omega⟩
    split
    case isTrue peeks => exact peeks.2
    case isFalse => exact inInput
  · rw [call_of_short (Nat.not_le.mp fits)]
    exact ⟨Nat.zero_le _, Nat.zero_le _⟩

theorem call_of_peeks (fits : a.held.length ≤ room)
    (peeks : a.Peeks offered room) :
    ∃ x, (a.call offered room).next.held = [x] ∧
      (a.call offered room).next.delivered =
        a.content ++ (a.drive offered room).written ∧
      (a.call offered room).next.content =
        a.content ++ (a.drive offered room).written ++ [x] := by
  obtain ⟨b, x, -, content⟩ := reads_of_peeks peeks
  obtain ⟨-, -, read, holds⟩ := call_of_fits offered fits
  have next : (a.call offered room).next.content =
      a.content ++ (a.drive offered room).written ++ [x] := by
    rw [Ahead.content, read]
    exact content
  rw [decide_eq_true peeks] at holds
  refine ⟨x, ?_, ?_, next⟩
  · rw [held, holds, next, List.getLast?_concat]
    rfl
  · rw [delivered, holds, next]
    exact List.dropLast_concat

theorem call_of_not_peeks (fits : a.held.length ≤ room)
    (overlooks : ¬ a.Peeks offered room) :
    (a.call offered room).taken = (a.drive offered room).taken ∧
      (a.call offered room).next.held = [] ∧
      (a.call offered room).next.delivered =
        a.content ++ (a.drive offered room).written ∧
      (a.call offered room).next.signal =
        M.signal (a.drive offered room).state := by
  obtain ⟨state, content⟩ := (a.drives offered room).after
  obtain ⟨taken, -, read, holds⟩ := call_of_fits offered fits
  have same : a.reads offered room = (a.drive offered room).taken := by
    rw [reads, if_neg overlooks, Nat.add_zero]
  rw [same] at taken read
  rw [decide_eq_false overlooks] at holds
  have nothing : (a.call offered room).next.held = [] := by
    rw [held, holds]
    rfl
  refine ⟨taken, nothing, ?_, ?_⟩
  · rw [delivered, holds, Ahead.content, read]
    exact content
  · rw [signal, nothing, read, state]
    rfl

theorem call_view (a : Ahead M) (offered : List β) (room : Nat) :
    (a.call offered room).next.view =
      a.view.after (offered.take (a.call offered room).taken)
        (a.call offered room).written := by
  by_cases fits : a.held.length ≤ room
  · have delivered : (a.call offered room).next.delivered =
        a.content ++ (a.drive offered room).written := by
      by_cases peeks : a.Peeks offered room
      · obtain ⟨-, -, delivered, -⟩ := call_of_peeks fits peeks
        exact delivered
      · exact (call_of_not_peeks fits peeks).2.2.1
    obtain ⟨taken, written, read, -⟩ := call_of_fits offered fits
    rw [view, read, delivered, taken, written, Dec.after, view,
      ← a.delivered_held, List.append_assoc]
  · rw [call_of_short (Nat.not_le.mp fits)]
    simp [Dec.after, view]

theorem content_isPrefix (a : Ahead M) (offered : List β) :
    a.content <+: M.wire.content (a.read ++ offered) :=
  M.wire.content_mono (List.prefix_append _ _)

/-- A call that hands out nothing of what is held had no room for it. -/
theorem call_reads_of_short (more : a.signal = .more)
    (short : room < a.held.length) :
    a.view.Reads M.wire offered room 0 [] .more where
  taken_le := Nat.zero_le _
  room_le := Nat.zero_le _
  more _ := by
    simpa [Dec.after, view] using isOpen more
  greedy _ _ := by
    have one := a.length_held_le
    refine .inr ⟨by rw [List.length_nil]; omega, fun whole => ?_⟩
    have known := (a.content_isPrefix offered).length_le
    have parts := congrArg List.length a.delivered_held
    have all := congrArg List.length whole
    simp only [view, List.append_nil, List.length_append] at parts all
    omega
  held _ _ := by
    have one := a.length_held_le
    rw [List.length_nil]
    omega
  done done := by cases done
  bad bad := by cases bad

/-- A call on a settled stream hands out what is held, and says so. -/
theorem call_reads_of_settled {sig : Signal} (settled : sig ≠ .more)
    (signal : M.signal (M.state M.start a.read) = sig)
    (fits : a.held.length ≤ room) :
    a.view.Reads M.wire offered room 0 a.held sig where
  taken_le := Nat.zero_le _
  room_le := fits
  more more := absurd more settled
  greedy more := absurd more settled
  held more := absurd more settled
  done done := by
    subst done
    rw [List.take_zero, List.append_nil]
    exact ⟨a.settles settled signal, a.delivered_held⟩
  bad bad := by
    subst bad
    exact ⟨a.read, List.prefix_append _ _, a.settles settled signal⟩

/-- A call on a live stream does what the drive behind it does, and may look at
one byte more. -/
theorem call_reads_of_live (live : M.signal (M.state M.start a.read) = .more)
    (fits : a.held.length ≤ room) :
    a.view.Reads M.wire offered room (a.call offered room).taken
      (a.call offered room).written (a.call offered room).next.signal := by
  have drives := a.drives offered room
  have inner := drives.reads live
  have written := (call_of_fits offered fits).2.1
  have driven : a.view.Reads M.wire offered room (a.drive offered room).taken
      (a.held ++ (a.drive offered room).written)
      (M.signal (a.drive offered room).state) := by
    have content : M.wire.content a.read = a.delivered ++ a.held :=
      a.delivered_held.symm
    rw [content] at inner
    have shifted := inner.of_held
    rwa [Nat.add_sub_cancel' fits] at shifted
  by_cases peeks : a.Peeks offered room
  · obtain ⟨x, held, -, content⟩ := call_of_peeks fits peeks
    have more : (a.call offered room).next.signal = .more := by
      simp [signal, held]
    have full : (a.call offered room).written.length = room := by
      rcases drives.stops peeks.1 with all | ⟨full, -⟩
      · exact absurd all peeks.2.ne
      · rw [written, List.length_append, full]
        omega
    have within := a.call_within offered room
    refine ⟨within.1, within.2, ?_, ?_, fun _ _ => full, ?_, ?_⟩
    · intro _
      rw [← call_view]
      exact isOpen more
    · intro _ _
      refine .inr ⟨full, fun whole => ?_⟩
      have known : (a.call offered room).next.content <+:
          M.wire.content (a.read ++ offered) := by
        apply M.wire.content_mono
        rw [(call_of_fits offered fits).2.2.1]
        exact Dec.Reads.read_take_isPrefix a.view offered _
      have length := known.length_le
      rw [content, ← a.delivered_held, List.append_assoc a.delivered, ← written]
        at length
      have all := congrArg List.length whole
      simp only [view, List.length_append, List.length_singleton] at length all
      omega
    · intro done
      cases more.symm.trans done
    · intro bad
      cases more.symm.trans bad
  · obtain ⟨taken, -, -, signal⟩ := call_of_not_peeks fits peeks
    rw [taken, written, signal]
    exact driven

theorem call_reads (more : a.signal = .more) (offered : List β) (room : Nat) :
    a.view.Reads M.wire offered room (a.call offered room).taken
      (a.call offered room).written (a.call offered room).next.signal := by
  by_cases fits : a.held.length ≤ room
  · by_cases live : M.signal (M.state M.start a.read) = .more
    · exact call_reads_of_live live fits
    · have idle : a.drive offered room =
          ⟨M.state M.start a.read, 0, []⟩ := drive_of_settled live _ _
      have overlooks : ¬ a.Peeks offered room := by
        rw [Peeks, idle]
        exact fun peeks => live peeks.1
      obtain ⟨taken, -, -, signal⟩ := call_of_not_peeks fits overlooks
      have written := (call_of_fits offered fits).2.1
      rw [taken, written, signal, idle, List.append_nil]
      exact call_reads_of_settled live rfl fits
  · have short := Nat.not_le.mp fits
    rw [call_of_short short, more]
    exact call_reads_of_short more short

theorem call_fresh (offered : List β) (room : Nat) :
    ((fresh M).call offered room).written =
        ((fresh M).drive offered room).written ∧
      ((fresh M).drive offered room).written = M.wire.content
        (offered.take ((fresh M).drive offered room).taken) ∧
      ((fresh M).call offered room).taken = (fresh M).reads offered room := by
  obtain ⟨taken, written, -, -⟩ :=
    call_of_fits (a := fresh M) offered (Nat.zero_le room)
  exact ⟨written, ((fresh M).drives offered room).written, taken⟩

/-- Of what a fresh decoder reads only the last byte may be looked at for
nothing. -/
theorem call_fresh_frugal {p : List β} {b : β}
    (last : offered.take ((fresh M).call offered room).taken = p ++ [b]) :
    (M.wire.content p).length ≤
      ((fresh M).call offered room).written.length := by
  obtain ⟨written, content, taken⟩ := call_fresh (M := M) offered room
  rw [written, content]
  refine (M.wire.content_mono ?_).length_le
  rw [taken] at last
  by_cases peeks : (fresh M).Peeks offered room
  · obtain ⟨c, x, parts, -⟩ := reads_of_peeks peeks
    rw [parts] at last
    rw [(List.append_inj' last rfl).1]
  · rw [reads, if_neg peeks, Nat.add_zero] at last
    rw [last]
    exact List.prefix_append p [b]

/-- A fresh decoder that holds nothing has read all it was offered. -/
theorem call_fresh_eager
    (more : ((fresh M).call offered room).next.signal = .more)
    (whole : ((fresh M).call offered room).written = M.wire.content
      (offered.take ((fresh M).call offered room).taken)) :
    ((fresh M).call offered room).taken = offered.length := by
  obtain ⟨written, -, taken⟩ := call_fresh (M := M) offered room
  have fits : (fresh M).held.length ≤ room := Nat.zero_le room
  by_cases peeks : (fresh M).Peeks offered room
  · obtain ⟨x, -, -, content⟩ := call_of_peeks fits peeks
    have read := (call_of_fits offered fits).2.2.1
    have longer : M.wire.content
        (offered.take ((fresh M).call offered room).taken) =
        ((fresh M).drive offered room).written ++ [x] := by
      rw [taken]
      exact (congrArg M.wire.content read).symm.trans content
    rw [longer, written] at whole
    have length := congrArg List.length whole
    simp at length
  · obtain ⟨taken', -, -, signal⟩ := call_of_not_peeks fits peeks
    rw [taken']
    rw [signal] at more
    exact le_antisymm ((fresh M).drives offered room).taken_le
      (Nat.not_lt.mp fun left => peeks ⟨more, left⟩)

end Ahead

end Serial

end Codec
