import Polliwog.Codec.Decoder
import Polliwog.Codec.Encoder

/-!
# An encoder and a decoder joined by a channel

What the encoder emits goes into the channel, and the decoder is offered what
stands at its front.  Whichever of the two moves next, what the decoder has
delivered is a prefix of what the encoder has absorbed; it is all of it once
the decoder says that it is done, or once a flush has come through.
-/

namespace Codec

variable {β : Type} {W : Wire β}

/-- Every byte that was emitted is in the channel or has been read, in order. -/
structure Carries (W : Wire β) (e : Enc β) (d : Dec β) (channel : List β) :
    Prop where
  sound : e.Sound W
  kept : d.read ++ channel = e.output
  faithful : d.delivered <+: W.content d.read

namespace Carries

variable {e e' : Enc β} {d : Dec β} {channel offered written : List β}
  {room taken : Nat} {signal : Signal}

theorem fresh (sound : e.Sound W) (silent : e.output = []) :
    Carries W e .fresh [] :=
  ⟨sound, silent.symm, List.nil_prefix⟩

variable (carries : Carries W e d channel)

include carries

theorem inside : d.read ++ channel <+: e.output ++ e.rest := by
  rw [carries.kept]
  exact List.prefix_append _ _

theorem delivered_isPrefix : d.delivered <+: e.source := by
  have read : d.read <+: e.output ++ e.rest :=
    (List.prefix_append _ _).trans carries.inside
  rw [← carries.sound.content]
  exact carries.faithful.trans (W.content_mono read)

theorem emits (sound : e'.Sound W) (output : e'.output = e.output ++ written) :
    Carries W e' d (channel ++ written) where
  sound := sound
  kept := by rw [output, ← carries.kept, List.append_assoc]
  faithful := carries.faithful

omit carries in
theorem take_front (front : offered <+: channel)
    (short : taken ≤ offered.length) :
    offered.take taken = channel.take taken := by
  obtain ⟨later, rfl⟩ := front
  exact (List.take_append_of_le_length short).symm

theorem unfinished (isOpen : d.Open W) (ended : e.Ended) :
    0 < channel.length + (e.source.length - d.delivered.length) := by
  by_contra nothing
  have isEmpty : channel = [] := List.length_eq_zero_iff.mp (by omega)
  have whole := carries.kept
  rw [isEmpty, List.append_nil] at whole
  obtain ⟨complete, content⟩ := carries.sound.ended ended
  rcases isOpen.unsettled with live | ⟨-, pending⟩ | damaged
  · exact live.not_complete List.prefix_rfl (whole ▸ complete)
  · apply pending
    rw [whole, content]
    exact carries.delivered_isPrefix.eq_of_length_le (by omega)
  · exact complete.not_damaged (.inl (whole ▸ List.prefix_rfl)) damaged

section Receiving

variable (reads : Dec.Reads W d offered room taken written signal)
  (front : offered <+: channel)

include reads front

theorem not_bad : signal ≠ .bad := by
  refine reads.not_bad carries.sound.complete (.inl ?_)
  exact ((List.prefix_append_right_inj _).mpr front).trans carries.inside

omit reads in
theorem not_damaged : ¬ W.Damaged (d.read ++ offered) :=
  carries.sound.complete.not_damaged
    (.inl (((List.prefix_append_right_inj _).mpr front).trans carries.inside))

theorem receives :
    Carries W e (d.after (offered.take taken) written)
      (channel.drop taken) where
  sound := carries.sound
  kept := by
    change (d.read ++ offered.take taken) ++ channel.drop taken = e.output
    rw [take_front front reads.taken_le, List.append_assoc,
      List.take_append_drop]
    exact carries.kept
  faithful := reads.delivered_isPrefix (carries.not_bad reads front)

theorem done (isDone : signal = .done) :
    e.Ended ∧ channel.drop taken = [] ∧ d.delivered ++ written = e.source := by
  obtain ⟨complete, delivered⟩ := reads.done isDone
  have after := carries.receives reads front
  have inside : d.read ++ offered.take taken <+: e.output ++ e.rest :=
    (List.prefix_append _ _).trans after.inside
  have same : d.read ++ offered.take taken = e.output ++ e.rest :=
    W.complete_unique complete carries.sound.complete inside List.prefix_rfl
  have kept : (d.read ++ offered.take taken) ++ channel.drop taken = e.output :=
    after.kept
  have lengths := congrArg List.length kept
  rw [same] at lengths
  simp only [List.length_append] at lengths
  refine ⟨?_, ?_, ?_⟩
  · exact List.length_eq_zero_iff.mp (by omega)
  · exact List.length_eq_zero_iff.mp (by omega)
  · rw [delivered, same, carries.sound.content]

/-- Once everything emitted can be decoded to everything absorbed, a decoder
that empties the channel and is left room has delivered it. -/
theorem caughtUp (synced : W.content e.output = e.source)
    (isEmpty : channel.drop taken = []) (roomLeft : written.length < room) :
    d.delivered ++ written = e.source := by
  have all : offered = channel := by
    apply front.eq_of_length_le
    exact (List.drop_eq_nil_iff.mp isEmpty).trans reads.taken_le
  cases signal with
  | bad => exact absurd rfl (carries.not_bad reads front)
  | done => exact (carries.done reads front rfl).2.2
  | more =>
      rcases reads.greedy rfl (carries.not_damaged front)
        with ⟨-, delivered⟩ | ⟨full, -⟩
      · rw [delivered, all, carries.kept, synced]
      · omega

omit front in
/-- A decoder that is offered some of the channel, or comes after the end of
it, does not stand still. -/
theorem moves (isOpen : d.Open W) (isMore : signal = .more)
    (positive : 0 < room) (useful : offered ≠ [] ∨ (channel = [] ∧ e.Ended)) :
    0 < taken ∨ 0 < written.length := by
  rcases useful with nonempty | ⟨nothing, ended⟩
  · exact reads.progress isMore nonempty positive
  · right
    have whole := carries.kept
    rw [nothing, List.append_nil] at whole
    have complete : W.Complete d.read := whole ▸ (carries.sound.ended ended).1
    exact reads.progress_at_end isOpen complete isMore positive

end Receiving

end Carries

namespace Wire

/-- What was sent of a source: a part of one whole stream of it, or all of that
and more. -/
def Conveys (W : Wire β) (source sent : List β) : Prop :=
  ∃ s, W.Complete s ∧ W.content s = source ∧ (sent <+: s ∨ s <+: sent)

variable {source sent p : List β}

theorem conveys_of_sound {e : Enc β} (sound : e.Sound W) :
    W.Conveys e.source e.output :=
  ⟨_, sound.complete, sound.content, .inl (List.prefix_append _ _)⟩

namespace Conveys

variable (conveys : W.Conveys source sent) (isPrefix : p <+: sent)

include conveys isPrefix

/-- Where the reader is lies on one line with the whole stream. -/
theorem along :
    ∃ s t, W.Complete s ∧ W.content s = source ∧ s <+: t ∧ p <+: t := by
  obtain ⟨s, complete, content, partly | wholly⟩ := conveys
  · exact ⟨s, s, complete, content, List.prefix_rfl, isPrefix.trans partly⟩
  · exact ⟨s, sent, complete, content, wholly, isPrefix⟩

theorem content_isPrefix : W.content p <+: source := by
  obtain ⟨s, t, complete, content, stream, reader⟩ := conveys.along isPrefix
  have inside := W.content_mono reader
  rwa [W.content_final complete stream, content] at inside

theorem content_of_complete (complete : W.Complete p) :
    W.content p = source := by
  obtain ⟨s, t, complete', content, stream, reader⟩ := conveys.along isPrefix
  rw [W.complete_unique complete complete' reader stream, content]

theorem not_corrupt : ¬ W.Corrupt p := by
  obtain ⟨s, t, complete, -, stream, reader⟩ := conveys.along isPrefix
  exact W.not_corrupt_of_complete complete stream reader

end Conveys

end Wire

end Codec
