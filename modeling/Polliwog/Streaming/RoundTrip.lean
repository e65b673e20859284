import Polliwog.Streaming.Completion
import Polliwog.Streaming.Decompressing

/-!
# The streaming round trip

A caller that goes by the reported counts alone: it presents again what was not
reported consumed, and keeps what was reported produced.  Along such a session
the counts agree with what the encoder and the decoder behind the objects have
absorbed, emitted, read and delivered.
-/

namespace Polliwog

open Codec

variable {B : Build}

/-- A session with a fresh compressor: pushes of pieces of `x`, flushes
anywhere, every call returning a value. -/
inductive Sends (B : Build) (f : Format) (lvl : ZlibLevel) (x : List UInt8) :
    Compressor B → (consumed produced : List UInt8) → Prop where
  | start : Sends B f lvl x (.of B f lvl) [] []
  | push {c : Compressor B} {consumed produced : List UInt8} {r : StreamResult}
      (input out : Span) :
      Sends B f lvl x c consumed produced →
      consumed ++ input.bytes <+: x → input.size < 2 ^ 32 → out.size < 2 ^ 32 →
      (c.push input out).result = .ok r →
      Sends B f lvl x (c.push input out).handle
        (consumed ++ input.bytes.take r.bytesConsumed)
        (produced ++ (out.overwrite (c.push input out).written).take
          r.bytesProduced)
  | flush {c : Compressor B} {consumed produced : List UInt8} {r : StreamResult}
      (out : Span) :
      Sends B f lvl x c consumed produced → out.size < 2 ^ 32 →
      (c.flush out).result = .ok r →
      Sends B f lvl x (c.flush out).handle consumed
        (produced ++ (out.overwrite (c.flush out).written).take r.bytesProduced)

/-- A session with a fresh decompressor: pushes of pieces of `s` into memory,
none of them done yet.  `useful` counts those that offered some input or came
after the last of it. -/
inductive Receives (B : Build) (f : Format) (s : List UInt8) :
    Decompressor B → (consumed delivered : List UInt8) →
    (useful : Nat) → Prop where
  | start : Receives B f s (.construct B f) [] [] 0
  | push {d : Decompressor B} {consumed delivered : List UInt8} {useful : Nat}
      {r : StreamResult} (input out : Span) :
      Receives B f s d consumed delivered useful →
      consumed ++ input.bytes <+: s → input.size < 2 ^ 32 →
      0 < out.size → out.size < 2 ^ 32 →
      (d.push input out).result = .ok r → r.done = false →
      Receives B f s (d.push input out).handle
        (consumed ++ input.bytes.take r.bytesConsumed)
        (delivered ++ (out.overwrite (d.push input out).written).take
          r.bytesProduced)
        (useful + if input.bytes ≠ [] ∨ consumed = s then 1 else 0)

/-- Feeding `s` to a decompressor in any pieces yields `x`: no push fails, a
push that is done has taken all of `s` and delivered all of `x`, and only
finitely many useful pushes come before it. -/
def Yields (B : Build) (f : Format) (s x : List UInt8) : Prop :=
  ∀ d consumed delivered useful, Receives B f s d consumed delivered useful →
    useful ≤ s.length + x.length ∧
    ∀ input out : Span, consumed ++ input.bytes <+: s → input.size < 2 ^ 32 →
      0 < out.size → out.size < 2 ^ 32 →
      ∃ r, (d.push input out).result = .ok r ∧
        (r.done = true →
          consumed ++ input.bytes.take r.bytesConsumed = s ∧
          delivered ++ (out.overwrite (d.push input out).written).take
            r.bytesProduced = x)

namespace EngineLaws

variable (laws : EngineLaws B) {f : Format} {lvl : ZlibLevel}

theorem sends_inv (exact : CountsExact B f) (serves : B.Serves f)
    (accepted : Accepts f lvl) {x : List UInt8} {c : Compressor B}
    {consumed produced : List UInt8}
    (sends : Sends B f lvl x c consumed produced) :
    laws.Compresses f c ∧ laws.Writing c ∧ (laws.encoder c).source = consumed ∧
      (laws.encoder c).output = produced := by
  induction sends with
  | start =>
      obtain ⟨holds, source, output, writing⟩ :=
        laws.compresses_of lvl serves accepted
      exact ⟨holds, writing, source, output⟩
  | @push c consumed produced r input out _ _ narrowIn narrowOut ok ih =>
      obtain ⟨holds, writing, source, output⟩ := ih
      obtain ⟨kept, still, idle | ⟨taken, absorbs⟩⟩ :=
        laws.push_spec holds writing input out
      · obtain ⟨e, failed⟩ := idle.failed
        rw [failed] at ok
        cases ok
      · obtain ⟨r', result, -, counts⟩ := absorbs.result
        have same : r' = r := Except.ok.inj (result.symm.trans ok)
        subst same
        obtain ⟨inCount, outCount⟩ := counts exact
        refine ⟨kept, still, ?_, ?_⟩
        · rw [absorbs.encoder.source, source,
            Span.shown_of_lt f narrowIn, inCount]
        · rw [absorbs.encoder.output, output, outCount, Span.take_overwrite]
  | @flush c consumed produced r out _ narrowOut ok ih =>
      obtain ⟨holds, writing, source, output⟩ := ih
      obtain ⟨kept, still, idle | syncs⟩ := laws.flush_spec holds writing out
      · obtain ⟨e, failed⟩ := idle.failed
        rw [failed] at ok
        cases ok
      · obtain ⟨r', result, -, -, count⟩ := syncs.result
        have same : r' = r := Except.ok.inj (result.symm.trans ok)
        subst same
        refine ⟨kept, still, ?_, ?_⟩
        · rw [syncs.encoder.source, source, List.take_nil, List.append_nil]
        · rw [syncs.encoder.output, output, count exact, Span.take_overwrite]

/-- After a flush that left some room, what was produced decodes to what was
consumed. -/
theorem sends_flush (exact : CountsExact B f) (serves : B.Serves f)
    (accepted : Accepts f lvl) {x : List UInt8} {c : Compressor B}
    {consumed produced : List UInt8}
    (sends : Sends B f lvl x c consumed produced) {out : Span}
    {r : StreamResult} (narrow : out.size < 2 ^ 32)
    (ok : (c.flush out).result = .ok r)
    (roomLeft : r.bytesProduced < out.size) :
    (laws.wire f).content
        (produced ++ (out.overwrite (c.flush out).written).take
          r.bytesProduced) =
      consumed := by
  obtain ⟨holds, writing, -, -⟩ := laws.sends_inv exact serves accepted sends
  obtain ⟨-, -, source, output⟩ :=
    laws.sends_inv exact serves accepted (.flush out sends narrow ok)
  obtain ⟨-, -, idle | syncs⟩ := laws.flush_spec holds writing out
  · obtain ⟨e, failed⟩ := idle.failed
    rw [failed] at ok
    cases ok
  · obtain ⟨r', result, -, -, count⟩ := syncs.result
    have same : r' = r := Except.ok.inj (result.symm.trans ok)
    subst same
    have synced := syncs.encoder.synced (by
      rw [reach_of_lt f narrow, ← count exact]
      exact roomLeft)
    rw [source, output] at synced
    exact synced

/-- One finish with room for what is left completes the stream. -/
theorem sends_finish (exact : CountsExact B f) (serves : B.Serves f)
    (accepted : Accepts f lvl) {x : List UInt8} {c : Compressor B}
    {produced : List UInt8} (sends : Sends B f lvl x c x produced) {out : Span}
    (narrow : out.size < 2 ^ 32)
    (roomy : (laws.encoder c).rest.length ≤ out.size) :
    ∃ reply r, c.finish out = some reply ∧ reply.result = .ok r ∧
      (laws.wire f).Complete
        (produced ++ (out.overwrite reply.written).take r.bytesProduced) ∧
      (laws.wire f).content
        (produced ++ (out.overwrite reply.written).take r.bytesProduced) =
          x := by
  obtain ⟨holds, ⟨opened, -⟩, source, output⟩ :=
    laws.sends_inv exact serves accepted sends
  have left : 0 < (laws.encoder c).rest.length := List.length_pos_iff.mpr opened
  have whole : reach f out.size = out.size := reach_of_lt f narrow
  obtain ⟨reply, returned, kept, ⟨-, noRoom⟩ | served⟩ :=
    laws.finish_spec holds opened out
  · omega
  · obtain ⟨finishes, r, result, -, count⟩ := served
    rw [whole] at finishes
    obtain ⟨-, ended⟩ := finishes.fits roomy
    obtain ⟨complete, content⟩ := kept.sound.ended ended
    rw [finishes.output, output] at complete content
    rw [finishes.source, source] at content
    refine ⟨reply, r, returned, result, ?_, ?_⟩
    · rw [count exact, Span.take_overwrite]
      exact complete
    · rw [count exact, Span.take_overwrite]
      exact content

theorem push_inside (exact : CountsExact B f) {s : List UInt8}
    (complete : (laws.wire f).Complete s) {d : Decompressor B}
    (holds : laws.Decompresses f d) (opened : laws.status d = .opened)
    {input out : Span} (inside : (laws.decoder d).read ++ input.bytes <+: s)
    (narrowIn : input.size < 2 ^ 32) (positive : 0 < out.size)
    (narrowOut : out.size < 2 ^ 32) :
    ∃ taken signal r,
      (laws.decoder d).Reads (laws.wire f) input.bytes out.size taken
        (d.push input out).written signal ∧
      (signal ≠ .bad → laws.Decompresses f (d.push input out).handle ∧
        laws.status (d.push input out).handle = signal.status ∧
        laws.decoder (d.push input out).handle =
          (laws.decoder d).after (input.bytes.take taken)
            (d.push input out).written) ∧
      signal ≠ .bad ∧ (d.push input out).result = .ok r ∧
      (r.done = true ↔ signal = .done) ∧
      r.bytesConsumed = taken ∧
      r.bytesProduced = (d.push input out).written.length := by
  have memory : out.isNull = false := Span.notNull_of_size_pos positive
  obtain ⟨taken, signal, ⟨reads, -, -, kept, advances, status, -, verdict⟩⟩ :=
    laws.push_reads holds opened input (.inr memory)
  rw [Span.shown_of_lt f narrowIn, reach_of_lt f narrowOut] at reads
  rw [Span.shown_of_lt f narrowIn] at advances
  have notBad : signal ≠ .bad := reads.not_bad complete (.inl inside)
  have notExtra : ¬ (signal = .done ∧ f = .zstd ∧ taken < input.size) := by
    intro extra
    obtain ⟨isDone, -, less⟩ := extra
    obtain ⟨all, -, -⟩ := reads.done_inside isDone complete inside
    exact less.ne all
  obtain ⟨r, result, done, counts⟩ := verdict.served notBad notExtra
  obtain ⟨inCount, outCount⟩ := counts exact
  exact ⟨taken, signal, r, reads,
    fun _ => ⟨kept, status notBad, advances notBad⟩, notBad, result,
    done, inCount, outCount⟩

theorem receives_inv (exact : CountsExact B f) (serves : B.Serves f)
    {s : List UInt8} (complete : (laws.wire f).Complete s) {d : Decompressor B}
    {consumed delivered : List UInt8} {useful : Nat}
    (receives : Receives B f s d consumed delivered useful) :
    laws.Decompresses f d ∧ laws.status d = .opened ∧
      laws.decoder d = ⟨consumed, delivered⟩ ∧
      (laws.decoder d).Open (laws.wire f) ∧
      consumed <+: s ∧ useful ≤ consumed.length + delivered.length := by
  induction receives with
  | start =>
      obtain ⟨holds, fresh, opened⟩ := laws.decompresses_construct serves
      refine ⟨holds, opened, fresh, ?_, List.nil_prefix, le_rfl⟩
      rw [fresh]
      exact Dec.open_fresh _
  | @push d consumed delivered useful r input out _ inside narrowIn positive
    narrowOut ok more
      ih =>
      obtain ⟨holds, opened, view, isOpen, -, counted⟩ := ih
      have insideRead : (laws.decoder d).read ++ input.bytes <+: s := by
        rw [view]
        exact inside
      obtain ⟨taken, signal, r', reads, next, notBad, result, done, inCount,
          outCount⟩ :=
        laws.push_inside exact complete holds opened insideRead narrowIn
          positive narrowOut
      have same : r' = r := Except.ok.inj (result.symm.trans ok)
      subst same
      have isMore : signal = .more := by
        cases signal with
        | bad => exact absurd rfl notBad
        | done =>
            have isDone := done.mpr rfl
            rw [more] at isDone
            cases isDone
        | more => rfl
      obtain ⟨kept, status, view'⟩ := next notBad
      have isOpen' := reads.more isMore
      have moved : input.bytes ≠ [] ∨ consumed = s →
          0 < taken ∨ 0 < (d.push input out).written.length := by
        intro offer
        rcases offer with nonempty | atEnd
        · exact reads.progress isMore nonempty positive
        · have whole : (laws.wire f).Complete (laws.decoder d).read := by
            rw [view]
            exact atEnd ▸ complete
          exact .inr (reads.progress_at_end isOpen whole isMore positive)
      have takenLe := reads.taken_le
      rw [inCount, outCount, Span.take_overwrite]
      refine ⟨kept, ?_, ?_, ?_, ?_, ?_⟩
      · rw [status, isMore]
        rfl
      · rw [view', view]
        rfl
      · rw [view']
        exact isOpen'
      · exact ((List.prefix_append_right_inj _).mpr
          (List.take_prefix _ _)).trans inside
      · simp only [List.length_append, List.length_take]
        split
        case isTrue wasUseful =>
          have step := moved wasUseful
          omega
        case isFalse => omega

/-- Feeding a whole stream yields its content. -/
theorem yields (exact : CountsExact B f) (serves : B.Serves f) {s : List UInt8}
    (complete : (laws.wire f).Complete s) :
    Yields B f s ((laws.wire f).content s) := by
  intro d consumed delivered useful receives
  obtain ⟨holds, opened, view, isOpen, isPrefix, counted⟩ :=
    laws.receives_inv exact serves complete receives
  have faithful := isOpen.faithful
  rw [view] at faithful
  have sourceLe := isPrefix.length_le
  have contentLe : delivered.length ≤ ((laws.wire f).content s).length :=
    (faithful.trans ((laws.wire f).content_mono isPrefix)).length_le
  refine ⟨by omega, ?_⟩
  intro input out inside narrowIn positive narrowOut
  have insideRead : (laws.decoder d).read ++ input.bytes <+: s := by
    rw [view]
    exact inside
  obtain ⟨taken, signal, r, reads, -, -, result, done, inCount, outCount⟩ :=
    laws.push_inside exact complete holds opened insideRead narrowIn
      positive narrowOut
  refine ⟨r, result, fun isDone => ?_⟩
  obtain ⟨all, same, total⟩ :=
    reads.done_inside (done.mp isDone) complete insideRead
  rw [view] at same total
  rw [inCount, outCount, Span.take_overwrite, all, List.take_length]
  exact ⟨same, total⟩

end EngineLaws

/-- Over any schedule of pushes and flushes, a flush with room to spare makes
everything consumed decodable, and a finish with room for the rest makes a
complete stream that any schedule of pushes decodes to the source. -/
theorem stream_round_trip (laws : EngineLaws B) {f : Format} {lvl : ZlibLevel}
    (wide : B.zlib.ulongBits = 64) (serves : B.Serves f)
    (accepted : Accepts f lvl) (x : List UInt8) :
    (∀ c consumed produced, Sends B f lvl x c consumed produced →
      ∀ (out : Span) r, out.size < 2 ^ 32 → (c.flush out).result = .ok r →
        r.bytesProduced < out.size →
        (laws.wire f).content
            (produced ++ (out.overwrite (c.flush out).written).take
              r.bytesProduced) =
          consumed) ∧
    (∀ c produced, Sends B f lvl x c x produced →
      ∀ out : Span, out.size < 2 ^ 32 →
      (laws.encoder c).rest.length ≤ out.size →
        ∃ reply r, c.finish out = some reply ∧ reply.result = .ok r ∧
          (laws.wire f).Complete
            (produced ++ (out.overwrite reply.written).take r.bytesProduced) ∧
          Yields B f (produced ++
            (out.overwrite reply.written).take r.bytesProduced) x) := by
  have exact : CountsExact B f := .inr wide
  constructor
  · intro c consumed produced sends out r narrow ok roomLeft
    exact laws.sends_flush exact serves accepted sends narrow ok roomLeft
  · intro c produced sends out narrow roomy
    obtain ⟨reply, r, returned, result, complete, content⟩ :=
      laws.sends_finish exact serves accepted sends narrow roomy
    have back := laws.yields exact serves complete
    rw [content] at back
    exact ⟨reply, r, returned, result, complete, back⟩

theorem sends_pushedFive :
    Sends unixBuild .gzip ⟨0⟩ [1, 2, 3, 4, 5] pushedFive.handle [1, 2, 3, 4, 5]
      ((unixLaws.packed .gzip ⟨0⟩ fiveBytes).take 10) := by
  have returned : pushedFive.result =
      .ok { bytesConsumed := 5, bytesProduced := 10, done := false } := by
    decide
  exact .push fiveBytes (.zeros 32 (by decide)) .start List.prefix_rfl
    (by decide) (by decide) returned

theorem stream_round_trip_gzip :
    ∃ reply r, pushedFive.handle.finish (.zeros 18 (by decide)) = some reply ∧
      reply.result = .ok r ∧
      (unixLaws.wire .gzip).Complete
        ((unixLaws.packed .gzip ⟨0⟩ fiveBytes).take 10 ++
          ((Span.zeros 18 (by decide)).overwrite reply.written).take
            r.bytesProduced) ∧
      Yields unixBuild .gzip
        ((unixLaws.packed .gzip ⟨0⟩ fiveBytes).take 10 ++
          ((Span.zeros 18 (by decide)).overwrite reply.written).take
            r.bytesProduced)
        [1, 2, 3, 4, 5] :=
  (stream_round_trip unixLaws rfl (by decide) (by decide) [1, 2, 3, 4, 5]).2 _ _
    sends_pushedFive (.zeros 18 (by decide)) (by decide) (by decide)

end Polliwog
