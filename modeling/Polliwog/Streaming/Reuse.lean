import Polliwog.Agreement
import Polliwog.Streaming.Lifetime

/-!
# A caller that finishes until there is room to spare

Finish says that it is done whether or not it is, but a finish that leaves room
has emitted the last byte.  A caller that goes by the room may use the object
again: zlib refuses it, zstd opens another frame, and either way one swell
brings back everything that was consumed. -/

namespace Polliwog

open Codec

variable {B : Build}

/-- A compressor and what it reported of. -/
structure Writer (B : Build) where
  c : Compressor B
  consumed : List UInt8
  produced : List UInt8
  /-- A finish has been called, and none has left room since. -/
  closing : Bool

namespace Writer

def start (B : Build) (f : Format) (lvl : ZlibLevel) : Writer B :=
  ⟨.of B f lvl, [], [], false⟩

def answered (f : Format) (w : Writer B) (request : Compressor.Request)
    (reply : Reply (Compressor B) StreamResult) : Writer B :=
  match reply.result with
  | .error _ =>
      { w with c := reply.handle, closing := w.closing || request.closes }
  | .ok r =>
      { c := reply.handle
        consumed := w.consumed ++ request.input.bytes.take r.bytesConsumed
        produced :=
          w.produced ++ (request.out.overwrite reply.written).take
            r.bytesProduced
        closing :=
          if request.closes
            then decide (reach f request.out.size ≤ r.bytesProduced)
          else w.closing }

/-- A call: once it has begun to finish the caller only finishes, until there is
room to spare. -/
inductive Step (f : Format) :
    Writer B → Compressor.Request → Except Error StreamResult →
    Writer B → Prop where
  | call {w : Writer B} {request : Compressor.Request}
      {reply : Reply (Compressor B) StreamResult} :
      (w.closing = true → request.closes = true) →
      w.c.call request = some reply →
      Step f w request reply.result (w.answered f request reply)

/-- The last call was a finish that left room. -/
def Spares (f : Format) (request : Compressor.Request)
    (answer : Except Error StreamResult) : Prop :=
  request.closes = true ∧ ∃ r, answer = .ok r ∧
  r.bytesProduced < reach f request.out.size

theorem Step.of_call {f : Format} {w w' : Writer B}
    {request : Compressor.Request} {answer : Except Error StreamResult}
    (step : Step f w request answer w') :
    (w.closing = true → request.closes = true) ∧
      ∃ reply, w.c.call request = some reply ∧ reply.result = answer ∧
        w' = w.answered f request reply := by
  cases step with
  | call order returned => exact ⟨order, _, returned, rfl, rfl⟩

theorem answered_of_error {f : Format} {w : Writer B}
    {request : Compressor.Request} {reply : Reply (Compressor B) StreamResult}
    {e : Error} (failed : reply.result = .error e) :
    w.answered f request reply =
      { w with c := reply.handle, closing := w.closing || request.closes } := by
  simp only [answered, failed]

end Writer

namespace SwellingLaws

variable (laws : SwellingLaws B) (Skipped : List UInt8 → Prop) {f : Format}

/-- A stream is open, behind whole ones.  Only zstd ever has any behind it. -/
structure Midway (f : Format) (w : Writer B) : Prop where
  compresses : laws.Compresses f w.c
  opened : ¬ (laws.encoder w.c).Ended
  writing : w.closing = false → laws.Writing w.c
  framed : ∃ past content, (laws.wire f).Series Skipped past content ∧
    (f ≠ .zstd → past = [] ∧ content = []) ∧
    w.produced = past ++ (laws.encoder w.c).output ∧
    w.consumed = content ++ (laws.encoder w.c).source

/-- What was produced is whole. -/
structure Settled (f : Format) (w : Writer B) : Prop where
  compresses : laws.Compresses f w.c
  ended : (laws.encoder w.c).Ended
  series : (laws.wire f).Series Skipped w.produced w.consumed
  single : f ≠ .zstd →
    (laws.wire f).Complete w.produced ∧
    (laws.wire f).content w.produced = w.consumed

theorem push_ended (notZstd : f ≠ .zstd) {c : Compressor B}
    (holds : laws.Compresses f c) (ended : (laws.encoder c).Ended)
    (input out : Span) :
    ∃ e, (c.push input out).result = .error e := by
  obtain ⟨handle⟩ := c
  cases handle with
  | zlibStubSqueezer => exact holds.elim
  | zstdStubSqueezer => exact holds.elim
  | zstdSqueezer h => exact absurd holds notZstd
  | zlibSqueezer h =>
      have refused :=
        laws.deflate.ended_refused (h.stream.load input out) .noFlush
          (by decide) ended
      exact ⟨_, Reply.map_error
        (Reply.map_error (h.pushMore_refused input out refused))⟩

variable {laws Skipped} {w w' : Writer B} {request : Compressor.Request}
  {answer : Except Error StreamResult}

/-- A call on an open stream leaves it open, or whole. -/
theorem Midway.step (midway : laws.Midway Skipped f w) (exact : CountsExact B f)
    (step : Writer.Step f w request answer w') :
    (laws.Midway Skipped f w' ∨ laws.Settled Skipped f w') ∧
      (Writer.Spares f request answer → laws.Settled Skipped f w') := by
  obtain ⟨order, reply, returned, rfl, rfl⟩ := step.of_call
  have writing : request.closes = false → laws.Writing w.c := by
    intro goesOn
    apply midway.writing
    cases closing : w.closing with
    | false => rfl
    | true =>
        rw [order closing] at goesOn
        cases goesOn
  obtain ⟨kept, still, idle | ⟨r, books⟩⟩ :=
    EncodingLaws.call_books exact midway.compresses midway.opened writing
      returned
  · obtain ⟨e, failed⟩ := idle.failed
    rw [Writer.answered_of_error failed]
    constructor
    · left
      refine ⟨kept, ?_, ?_, ?_⟩
      · rw [idle.encoder]
        exact midway.opened
      · exact fun goesOn => still (Bool.or_eq_false_iff.mp goesOn).2
      · rw [idle.encoder]
        exact midway.framed
    · intro spares
      obtain ⟨-, r, ok, -⟩ := spares
      rw [failed] at ok
      cases ok
  obtain ⟨past, content, series, alone, produced, consumed⟩ := midway.framed
  have slack : request.closes = true →
      r.bytesProduced < reach f request.out.size →
      (laws.encoder reply.handle).Ended := by
    intro closes roomLeft
    cases request with
    | push input out => cases closes
    | flush out => cases closes
    | finish out =>
        exact EncodingLaws.finish_slack exact midway.compresses midway.opened
          returned
          books.result roomLeft
  have after : w.answered f request reply =
      { c := reply.handle
        consumed := content ++ (laws.encoder reply.handle).source
        produced := past ++ (laws.encoder reply.handle).output
        closing :=
          if request.closes
            then decide (reach f request.out.size ≤ r.bytesProduced)
          else w.closing } := by
    simp only [Writer.answered, books.result, produced, consumed, books.source,
      books.output, List.append_assoc]
  rw [after]
  by_cases ended : (laws.encoder reply.handle).Ended
  · obtain ⟨complete, whole⟩ := kept.sound.ended ended
    have settled : laws.Settled Skipped f
        { c := reply.handle
          consumed := content ++ (laws.encoder reply.handle).source
          produced := past ++ (laws.encoder reply.handle).output
          closing :=
            if request.closes
              then decide (reach f request.out.size ≤ r.bytesProduced)
            else w.closing } := by
      refine ⟨kept, ended, ?_, ?_⟩
      · rw [← whole]
        exact series.concat complete
      · intro notZstd
        obtain ⟨rfl, rfl⟩ := alone notZstd
        exact ⟨complete, whole⟩
    exact ⟨.inr settled, fun _ => settled⟩
  · constructor
    · left
      refine ⟨kept, ended, ?_, past, content, series, alone, rfl, rfl⟩
      intro goesOn
      apply still
      cases closes : request.closes with
      | false => rfl
      | true =>
          exfalso
          simp only [closes, ↓reduceIte, decide_eq_false_iff_not,
            Nat.not_le] at goesOn
          exact ended (slack closes goesOn)
    · intro spares
      obtain ⟨closes, r', ok, roomLeft⟩ := spares
      have same : r = r' := Except.ok.inj (books.result.symm.trans ok)
      subst same
      exact absurd (slack closes roomLeft) ended

theorem Settled.step_zlib (settled : laws.Settled Skipped f w)
    (notZstd : f ≠ .zstd) (step : Writer.Step f w request answer w') :
    laws.Settled Skipped f w' := by
  obtain ⟨order, reply, returned, rfl, rfl⟩ := step.of_call
  obtain ⟨silent, kept, ended⟩ :=
    laws.step_ended notZstd settled.compresses settled.ended ⟨returned, rfl⟩
  cases result : reply.result with
  | error e =>
      rw [Writer.answered_of_error result]
      exact ⟨kept, ended, settled.series, settled.single⟩
  | ok r =>
      have nothing : request.input.bytes = [] := by
        cases request with
        | flush out => rfl
        | finish out => rfl
        | push input out =>
            obtain ⟨e, refused⟩ :=
              laws.push_ended notZstd settled.compresses settled.ended input out
            cases returned
            rw [refused] at result
            cases result
      simp only [Writer.answered, result, silent.reported r result, nothing,
        List.take_nil, List.take_zero, List.append_nil]
      exact ⟨kept, ended, settled.series, settled.single⟩

/-- A zstd context whose frame has ended answers as one about to open another.
-/
theorem call_reopened {h : ZstdSqueezer B.zstd}
    (ended : (laws.compress.view h.ctx).Ended) (request : Compressor.Request) :
    (⟨.zstdSqueezer h⟩ : Compressor B).call request =
      (⟨.zstdSqueezer { h with ctx := laws.compress.reopened h.ctx }⟩ :
        Compressor B).call request := by
  obtain ⟨-, same⟩ := laws.compress.reopens h.ctx ended
  cases request with
  | push input out =>
      simp only [Compressor.call, Compressor.push, SqueezerVariant.pushVisitor,
        ZstdSqueezer.pushMore, same]
  | flush out =>
      simp only [Compressor.call, Compressor.flush,
        SqueezerVariant.flushVisitor, ZstdSqueezer.flush, same]
  | finish out =>
      simp only [Compressor.call, Compressor.finish,
        SqueezerVariant.finishVisitor,
        ZstdSqueezer.finish, ZstdSqueezer.finishLoop, same]

theorem Settled.step_zstd {whole : ZstdSeriesLaws B.zstd (laws.wire .zstd)}
    (reuse : ZstdReuseLaws B.zstd (laws.wire .zstd) laws.compress whole)
    (settled : laws.Settled Skipped .zstd w)
    (step : Writer.Step .zstd w request answer w') :
    (laws.Midway Skipped .zstd w' ∨ laws.Settled Skipped .zstd w') ∧
      (Writer.Spares .zstd request answer → laws.Settled Skipped .zstd w') := by
  obtain ⟨order, reply, returned, rfl, rfl⟩ := step.of_call
  obtain ⟨⟨handle⟩, consumed, produced, closing⟩ := w
  cases handle with
  | zlibStubSqueezer => exact settled.compresses.elim
  | zstdStubSqueezer => exact settled.compresses.elim
  | zlibSqueezer h => exact absurd settled.compresses.1 (by decide)
  | zstdSqueezer h =>
      let h' : ZstdSqueezer B.zstd :=
        { h with ctx := laws.compress.reopened h.ctx }
      obtain ⟨⟨opened, unstarted⟩, -⟩ :=
        laws.compress.reopens h.ctx settled.ended
      obtain ⟨source, output⟩ := reuse.fresh h.ctx settled.ended
      have again : (⟨.zstdSqueezer h'⟩ : Compressor B).call request =
          some reply := by
        rw [← call_reopened settled.ended]
        exact returned
      have midway : laws.Midway Skipped .zstd ⟨⟨.zstdSqueezer h'⟩, consumed,
          produced, closing⟩ := by
        refine ⟨rfl, opened, fun _ => ⟨opened, unstarted⟩, produced, consumed,
          settled.series, fun notZstd => absurd rfl notZstd, ?_, ?_⟩
        · change produced = produced ++ (laws.compress.view h'.ctx).output
          rw [output, List.append_nil]
        · change consumed = consumed ++ (laws.compress.view h'.ctx).source
          rw [source, List.append_nil]
      exact midway.step (.inl rfl) (.call order again)

end SwellingLaws

namespace Writer

/-- The writer after a call, if that returns. -/
def called (f : Format) (w : Writer B) (request : Compressor.Request) :
    Writer B :=
  match w.c.call request with
  | some reply => w.answered f request reply
  | none => w

end Writer

end Polliwog
