import Polliwog.Codec.Pipe
import Polliwog.Streaming.Progress

/-!
# Whether a decompressor says the truth

The bytes that a caller is told were consumed and produced, put together over a
run of pushes, against the wire format.  Nothing is assumed of the bytes.
-/

namespace Polliwog

open Codec

variable {B : Build}

namespace Decompressor

/-- What a push reported to have consumed. -/
def Request.consumed (request : Request)
    (reply : Reply (Decompressor B) StreamResult) :
    List UInt8 :=
  match reply.result with
  | .ok r => request.input.bytes.take r.bytesConsumed
  | .error _ => []

/-- What the caller finds where a push reported to have produced. -/
def Request.produced (request : Request)
    (reply : Reply (Decompressor B) StreamResult) :
    List UInt8 :=
  match reply.result with
  | .ok r => (request.out.overwrite reply.written).take r.bytesProduced
  | .error _ => []

def consumed (trace : Trace B) : List UInt8 :=
  trace.flatMap fun entry => entry.1.consumed entry.2

def produced (trace : Trace B) : List UInt8 :=
  trace.flatMap fun entry => entry.1.produced entry.2

@[simp] theorem consumed_concat (trace : Trace B)
    (entry : Request × Reply (Decompressor B) StreamResult) :
    consumed (trace ++ [entry]) =
      consumed trace ++ entry.1.consumed entry.2 := by
  simp [consumed]

@[simp] theorem produced_concat (trace : Trace B)
    (entry : Request × Reply (Decompressor B) StreamResult) :
    produced (trace ++ [entry]) =
      produced trace ++ entry.1.produced entry.2 := by
  simp [produced]

end Decompressor

open Decompressor

namespace EngineLaws

variable (laws : EngineLaws B) {f : Format}

/-- The decoder has read and delivered what the caller was told of. -/
structure Tells (f : Format) (trace : Decompressor.Trace B)
    (d : Decompressor B) :
    Prop where
  holds : laws.Decompresses f d
  opened : laws.status d = .opened
  decoder : laws.decoder d =
    ⟨Decompressor.consumed trace, Decompressor.produced trace⟩
  isOpen : (laws.decoder d).Open (laws.wire f)

variable {laws} {trace : Decompressor.Trace B} {d : Decompressor B}
  {input out : Span}

/-- A push with nowhere to write is refused. -/
theorem push_null (holds : laws.Decompresses f d) (input : Span) {out : Span}
    (nowhere : ¬ (f = .zstd ∨ out.isNull = false)) :
    ∃ h, d = ⟨.zlibSweller h⟩ ∧ f ∈ ZlibBackend.formats ∧ out.isNull = true ∧
      ∃ e, (d.push input out).result = .error e := by
  obtain ⟨handle⟩ := d
  cases handle with
  | zlibStubSweller => exact holds.elim
  | zstdStubSweller => exact holds.elim
  | zstdSweller h => exact absurd (.inl holds) nowhere
  | zlibSweller h =>
      obtain ⟨member, -⟩ := holds
      have null : out.isNull = true :=
        Bool.eq_true_of_not_eq_false fun memory => nowhere (.inr memory)
      have ret :=
        laws.inflate.null_refused (h.stream.load input out) .noFlush null
      have verdict := laws.inflate.push_verdict member h input out
      obtain ⟨e, failed, -⟩ := verdict.spoiled (by rw [ret]; rfl)
      exact ⟨h, rfl, member, null, e, failed⟩

theorem push_null_idle (idle : InflateIdleLaws laws.inflate)
    (holds : laws.Decompresses f d) (input : Span) {out : Span}
    (nowhere : ¬ (f = .zstd ∨ out.isNull = false)) :
    laws.Decompresses f (d.push input out).handle ∧
      laws.status (d.push input out).handle = laws.status d ∧
      laws.decoder (d.push input out).handle = laws.decoder d := by
  obtain ⟨h, rfl, member, null, -⟩ := push_null holds input nowhere
  let loaded := h.stream.load input out
  obtain ⟨-, view, status⟩ := idle.null_idle loaded .noFlush null
  have kept := laws.inflate.container_kept loaded .noFlush
  exact ⟨⟨member, kept.trans holds.2⟩, status, view⟩

theorem Reads.reported {reply : Reply (Decompressor B) StreamResult}
    {taken : Nat} {signal : Signal} {r : StreamResult}
    (reads : laws.Reads f d input out reply taken signal)
    (exact : CountsExact B f) (ok : reply.result = .ok r) :
    Request.consumed ⟨input, out⟩ reply = (input.shown f).take taken ∧
      Request.produced ⟨input, out⟩ reply = reply.written := by
  obtain ⟨-, -, counts⟩ := reads.verdict.of_ok ok
  obtain ⟨inCount, outCount⟩ := counts exact
  constructor
  · simp only [Request.consumed, ok, inCount]
    exact (Carries.take_front
      (input.shown_isPrefix f) reads.decoder.taken_le).symm
  · simp only [Request.produced, ok, outCount]
    exact out.take_overwrite reply.written

/-- A push that fails met damage, or input after the end of a zstd frame. -/
theorem Reads.of_error {reply : Reply (Decompressor B) StreamResult}
    {taken : Nat} {signal : Signal} {e : Error}
    (reads : laws.Reads f d input out reply taken signal)
    (failed : reply.result = .error e) :
    e.kind = .streamCorrupt ∧
      (signal = .bad ∨ (signal = .done ∧ f = .zstd ∧ taken < input.size)) := by
  have notServed (served : ∃ r, reply.result = .ok r) : False := by
    obtain ⟨r, ok⟩ := served
    rw [failed] at ok
    cases ok
  have isCorrupt (fails : FailsWith .streamCorrupt reply.result) :
      e.kind = .streamCorrupt := by
    rwa [failed, FailsWith.error_iff] at fails
  cases signal with
  | bad => exact ⟨isCorrupt (reads.verdict.spoiled rfl), .inl rfl⟩
  | more =>
      obtain ⟨r, ok, -⟩ := reads.verdict.served (by decide) (by simp)
      exact (notServed ⟨r, ok⟩).elim
  | done =>
      by_cases extra : f = .zstd ∧ taken < input.size
      · exact ⟨isCorrupt (reads.verdict.extra rfl extra.1 extra.2),
          .inr ⟨rfl, extra⟩⟩
      · obtain ⟨r, ok, -⟩ :=
          reads.verdict.served (by decide) (by simpa using extra)
        exact (notServed ⟨r, ok⟩).elim

theorem Tells.goesOn {request : Request}
    {reply : Reply (Decompressor B) StreamResult} {d' : Decompressor B}
    (tells : laws.Tells f trace d) (exact : CountsExact B f)
    (goesOn : GoesOn d request reply d') :
    laws.Tells f (trace ++ [(request, reply)]) d' := by
  obtain ⟨⟨rfl, rfl⟩, r, ok, short⟩ := goesOn
  obtain ⟨⟨taken, reads⟩, -⟩ :=
    laws.push_goesOn ⟨tells.holds, tells.opened⟩ ok short
  obtain ⟨consumed, produced⟩ := reads.reported exact ok
  have advanced := reads.advances (by decide)
  refine ⟨reads.holds, reads.status (by decide), ?_, ?_⟩
  · rw [advanced, tells.decoder, consumed_concat, produced_concat,
      consumed, produced]
    rfl
  · rw [advanced]
    exact reads.decoder.more rfl

variable (laws)

theorem tells_construct (serves : B.Serves f) :
    laws.Tells f [] (.construct B f) := by
  obtain ⟨holds, fresh, opened⟩ := laws.decompresses_construct serves
  refine ⟨holds, opened, fresh, ?_⟩
  rw [fresh]
  exact Dec.open_fresh _

theorem tells_of_run (exact : CountsExact B f) (serves : B.Serves f)
    (run : Run GoesOn (.construct B f) trace d) : laws.Tells f trace d :=
  run.history (laws.Tells f) (fun tells goesOn => tells.goesOn exact goesOn)
    (laws.tells_construct serves)

end EngineLaws

/-- What a refused push may be put down to: the stream is damaged; or it is
zstd's, and whole before the end of what was pushed; or zlib was given nowhere
to write. -/
inductive Refusal (W : Wire UInt8) (f : Format) (pushed : List UInt8)
    (out : Span) : Prop where
  | damaged {p : List UInt8} : p <+: pushed → W.Corrupt p →
    Refusal W f pushed out
  | extra {p : List UInt8} : f = .zstd → p <+: pushed → p ≠ pushed →
    W.Complete p →
      Refusal W f pushed out
  | nowhere : f ≠ .zstd → out.isNull = true → Refusal W f pushed out

/-- What a push is to answer that follows on what was consumed and produced. -/
structure Truthful (W : Wire UInt8) (f : Format)
    (consumed produced : List UInt8) (request : Request)
    (reply : Reply (Decompressor B) StreamResult) : Prop where
  faithful : ∀ r, reply.result = .ok r →
    produced ++ request.produced reply <+:
      W.content (consumed ++ request.consumed reply)
  done : ∀ r, reply.result = .ok r →
    (r.done = true ↔ W.Complete (consumed ++ request.consumed reply) ∧
      produced ++ request.produced reply =
        W.content (consumed ++ request.consumed reply))
  refused : ∀ e, reply.result = .error e →
    Refusal W f (consumed ++ request.input.bytes) request.out

theorem Truthful.of_ok {W : Wire UInt8} {f : Format}
    {consumed produced : List UInt8} {request : Request}
    {reply : Reply (Decompressor B) StreamResult} {r : StreamResult}
    (ok : reply.result = .ok r)
    (faithful : produced ++ request.produced reply <+:
      W.content (consumed ++ request.consumed reply))
    (done : r.done = true ↔ W.Complete (consumed ++ request.consumed reply) ∧
      produced ++ request.produced reply =
        W.content (consumed ++ request.consumed reply)) :
    Truthful W f consumed produced request reply := by
  constructor
  · exact fun _ _ => faithful
  · intro r' ok'
    rw [ok, Except.ok.injEq] at ok'
    exact ok' ▸ done
  · intro e failed
    rw [ok] at failed
    cases failed

theorem Truthful.of_error {W : Wire UInt8} {f : Format}
    {consumed produced : List UInt8} {request : Request}
    {reply : Reply (Decompressor B) StreamResult} {e : Error}
    (failed : reply.result = .error e)
    (refusal : Refusal W f (consumed ++ request.input.bytes) request.out) :
    Truthful W f consumed produced request reply := by
  constructor
  · intro r ok
    rw [failed] at ok
    cases ok
  · intro r ok
    rw [failed] at ok
    cases ok
  · exact fun _ _ => refusal

theorem EngineLaws.Tells.truthful {laws : EngineLaws B} {f : Format}
    {trace : Decompressor.Trace B} {d : Decompressor B}
    (tells : laws.Tells f trace d) (exact : CountsExact B f)
    (input out : Span) :
    Truthful (laws.wire f) f (Decompressor.consumed trace)
      (Decompressor.produced trace) ⟨input, out⟩ (d.push input out) := by
  by_cases memory : f = .zstd ∨ out.isNull = false
  case neg =>
    obtain ⟨notZstd, notMemory⟩ := not_or.mp memory
    obtain ⟨-, -, -, -, e, failed⟩ :=
      EngineLaws.push_null tells.holds input memory
    exact .of_error failed <|
      .nowhere notZstd (Bool.eq_true_of_not_eq_false notMemory)
  obtain ⟨taken, signal, reads⟩ :=
    laws.push_reads tells.holds tells.opened input memory
  have decoder := reads.decoder
  rw [tells.decoder] at decoder
  have shown : Decompressor.consumed trace ++ input.shown f <+:
      Decompressor.consumed trace ++ input.bytes :=
    (List.prefix_append_right_inj _).mpr (input.shown_isPrefix f)
  cases result : (d.push input out).result with
  | error e =>
      refine .of_error result ?_
      obtain ⟨-, isBad | ⟨isDone, rfl, less⟩⟩ := reads.of_error result
      · obtain ⟨p, isPrefix, corrupt⟩ := decoder.bad isBad
        exact .damaged (isPrefix.trans shown) corrupt
      · obtain ⟨complete, -⟩ := decoder.done isDone
        refine .extra rfl
          ((Dec.Reads.read_take_isPrefix _ _ _).trans shown) ?_ complete
        intro all
        have long := congrArg List.length all
        simp only [List.length_append, List.length_take,
          Span.shown_zstd] at long
        simp only [Span.size] at less
        omega
  | ok r =>
      obtain ⟨consumed, produced⟩ := reads.reported exact result
      obtain ⟨notBad, done, -⟩ := reads.verdict.of_ok result
      apply Truthful.of_ok result
      · rw [consumed, produced]
        exact decoder.delivered_isPrefix notBad
      rw [done, consumed, produced]
      constructor
      · intro isDone
        exact decoder.done isDone
      · intro whole
        obtain ⟨complete, all⟩ := whole
        cases signal with
        | bad => exact absurd rfl notBad
        | done => rfl
        | more =>
            exfalso
            rcases (decoder.more rfl).unsettled with
              live | ⟨-, pending⟩ | damaged
            · exact live.not_complete List.prefix_rfl complete
            · exact pending all
            · exact complete.not_damaged (.inl List.prefix_rfl) damaged

/-- Whatever bytes were pushed on zlib, in whatever pieces: what has been
produced is a prefix of the content of what has been consumed; a push is done
exactly when that is a whole stream with all of its content produced; and a push
is refused only for damage or a null output. -/
theorem push_truthful (laws : EngineLaws B) {f : Format}
    (member : f ∈ ZlibBackend.formats) (has : B.hasZlib = true)
    (wide : B.zlib.ulongBits = 64) {trace : Decompressor.Trace B}
    {d : Decompressor B} (run : Run GoesOn (.construct B f) trace d)
    (input out : Span) :
    Truthful (laws.wire f) f (Decompressor.consumed trace)
      (Decompressor.produced trace) ⟨input, out⟩ (d.push input out) :=
  (laws.tells_of_run (.inr wide) (.inl ⟨has, member⟩) run).truthful
    (.inr wide) input out

/-- The first bytes of a gzip stream, and the others with one more. -/
def fiveHead : Span :=
  .ofBytes ((unixLaws.packed .gzip ⟨0⟩ fiveBytes).take 20) (by decide)

def fiveTail : Span :=
  .ofBytes ((unixLaws.packed .gzip ⟨0⟩ fiveBytes).drop 20 ++ [7]) (by decide)

/-- Room for five bytes. -/
def fiveSink : Span := .ofBytes [0, 0, 0, 0, 0] (by decide)

/-- The push of the first bytes. -/
def readHead : Reply (Decompressor unixBuild) StreamResult :=
  (Decompressor.construct unixBuild .gzip).push fiveHead fiveSink

theorem push_truthful_five :
    Truthful (unixLaws.wire .gzip) .gzip
      (Decompressor.consumed [(⟨fiveHead, fiveSink⟩, readHead)])
      (Decompressor.produced [(⟨fiveHead, fiveSink⟩, readHead)])
        ⟨fiveTail, fiveSink⟩
      (readHead.handle.push fiveTail fiveSink) := by
  have served : readHead.result =
      .ok { bytesConsumed := 20, bytesProduced := 5, done := false } := by
    decide
  have run : Run GoesOn (.construct unixBuild .gzip)
      [(⟨fiveHead, fiveSink⟩, readHead)] readHead.handle :=
    .one ⟨⟨rfl, rfl⟩, _, served, rfl⟩
  exact push_truthful unixLaws (by decide) rfl rfl run fiveTail fiveSink

end Polliwog
