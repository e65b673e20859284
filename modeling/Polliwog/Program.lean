import Polliwog.Objects
import Polliwog.Streaming.Reuse
import Polliwog.Width

/-!
# What a program delivers

A program holds any number of objects, moves them about and calls them in any
order.  Where one of its decompressors is given what one of its compressors
produced, however the bytes got there, it delivers what the compressor
consumed.
-/

namespace Polliwog

open Codec

variable {B : Build}

namespace Compressor

/-- What a call reported to have consumed. -/
def Request.consumed (request : Request)
    (reply : Reply (Compressor B) StreamResult) :
    List UInt8 :=
  match reply.result with
  | .ok r => request.input.bytes.take r.bytesConsumed
  | .error _ => []

/-- What the caller finds where a call reported to have produced. -/
def Request.produced (request : Request)
    (reply : Reply (Compressor B) StreamResult) :
    List UInt8 :=
  match reply.result with
  | .ok r => (request.out.overwrite reply.written).take r.bytesProduced
  | .error _ => []

def consumed (trace : Trace B) : List UInt8 :=
  trace.flatMap fun entry => entry.1.consumed entry.2

def produced (trace : Trace B) : List UInt8 :=
  trace.flatMap fun entry => entry.1.produced entry.2

@[simp] theorem consumed_concat (trace : Trace B)
    (entry : Request × Reply (Compressor B) StreamResult) :
    consumed (trace ++ [entry]) =
      consumed trace ++ entry.1.consumed entry.2 := by
  simp [consumed]

@[simp] theorem produced_concat (trace : Trace B)
    (entry : Request × Reply (Compressor B) StreamResult) :
    produced (trace ++ [entry]) =
      produced trace ++ entry.1.produced entry.2 := by
  simp [produced]

/-- A caller that has begun to finish only finishes. -/
def FinishesLast (trace : Trace B) : Prop :=
  trace.Pairwise fun earlier later => earlier.1.closes = true →
  later.1.closes = true

theorem finishesLast_concat {trace : Trace B}
    {entry : Request × Reply (Compressor B) StreamResult}
    (order : FinishesLast (trace ++ [entry])) :
    FinishesLast trace ∧
      ((∃ earlier ∈ trace, earlier.1.closes = true) →
        entry.1.closes = true) := by
  obtain ⟨before, -, after⟩ := List.pairwise_append.mp order
  refine ⟨before, ?_⟩
  intro closing
  obtain ⟨earlier, listed, closes⟩ := closing
  exact after earlier listed entry List.mem_cons_self closes

end Compressor

open Compressor

namespace EngineLaws

variable (laws : EngineLaws B) {f : Format}

/-- The stream is open, and holds what the caller was told of. -/
structure Underway (f : Format) (trace : Compressor.Trace B)
    (c : Compressor B) :
    Prop where
  compresses : laws.Compresses f c
  opened : ¬ (laws.encoder c).Ended
  source : (laws.encoder c).source = consumed trace
  output : (laws.encoder c).output = produced trace
  writing : (∀ entry ∈ trace, entry.1.closes = false) → laws.Writing c

/-- The stream has ended; what the caller was told of begins with it. -/
structure Closed (f : Format) (trace : Compressor.Trace B) (c : Compressor B) :
    Prop where
  whole : ∃ s, (laws.wire f).Complete s ∧
    (laws.wire f).content s = consumed trace ∧ s <+: produced trace
  closing : f = .zstd → ∃ entry ∈ trace, entry.1.closes = true
  ended : f ≠ .zstd → laws.Compresses f c ∧ (laws.encoder c).Ended

variable {laws} {trace : Compressor.Trace B} {c c' : Compressor B}
  {request : Request} {reply : Reply (Compressor B) StreamResult}

theorem Underway.conveys (underway : laws.Underway f trace c) :
    (laws.wire f).Conveys (consumed trace) (produced trace) := by
  rw [← underway.source, ← underway.output]
  exact Wire.conveys_of_sound underway.compresses.sound

theorem Closed.conveys (closed : laws.Closed f trace c) :
    (laws.wire f).Conveys (consumed trace) (produced trace) := by
  obtain ⟨s, complete, content, front⟩ := closed.whole
  exact ⟨s, complete, content, .inr front⟩

theorem Underway.step (underway : laws.Underway f trace c)
    (exact : CountsExact B f)
    (order : f = .zstd → FinishesLast (trace ++ [(request, reply)]))
    (step : c.Step request reply c') :
    laws.Underway f (trace ++ [(request, reply)]) c' ∨
      laws.Closed f (trace ++ [(request, reply)]) c' := by
  obtain ⟨returned, rfl⟩ := step
  have writing : request.closes = false → laws.Writing c := by
    intro goesOn
    by_cases isZstd : f = .zstd
    · apply underway.writing
      intro entry listed
      refine Bool.eq_false_of_not_eq_true fun closes => ?_
      have later :=
        (finishesLast_concat (order isZstd)).2 ⟨entry, listed, closes⟩
      rw [goesOn] at later
      cases later
    · exact laws.writing_of_opened underway.compresses isZstd underway.opened
  obtain ⟨kept, still, served⟩ :=
    EncodingLaws.call_books exact underway.compresses underway.opened writing
      returned
  have writes (noneCloses : ∀ entry ∈ trace ++ [(request, reply)],
      entry.1.closes = false) : laws.Writing reply.handle :=
    still (noneCloses (request,
      reply) (List.mem_append_right _ List.mem_cons_self))
  rcases served with idle | ⟨r, books⟩
  · obtain ⟨e, failed⟩ := idle.failed
    have nothing : request.consumed reply = [] ∧
        request.produced reply = [] := by
      simp only [Request.consumed, Request.produced, failed, and_self]
    left
    refine ⟨kept, ?_, ?_, ?_, writes⟩
    · rw [idle.encoder]
      exact underway.opened
    · rw [idle.encoder, underway.source, consumed_concat, nothing.1,
        List.append_nil]
    · rw [idle.encoder, underway.output, produced_concat, nothing.2,
        List.append_nil]
  have source : (laws.encoder reply.handle).source =
      consumed (trace ++ [(request, reply)]) := by
    rw [books.source, underway.source, consumed_concat]
    simp only [Request.consumed, books.result]
  have output : (laws.encoder reply.handle).output =
      produced (trace ++ [(request, reply)]) := by
    rw [books.output, underway.output, produced_concat]
    simp only [Request.produced, books.result]
  by_cases ended : (laws.encoder reply.handle).Ended
  · right
    obtain ⟨complete, content⟩ := kept.sound.ended ended
    refine ⟨⟨_, complete, content.trans source, output ▸ List.prefix_rfl⟩, ?_,
      fun _ => ⟨kept, ended⟩⟩
    intro _
    refine ⟨(request, reply), List.mem_append_right _ List.mem_cons_self, ?_⟩
    by_contra goesOn
    exact (still (Bool.eq_false_of_not_eq_true goesOn)).1 ended
  · exact .inl ⟨kept, ended, source, output, writes⟩

/-- Nothing is consumed any more once the stream has ended. -/
theorem Closed.consumed_nothing (closed : laws.Closed f trace c)
    (order : f = .zstd → FinishesLast (trace ++ [(request, reply)]))
    (step : c.Step request reply c') : request.consumed reply = [] := by
  cases result : reply.result with
  | error e => simp only [Request.consumed, result]
  | ok r =>
      have nothing : request.input.bytes = [] := by
        cases request with
        | flush out => rfl
        | finish out => rfl
        | push input out =>
            exfalso
            by_cases isZstd : f = .zstd
            · have later :=
                (finishesLast_concat (order isZstd)).2 (closed.closing isZstd)
              cases later
            · obtain ⟨compresses, ended⟩ := closed.ended isZstd
              obtain ⟨e, refused⟩ :=
                laws.push_ended isZstd compresses ended input out
              obtain ⟨returned, -⟩ := step
              cases returned
              rw [refused] at result
              cases result
      simp only [Request.consumed, result, nothing, List.take_nil]

theorem Closed.step (closed : laws.Closed f trace c)
    (order : f = .zstd → FinishesLast (trace ++ [(request, reply)]))
    (step : c.Step request reply c') :
    laws.Closed f (trace ++ [(request, reply)]) c' := by
  obtain ⟨s, complete, content, front⟩ := closed.whole
  refine ⟨⟨s, complete, ?_, ?_⟩, ?_, ?_⟩
  · rw [consumed_concat, closed.consumed_nothing order step,
      List.append_nil, content]
  · rw [produced_concat]
    exact front.trans (List.prefix_append _ _)
  · intro isZstd
    obtain ⟨entry, listed, closes⟩ := closed.closing isZstd
    exact ⟨entry, List.mem_append_left _ listed, closes⟩
  · intro notZstd
    obtain ⟨compresses, ended⟩ := closed.ended notZstd
    exact (laws.step_ended notZstd compresses ended step).2

/-- Whatever calls are made of a compressor, what it produced conveys what it
consumed. -/
theorem conveys_of_run (exact : CountsExact B f) {lvl : ZlibLevel}
    (serves : B.Serves f) (accepted : Accepts f lvl)
    (run : Run Compressor.Step (.of B f lvl) trace c)
    (order : f = .zstd → FinishesLast trace) :
    (laws.wire f).Conveys (consumed trace) (produced trace) := by
  let Inv (past : Compressor.Trace B) (c : Compressor B) : Prop :=
    (f = .zstd → FinishesLast past) → laws.Underway f past c ∨
    laws.Closed f past c
  have start : Inv [] (.of B f lvl) := by
    intro _
    obtain ⟨compresses, source, output, writing⟩ :=
      laws.compresses_of lvl serves accepted
    exact .inl ⟨compresses, writing.1, source, output, fun _ => writing⟩
  have kept {past : Compressor.Trace B} {c c' : Compressor B}
      {request : Request}
      {reply : Reply (Compressor B) StreamResult} (holds : Inv past c)
      (step : c.Step request reply c') :
        Inv (past ++ [(request, reply)]) c' := by
    intro order
    rcases holds fun isZstd =>
      (finishesLast_concat (order isZstd)).1 with underway | closed
    · exact underway.step exact order step
    · exact .inr (closed.step order step)
  rcases run.history Inv kept start order with underway | closed
  · exact underway.conveys
  · exact closed.conveys

end EngineLaws

/-- What a push is to answer on what conveys a source, the push following on
what was consumed and produced before it. -/
structure Delivers (W : Wire UInt8) (f : Format)
    (source consumed produced : List UInt8) (request : Decompressor.Request)
    (reply : Reply (Decompressor B) StreamResult) : Prop where
  faithful : ∀ r, reply.result = .ok r →
    produced ++ request.produced reply <+: source
  done : ∀ r, reply.result = .ok r → r.done = true →
    W.Complete (consumed ++ request.consumed reply) ∧
    produced ++ request.produced reply = source
  refused : f ≠ .zstd → ∀ e, reply.result = .error e → request.out.isNull = true

theorem Truthful.delivers {W : Wire UInt8} {f : Format}
    {source sent consumed produced : List UInt8}
    {request : Decompressor.Request}
    {reply : Reply (Decompressor B) StreamResult}
    (truthful : Truthful W f consumed produced request reply)
    (conveys : W.Conveys source sent)
    (carried : consumed ++ request.input.bytes <+: sent) :
    Delivers W f source consumed produced request reply := by
  have reached : consumed ++ request.consumed reply <+: sent := by
    refine List.IsPrefix.trans ((List.prefix_append_right_inj _).mpr ?_) carried
    unfold Decompressor.Request.consumed
    split
    · exact List.take_prefix _ _
    · exact List.nil_prefix
  constructor
  · intro r ok
    exact (truthful.faithful r ok).trans (conveys.content_isPrefix reached)
  · intro r ok isDone
    obtain ⟨complete, all⟩ := (truthful.done r ok).mp isDone
    exact ⟨complete, all.trans (conveys.content_of_complete reached complete)⟩
  · intro notZstd e failed
    cases truthful.refused e failed with
    | damaged isPrefix corrupt =>
        exact absurd corrupt (conveys.not_corrupt (isPrefix.trans carried))
    | extra isZstd => exact absurd isZstd notZstd
    | nowhere _ null => exact null

/-- Whatever a program does with its objects, and however it carries the bytes:
a decompressor that has been given what a compressor of its format produced, and
has not been told of the end, delivers what that compressor consumed, all of it
once it says that it is done. -/
theorem program_delivers (laws : EngineLaws B) {f : Format} {lvl : ZlibLevel}
    (exact : CountsExact B f) (serves : B.Serves f)
    {trace : List (World.Op × World.Answer B)} {w : World B}
    (run : Run World.Step .blank trace w) {n m here there : Nat}
    (sender : (.compressor (.make here (f, lvl)), .compressor (.made n)) ∈
      trace)
    (receiver : (.decompressor (.make there f), .decompressor (.made m)) ∈
      trace)
    (order : f = .zstd → FinishesLast (World.compressorCalls n trace))
    {before after : Decompressor.Trace B} {request : Decompressor.Request}
    {reply : Reply (Decompressor B) StreamResult}
    (calls : World.decompressorCalls m trace =
      before ++ (request, reply) :: after)
    (goingOn : ∀ entry ∈ before, ∃ r, entry.2.result = .ok r ∧ r.done = false)
    (carried : Decompressor.consumed before ++ request.input.bytes <+:
      produced (World.compressorCalls n trace)) :
    Delivers (laws.wire f) f (consumed (World.compressorCalls n trace))
      (Decompressor.consumed before)
        (Decompressor.produced before) request reply := by
  obtain ⟨accepted, c, sending⟩ := World.compressor_session run sender
  have conveys :
      (laws.wire f).Conveys (consumed (World.compressorCalls n trace))
      (produced (World.compressorCalls n trace)) :=
    EngineLaws.conveys_of_run exact serves
      (fun member => accepted (ne_zstd_of_mem member)) sending order
  obtain ⟨d, receiving⟩ := World.decompressor_session run receiver
  rw [calls] at receiving
  obtain ⟨mid, earlier, later⟩ := receiving.split
  have tells := laws.tells_of_run exact serves (earlier.restrict _ goingOn)
  cases later with
  | cons step _ =>
      obtain ⟨rfl, -⟩ := step
      exact (tells.truthful exact request.input request.out).delivers
        conveys carried

/-- A compressor called, moved, and finished where it is then. -/
def finishedObject : List (Compressor.Op × Compressor.Answer unixBuild) :=
  let pushed :=
    (Compressor.of unixBuild .gzip ⟨0⟩).push fiveBytes (.zeros 50 (by decide))
  [(.make 0 (.gzip, ⟨0⟩), .made 0),
    (.use 0 (.push fiveBytes (.zeros 50 (by decide))), .replied 0 pushed),
    (.moveConstruct 1 0, .moved),
    (.use 1 (.finish (.zeros 50 (by decide))),
      .replied 0 ((pushed.handle.finish (.zeros 50 (by decide))).get
        (by decide)))]

/-- What it produced. -/
def finishedFive : Span :=
  .ofBytes (produced (Pool.calls 0 finishedObject)) (by decide +kernel)

/-- What a decompressor answers that is given all of it. -/
def finishedRead : Reply (Decompressor unixBuild) StreamResult :=
  (Decompressor.construct unixBuild .gzip).push finishedFive fiveSink

/-- Both objects in one program. -/
def carriedFive : List (World.Op × World.Answer unixBuild) :=
  finishedObject.map World.compressing ++
    [(.decompressor (.make 0 .gzip), .decompressor (.made 0))] ++
    [(.decompressor (.use 0 ⟨finishedFive, fiveSink⟩),
      .decompressor (.replied 0 finishedRead))]

theorem run_carriedFive : ∃ w, Run World.Step .blank carriedFive w := by
  have pooled : ∃ pool,
      Run (Pool.Step (compressorImpl unixBuild)) .blank finishedObject pool :=
    ⟨_, .cons (.make rfl rfl)
      (.cons (.use rfl rfl ⟨rfl, rfl⟩) (.cons (.moveConstruct rfl rfl)
      (.one (.use rfl rfl ⟨by rfl, rfl⟩))))⟩
  obtain ⟨pool, sending⟩ := pooled
  obtain ⟨w, worldly, -, others, sound⟩ := World.sound_blank.follow sending
  have made : Pool.Step (decompressorImpl unixBuild) w.decompressors
      (.make 0 .gzip) (.made 0)
      (Pool.make .blank 0 (.construct unixBuild .gzip)) := by
    rw [others]
    exact .make rfl rfl
  obtain ⟨store, does, sound'⟩ := sound.decompressor made
  have used : Pool.Step (decompressorImpl unixBuild)
      (Pool.make .blank 0 (.construct unixBuild .gzip))
        (.use 0 ⟨finishedFive, fiveSink⟩)
      (.replied 0 finishedRead) _ :=
    .use rfl rfl ⟨rfl, rfl⟩
  obtain ⟨store', does', -⟩ := sound'.decompressor used
  exact ⟨_, (worldly.concat (.decompressor made does)).concat
    (.decompressor used does')⟩

theorem program_delivers_moved :
    Delivers (unixLaws.wire .gzip) .gzip fiveBytes.bytes [] []
      ⟨finishedFive, fiveSink⟩ finishedRead := by
  obtain ⟨w, run⟩ := run_carriedFive
  have sender : (.compressor (.make 0 (.gzip, ⟨0⟩)), .compressor (.made 0)) ∈
      carriedFive :=
    List.mem_cons_self
  have receiver : (.decompressor (.make 0 .gzip), .decompressor (.made 0)) ∈
      carriedFive :=
    List.mem_append_left _ (List.mem_append_right _ List.mem_cons_self)
  have calls : World.decompressorCalls 0 carriedFive =
      [] ++ (⟨finishedFive, fiveSink⟩, finishedRead) :: [] :=
    rfl
  have carried : Decompressor.consumed ([] : Decompressor.Trace unixBuild) ++
      finishedFive.bytes <+: produced (World.compressorCalls 0 carriedFive) :=
    List.prefix_rfl
  have source : consumed (World.compressorCalls 0 carriedFive) =
      fiveBytes.bytes := by
    decide +kernel
  have delivers :=
    program_delivers unixLaws (.inr rfl) (by decide) run sender receiver
    (fun isZstd => by cases isZstd) calls
      (fun _ listed => absurd listed List.not_mem_nil) carried
  rwa [source] at delivers

end Polliwog
