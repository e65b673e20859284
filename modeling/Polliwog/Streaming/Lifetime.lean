import Polliwog.Streaming.Completion
import Polliwog.Streaming.Decompressing

/-!
# One object, one stream

No object remembers that its stream is over; what happens after the end is what
the engine does.  zlib stays at the end, zstd begins again.  The results are
about runs of any calls, those of zstd with nothing asked of the object after
the end that could be answered with a byte.
-/

namespace Polliwog

open Codec

variable {B : Build}

/-- Nothing was stored and nothing reported. -/
structure Silent {σ : Type} (reply : Reply σ StreamResult) : Prop where
  written : reply.written = []
  reported : ∀ r, reply.result = .ok r → r.bytesProduced = 0

/-- How far a caller has taken a compressor. -/
inductive Phase where
  | writing
  | finishing
  | ended
  deriving DecidableEq, Repr

namespace EncodingLaws

variable (laws : EncodingLaws B)

def phaseAfter (phase : Phase) (request : Compressor.Request)
    (reply : Reply (Compressor B) StreamResult) : Phase :=
  match phase with
  | .ended => .ended
  | .writing | .finishing =>
      if (laws.encoder reply.handle).Ended then .ended
      else match request with
        | .finish _ => .finishing
        | _ => phase

end EncodingLaws

/-- Of zstd, a stream that is being finished is only finished, and an ended one
is offered no room. -/
def Allows (f : Format) (phase : Phase) (request : Compressor.Request) : Prop :=
  f = .zstd →
    match phase with
    | .writing => True
    | .finishing => request.IsFinish
    | .ended => request.out.size = 0

namespace EncodingLaws

variable (laws : EncodingLaws B)

/-- Every call of a run is allowed where it is made. -/
def Orderly (f : Format) : Phase → Compressor.Trace B → Prop
  | _, [] => True
  | phase, (request, reply) :: later =>
      Allows f phase request ∧
        Orderly f (laws.phaseAfter phase request reply) later

/-- What one object should make: a prefix of one whole stream, with nothing
stored or reported after its last byte. -/
structure OneStream (f : Format) (trace : Compressor.Trace B) : Prop where
  isPrefix : ∃ s, (laws.wire f).Complete s ∧ written trace <+: s
  silent : ∀ before entry after, trace = before ++ entry :: after →
    (laws.encoder entry.2.handle).Ended → ∀ later ∈ after, Silent later.2

variable {f : Format}

theorem writing_of_opened {c : Compressor B} (holds : laws.Compresses f c)
    (notZstd : f ≠ .zstd) (opened : ¬ (laws.encoder c).Ended) :
    laws.Writing c := by
  obtain ⟨handle⟩ := c
  cases handle with
  | zlibSqueezer h => exact ⟨opened, trivial⟩
  | zstdSqueezer h => exact absurd holds notZstd
  | zlibStubSqueezer => exact holds.elim
  | zstdStubSqueezer => exact holds.elim

/-- What holds of a compressor in each phase, `past` having been stored. -/
def InPhase (f : Format) (phase : Phase) (past : List UInt8)
    (c : Compressor B) :
    Prop :=
  match phase with
  | .writing =>
      laws.Compresses f c ∧ laws.Writing c ∧ (laws.encoder c).output = past
  | .finishing =>
      laws.Compresses f c ∧ ¬ (laws.encoder c).Ended ∧
        (laws.encoder c).output = past
  | .ended => laws.Compresses f c ∧ (laws.wire f).Complete past ∧
      (f ≠ .zstd → (laws.encoder c).Ended)

theorem InPhase.isPrefix {laws : EncodingLaws B} {phase : Phase}
    {past : List UInt8} {c : Compressor B}
    (inPhase : laws.InPhase f phase past c) :
    ∃ s, (laws.wire f).Complete s ∧ past <+: s := by
  cases phase with
  | writing =>
      obtain ⟨holds, -, rfl⟩ := inPhase
      exact holds.sound.output_isPrefix
  | finishing =>
      obtain ⟨holds, -, rfl⟩ := inPhase
      exact holds.sound.output_isPrefix
  | ended => exact ⟨past, inPhase.2.1, List.prefix_rfl⟩

theorem step_opened {c c' : Compressor B} {request : Compressor.Request}
    {reply : Reply (Compressor B) StreamResult} (holds : laws.Compresses f c)
    (opened : ¬ (laws.encoder c).Ended)
    (writing : laws.Writing c ∨ request.IsFinish)
    (step : c.Step request reply c') :
    laws.Compresses f c' ∧
      (laws.encoder c').output = (laws.encoder c).output ++ reply.written ∧
      (request.IsFinish ∨ laws.Writing c') := by
  obtain ⟨returned, rfl⟩ := step
  cases request with
  | push input out =>
      cases returned
      obtain ⟨kept, still, idle | ⟨taken, absorbs⟩⟩ :=
        laws.push_spec holds (writing.resolve_right id) input out
      · exact ⟨kept,
          by rw [idle.encoder, idle.written, List.append_nil], .inr still⟩
      · exact ⟨kept, absorbs.encoder.output, .inr still⟩
  | flush out =>
      cases returned
      obtain ⟨kept, still, idle | syncs⟩ :=
        laws.flush_spec holds (writing.resolve_right id) out
      · exact ⟨kept,
          by rw [idle.encoder, idle.written, List.append_nil], .inr still⟩
      · exact ⟨kept, syncs.encoder.output, .inr still⟩
  | finish out =>
      obtain ⟨reply', returned', kept, finish⟩ :=
        laws.finish_spec holds opened out
      have same : reply' = reply :=
        Option.some.inj (returned'.symm.trans returned)
      subst same
      rcases finish with ⟨idle, -⟩ | finishes
      · exact ⟨kept,
          by rw [idle.encoder, idle.written, List.append_nil], .inl trivial⟩
      · exact ⟨kept, finishes.encoder.output, .inl trivial⟩

theorem step_ended (notZstd : f ≠ .zstd) {c c' : Compressor B}
    {request : Compressor.Request} {reply : Reply (Compressor B) StreamResult}
    (holds : laws.Compresses f c) (ended : (laws.encoder c).Ended)
    (step : c.Step request reply c') :
    Silent reply ∧ laws.Compresses f c' ∧ (laws.encoder c').Ended := by
  obtain ⟨handle⟩ := c
  cases handle with
  | zlibStubSqueezer => exact holds.elim
  | zstdStubSqueezer => exact holds.elim
  | zstdSqueezer h => exact absurd holds notZstd
  | zlibSqueezer h =>
      obtain ⟨member, container⟩ := holds
      obtain ⟨stored, rfl, reported⟩ := Compressor.step_zlib step
      let loaded := h.stream.load request.input request.out
      have idle : (B.zlib.deflate loaded request.mode).written = [] ∧
          laws.deflate.view (B.zlib.deflate loaded request.mode).stream.state =
            laws.deflate.view loaded.state := by
        by_cases isFinish : request.mode = .finish
        · rw [isFinish]
          exact laws.deflate.ended_idle loaded ended
        · have ret :=
            laws.deflate.ended_refused loaded request.mode isFinish ended
          exact (laws.deflate.refused_idle loaded request.mode ret).2
      obtain ⟨nothing, view⟩ := idle
      have kept := laws.deflate.container_kept loaded request.mode
      have outCount := (laws.deflate.counts loaded request.mode).2
      refine ⟨⟨stored.trans nothing, ?_⟩, ⟨member, kept.trans container⟩, ?_⟩
      · intro r ok
        rw [reported r ok, outCount, nothing]
        exact counted_zero _
      · change (laws.deflate.view
            (B.zlib.deflate loaded request.mode).stream.state).Ended
        rw [view]
        exact ended

theorem step_roomless {c c' : Compressor B} {request : Compressor.Request}
    {reply : Reply (Compressor B) StreamResult}
    (holds : laws.Compresses .zstd c) (noRoom : request.out.size = 0)
    (step : c.Step request reply c') :
    Silent reply ∧ laws.Compresses .zstd c' := by
  obtain ⟨returned, rfl⟩ := step
  obtain ⟨handle⟩ := c
  cases handle with
  | zlibStubSqueezer => exact holds.elim
  | zstdStubSqueezer => exact holds.elim
  | zlibSqueezer h => exact absurd holds.1 (by decide)
  | zstdSqueezer h =>
      cases request with
      | push input out =>
          cases returned
          have buffers :=
            laws.compress.within h.ctx { size := out.size, pos := 0 }
            { src := input.bytes, pos := 0 } .continue_
          have nothing := List.length_eq_zero_iff.mp
            (Nat.le_zero.mp (buffers.room_le.trans_eq noRoom))
          refine ⟨⟨nothing, ?_⟩, rfl⟩
          intro r ok
          simp only [Compressor.push, SqueezerVariant.pushVisitor, Reply.map,
            ZstdSqueezer.pushMore] at ok
          split at ok <;> cases ok
          rw [buffers.outPos, nothing]
          rfl
      | flush out =>
          cases returned
          have buffers :=
            laws.compress.within h.ctx { size := out.size, pos := 0 }
            { src := [], pos := 0 } .flush
          have nothing := List.length_eq_zero_iff.mp
            (Nat.le_zero.mp (buffers.room_le.trans_eq noRoom))
          refine ⟨⟨nothing, ?_⟩, rfl⟩
          intro r ok
          simp only [Compressor.flush, SqueezerVariant.flushVisitor, Reply.map,
            ZstdSqueezer.flush] at ok
          split at ok <;> cases ok
          rw [buffers.outPos, nothing]
          rfl
      | finish out =>
          cases finished : h.finish out with
          | none =>
              simp [Compressor.call, Compressor.finish,
                SqueezerVariant.finishVisitor, finished] at returned
          | some inner =>
              obtain ⟨nothing, silent⟩ := laws.finish_roomless noRoom finished
              rw [Compressor.call, Compressor.finish_zstd finished] at returned
              cases returned
              refine ⟨⟨nothing, ?_⟩, rfl⟩
              intro r ok
              cases result : inner.result with
              | error e =>
                  rw [Reply.map_error result] at ok
                  cases ok
              | ok r' =>
                  rw [Reply.map_ok result] at ok
                  cases ok
                  exact silent r' result

theorem inPhase_after {phase : Phase} (notEnded : phase ≠ .ended)
    {past : List UInt8} {c' : Compressor B} {request : Compressor.Request}
    {reply : Reply (Compressor B) StreamResult} (handle : reply.handle = c')
    (holds : laws.Compresses f c') (output : (laws.encoder c').output = past)
    (next : request.IsFinish ∨ laws.Writing c') :
    laws.InPhase f (laws.phaseAfter phase request reply) past c' := by
  subst handle
  by_cases ended : (laws.encoder reply.handle).Ended
  · have after : laws.phaseAfter phase request reply = .ended := by
      cases phase <;> simp [phaseAfter, ended]
    rw [after]
    exact ⟨holds, output ▸ (holds.sound.ended ended).1, fun _ => ended⟩
  · cases request with
    | finish out =>
        have after : laws.phaseAfter phase (.finish out) reply =
            .finishing := by
          cases phase with
          | ended => exact absurd rfl notEnded
          | writing => simp [phaseAfter, ended]
          | finishing => simp [phaseAfter, ended]
        rw [after]
        exact ⟨holds, ended, output⟩
    | push input out =>
        have after : laws.phaseAfter phase (.push input out) reply = phase := by
          cases phase <;> simp [phaseAfter, ended]
        rw [after]
        cases phase with
        | ended => exact absurd rfl notEnded
        | writing => exact ⟨holds, next.resolve_left id, output⟩
        | finishing => exact ⟨holds, ended, output⟩
    | flush out =>
        have after : laws.phaseAfter phase (.flush out) reply = phase := by
          cases phase <;> simp [phaseAfter, ended]
        rw [after]
        cases phase with
        | ended => exact absurd rfl notEnded
        | writing => exact ⟨holds, next.resolve_left id, output⟩
        | finishing => exact ⟨holds, ended, output⟩

/-- An allowed call keeps to its phase, and is silent after the end. -/
theorem step_phase {phase : Phase} {past : List UInt8} {c c' : Compressor B}
    {request : Compressor.Request} {reply : Reply (Compressor B) StreamResult}
    (inPhase : laws.InPhase f phase past c) (allowed : Allows f phase request)
    (step : c.Step request reply c') :
    laws.InPhase f (laws.phaseAfter phase request reply)
      (past ++ reply.written) c' ∧ (phase = .ended → Silent reply) := by
  cases phase with
  | writing =>
      obtain ⟨holds, writing, rfl⟩ := inPhase
      obtain ⟨kept, output, next⟩ :=
        laws.step_opened holds writing.1 (.inl writing) step
      exact ⟨laws.inPhase_after (by decide) step.2 kept output next, by simp⟩
  | finishing =>
      obtain ⟨holds, opened, rfl⟩ := inPhase
      have ready : laws.Writing c ∨ request.IsFinish := by
        by_cases isZstd : f = .zstd
        · exact .inr (allowed isZstd)
        · exact .inl (laws.writing_of_opened holds isZstd opened)
      obtain ⟨kept, output, next⟩ := laws.step_opened holds opened ready step
      exact ⟨laws.inPhase_after (by decide) step.2 kept output next, by simp⟩
  | ended =>
      obtain ⟨holds, complete, idle⟩ := inPhase
      by_cases isZstd : f = .zstd
      · subst isZstd
        obtain ⟨silent, kept⟩ := laws.step_roomless holds (allowed rfl) step
        rw [silent.written, List.append_nil]
        exact ⟨⟨kept, complete, fun notZstd => absurd rfl notZstd⟩,
          fun _ => silent⟩
      · obtain ⟨silent, kept, ended⟩ :=
          laws.step_ended isZstd holds (idle isZstd) step
        rw [silent.written, List.append_nil]
        exact ⟨⟨kept, complete, fun _ => ended⟩, fun _ => silent⟩

theorem run_phase {phase : Phase} {past : List UInt8} {c c' : Compressor B}
    {trace : Compressor.Trace B} (inPhase : laws.InPhase f phase past c)
    (orderly : laws.Orderly f phase trace)
    (run : Run Compressor.Step c trace c') :
    (∃ phase', laws.InPhase f phase' (past ++ written trace) c') ∧
      (phase = .ended → ∀ entry ∈ trace, Silent entry.2) := by
  induction run generalizing phase past with
  | nil => exact ⟨⟨phase, by simpa using inPhase⟩, by simp⟩
  | cons step _ ih =>
      obtain ⟨allowed, later⟩ := orderly
      obtain ⟨next, silent⟩ := laws.step_phase inPhase allowed step
      obtain ⟨⟨phase', reached⟩, lastly⟩ := ih next later
      refine ⟨⟨phase', by simpa using reached⟩, ?_⟩
      rintro rfl entry listed
      rcases List.mem_cons.mp listed with rfl | listedLater
      · exact silent rfl
      · exact lastly rfl entry listedLater

/-- In an orderly run everything after the end is silent. -/
theorem run_silent {phase : Phase} {past : List UInt8} {c c' : Compressor B}
    {trace : Compressor.Trace B} (inPhase : laws.InPhase f phase past c)
    (orderly : laws.Orderly f phase trace)
    (run : Run Compressor.Step c trace c') {before after : Compressor.Trace B}
    {entry : Compressor.Request × Reply (Compressor B) StreamResult}
    (parts : trace = before ++ entry :: after)
    (ended : (laws.encoder entry.2.handle).Ended) :
    ∀ later ∈ after, Silent later.2 := by
  induction run generalizing phase past before with
  | nil => simp at parts
  | cons step rest ih =>
      obtain ⟨allowed, later⟩ := orderly
      have next := (laws.step_phase inPhase allowed step).1
      cases before with
      | nil =>
          simp only [List.nil_append, List.cons.injEq] at parts
          obtain ⟨rfl, rfl⟩ := parts
          apply (laws.run_phase next later rest).2
          cases phase <;> simp [phaseAfter, ended]
      | cons first before =>
          simp only [List.cons_append, List.cons.injEq] at parts
          exact ih next later parts.2

theorem one_stream {lvl : ZlibLevel} (serves : B.Serves f)
    (accepted : Accepts f lvl) {c : Compressor B} {trace : Compressor.Trace B}
    (run : Run Compressor.Step (.of B f lvl) trace c)
    (orderly : laws.Orderly f .writing trace) : laws.OneStream f trace := by
  obtain ⟨holds, -, output, writing⟩ := laws.compresses_of lvl serves accepted
  have start : laws.InPhase f .writing [] (.of B f lvl) :=
    ⟨holds, writing, output⟩
  obtain ⟨⟨phase, reached⟩, -⟩ := laws.run_phase start orderly run
  exact ⟨reached.isPrefix, fun before entry after parts ended =>
    laws.run_silent start orderly run parts ended⟩

end EncodingLaws

/-- A push that reports done, or that the stream is damaged. -/
def Settles {σ : Type} (reply : Reply σ StreamResult) : Prop :=
  (∃ r, reply.result = .ok r ∧ r.done = true) ∨
  FailsWith .streamCorrupt reply.result

namespace EngineLaws

variable (laws : EngineLaws B) {f : Format}

/-- A push after which the object has settled and its engine has not: of zstd
any that settles, of zlib one into a null span before the end. -/
def LeavesOpen (f : Format)
    (entry : Decompressor.Request × Reply (Decompressor B) StreamResult) :
    Prop :=
  if f = .zstd then Settles entry.2
  else entry.1.out.isNull = true ∧ laws.status entry.2.handle = .opened

/-- Once an engine is left open under a settled object, no more room is
offered. -/
def OrderlyReads (f : Format) (trace : Decompressor.Trace B) : Prop :=
  ∀ before entry after, trace = before ++ entry :: after →
  laws.LeavesOpen f entry →
    ∀ later ∈ after, later.1.out.size = 0

theorem reads_roomless {d d' : Decompressor B} {request : Decompressor.Request}
    {reply : Reply (Decompressor B) StreamResult}
    (holds : laws.Decompresses f d) (noRoom : request.out.size = 0)
    (step : d.Step request reply d') :
    Silent reply ∧ laws.Decompresses f d' := by
  obtain ⟨handle⟩ := d
  cases handle with
  | zlibStubSweller => exact holds.elim
  | zstdStubSweller => exact holds.elim
  | zlibSweller h =>
      obtain ⟨member, container⟩ := holds
      obtain ⟨stored, rfl, reported⟩ := Decompressor.step_zlib step
      let loaded := h.stream.load request.input request.out
      have noWindow : loaded.availOut = 0 := by
        change uInt request.out.size = 0
        rw [noRoom]
        rfl
      have within := (laws.inflate.windows loaded .noFlush).2
      have nothing : (B.zlib.inflate loaded .noFlush).written = [] :=
        List.length_eq_zero_iff.mp (Nat.le_zero.mp (noWindow ▸ within))
      have outCount := (laws.inflate.counts loaded .noFlush).2
      have kept := laws.inflate.container_kept loaded .noFlush
      refine ⟨⟨stored.trans nothing, ?_⟩, ⟨member, kept.trans container⟩⟩
      intro r ok
      rw [reported r ok, outCount, nothing]
      exact counted_zero _
  | zstdSweller h =>
      obtain ⟨stored, rfl, reported⟩ := Decompressor.step_zstd step
      have buffers :=
        laws.decompress.within h.ctx { size := request.out.size, pos := 0 }
        { src := request.input.bytes, pos := 0 }
      have nothing := List.length_eq_zero_iff.mp
        (Nat.le_zero.mp (buffers.room_le.trans_eq noRoom))
      refine ⟨⟨stored.trans nothing, ?_⟩, holds⟩
      intro r ok
      rw [reported r ok, buffers.outPos, nothing]
      rfl

theorem reads_settled (idle : InflateIdleLaws laws.inflate)
    (notZstd : f ≠ .zstd) {d d' : Decompressor B}
    {request : Decompressor.Request}
    {reply : Reply (Decompressor B) StreamResult}
    (holds : laws.Decompresses f d) (settled : laws.status d ≠ .opened)
    (step : d.Step request reply d') :
    Silent reply ∧ laws.Decompresses f d' ∧ laws.status d' ≠ .opened := by
  obtain ⟨handle⟩ := d
  cases handle with
  | zlibStubSweller => exact holds.elim
  | zstdStubSweller => exact holds.elim
  | zstdSweller h => exact absurd holds notZstd
  | zlibSweller h =>
      obtain ⟨member, container⟩ := holds
      obtain ⟨stored, rfl, reported⟩ := Decompressor.step_zlib step
      let loaded := h.stream.load request.input request.out
      obtain ⟨nothing, status⟩ := idle.settled_idle loaded .noFlush settled
      have outCount := (laws.inflate.counts loaded .noFlush).2
      have kept := laws.inflate.container_kept loaded .noFlush
      refine ⟨⟨stored.trans nothing, ?_⟩, ⟨member, kept.trans container⟩, ?_⟩
      · intro r ok
        rw [reported r ok, outCount, nothing]
        exact counted_zero _
      · change laws.inflate.status
            (B.zlib.inflate loaded .noFlush).stream.state ≠ .opened
        rw [status]
        exact settled

/-- Every push keeps the format; a zlib push that settles the object either
settles the engine or was made into a null span. -/
theorem reads_step (idle : InflateIdleLaws laws.inflate) {d d' : Decompressor B}
    {request : Decompressor.Request}
    {reply : Reply (Decompressor B) StreamResult}
    (holds : laws.Decompresses f d) (step : d.Step request reply d') :
    laws.Decompresses f d' ∧
      (f ≠ .zstd → Settles reply → request.out.isNull = false →
        laws.status d' ≠ .opened) := by
  obtain ⟨rfl, rfl⟩ := step
  have kept :
      laws.Decompresses f (d.push request.input request.out).handle := by
    obtain ⟨handle⟩ := d
    cases handle with
    | zlibStubSweller => exact holds.elim
    | zstdStubSweller => exact holds.elim
    | zlibSweller h =>
        exact ⟨holds.1, (laws.inflate.container_kept _ .noFlush).trans holds.2⟩
    | zstdSweller h => exact holds
  refine ⟨kept, fun notZstd settles notNull => ?_⟩
  by_cases opened : laws.status d = .opened
  · obtain ⟨taken, signal, reads⟩ :=
      laws.push_reads holds opened request.input (.inr notNull)
    cases signal with
    | done =>
        rw [reads.status (by decide)]
        decide
    | bad =>
        rw [reads.failed idle notZstd rfl]
        decide
    | more =>
        exfalso
        obtain ⟨r, result, done, -⟩ :=
          reads.verdict.served (by decide) (by simp)
        rcases settles with ⟨r', result', isDone⟩ | failed
        · rw [result] at result'
          cases result'
          simp [isDone] at done
        · rw [result] at failed
          exact FailsWith.not_ok failed
  · exact (laws.reads_settled idle notZstd holds opened ⟨rfl, rfl⟩).2.2

theorem reads_silent (idle : InflateIdleLaws laws.inflate) (serves : B.Serves f)
    {d : Decompressor B} {trace : Decompressor.Trace B}
    (run : Run Decompressor.Step (.construct B f) trace d)
    (orderly : laws.OrderlyReads f trace) {before after : Decompressor.Trace B}
    {entry : Decompressor.Request × Reply (Decompressor B) StreamResult}
    (parts : trace = before ++ entry :: after) (settles : Settles entry.2) :
    ∀ later ∈ after, Silent later.2 := by
  obtain ⟨request, reply⟩ := entry
  obtain ⟨start, -, -⟩ := laws.decompresses_construct serves
  have roomless := orderly before (request, reply) after parts
  subst parts
  obtain ⟨mid, first, second⟩ := run.split
  have holds : laws.Decompresses f mid :=
    (first.always (laws.Decompresses f) (fun _ _ => True)
      (fun holds step => ⟨trivial,
        (laws.reads_step idle holds step).1⟩) start).2
  cases second with
  | cons step rest =>
      obtain ⟨kept, closes⟩ := laws.reads_step idle holds step
      have quiet := (rest.always (laws.Decompresses f)
        (fun request reply => request.out.size = 0 → Silent reply)
        (fun holds step =>
          ⟨fun noRoom => (laws.reads_roomless holds noRoom step).1,
            (laws.reads_step idle holds step).1⟩) kept).1
      have loose (left : laws.LeavesOpen f (request, reply)) : ∀ later ∈ after,
          Silent later.2 :=
        fun later listed => quiet later listed (roomless left later listed)
      by_cases isZstd : f = .zstd
      · apply loose
        rw [LeavesOpen, if_pos isZstd]
        exact settles
      · have closed (settled : laws.status reply.handle ≠ .opened) :
            ∀ later ∈ after, Silent later.2 := by
          rw [step.2] at settled
          exact (rest.always
            (fun d => laws.Decompresses f d ∧ laws.status d ≠ .opened)
            (fun _ reply => Silent reply)
            (fun state step => laws.reads_settled idle isZstd state.1
              state.2 step)
            ⟨kept, settled⟩).1
        cases null : request.out.isNull with
        | true =>
            by_cases opened : laws.status reply.handle = .opened
            · apply loose
              rw [LeavesOpen, if_neg isZstd]
              exact ⟨null, opened⟩
            · exact closed opened
        | false =>
            apply closed
            rw [step.2]
            exact closes isZstd settles null

end EngineLaws

/-- In every run that asks nothing out of order, a compressor makes a prefix of
one stream and is silent after its end, and a decompressor is silent after it
has settled. -/
theorem one_object_one_stream (laws : EngineLaws B)
    (idle : InflateIdleLaws laws.inflate) {f : Format} {lvl : ZlibLevel}
    (serves : B.Serves f) (accepted : Accepts f lvl) :
    (∀ trace c, Run Compressor.Step (.of B f lvl) trace c →
      laws.Orderly f .writing trace → laws.OneStream f trace) ∧
    (∀ trace d, Run Decompressor.Step (.construct B f) trace d →
      laws.OrderlyReads f trace →
      ∀ before entry after, trace = before ++ entry :: after → Settles entry.2 →
        ∀ later ∈ after, Silent later.2) :=
  ⟨fun _ _ run orderly => laws.one_stream serves accepted run orderly,
    fun _ _ run orderly _ _ _ parts settles =>
      laws.reads_silent idle serves run orderly parts settles⟩

theorem Compressor.run_finish_twice {f : Format} {lvl : ZlibLevel} {out : Span}
    {first second : Reply (Compressor B) StreamResult}
    (returned : (Compressor.of B f lvl).finish out = some first)
    (again : first.handle.finish out = some second) :
    Run Compressor.Step (.of B f lvl)
      [(.finish out, first), (.finish out, second)] second.handle :=
  .cons ⟨returned, rfl⟩ (.one ⟨again, rfl⟩)

theorem one_stream_finish_twice :
    ∃ first second,
      (Compressor.of unixBuild .gzip ⟨0⟩).finish (.zeros 32 (by decide)) =
        some first ∧ first.handle.finish (.zeros 32 (by decide)) = some second ∧
        unixLaws.OneStream .gzip [(.finish (.zeros 32 (by decide)), first),
          (.finish (.zeros 32 (by decide)), second)] := by
  have accepted : Accepts .gzip ⟨0⟩ := by decide
  refine ⟨_, _, rfl, rfl, ?_⟩
  apply (one_object_one_stream unixLaws (storedIdle 64 unix_wide 3)
    (by decide) accepted).1 _ _ (Compressor.run_finish_twice rfl rfl)
  exact ⟨nofun, nofun, trivial⟩

/-- A second finish of zstd makes a second frame, and a second frame is decoded
after the first was done. -/
theorem not_one_object_one_stream :
    unixBuild.Serves .zstd ∧ Accepts .zstd ⟨3⟩ ∧
      ¬ (∀ trace c, Run Compressor.Step (.of unixBuild .zstd ⟨3⟩) trace c →
        unixLaws.OneStream .zstd trace) ∧
      ¬ (∀ trace d, Run Decompressor.Step (.construct unixBuild .zstd) trace d →
        ∀ before entry after, trace = before ++ entry :: after →
        Settles entry.2 →
          ∀ later ∈ after, Silent later.2) := by
  refine ⟨by decide, by decide, ?_, ?_⟩
  · intro oneStream
    let out : Span := .zeros 32 (by decide)
    let first : Reply (Compressor unixBuild) StreamResult :=
      ((Compressor.of unixBuild .zstd ⟨3⟩).finish out).get (by decide)
    let second : Reply (Compressor unixBuild) StreamResult :=
      (first.handle.finish out).get (by decide)
    have ended : (unixLaws.encoder first.handle).Ended := by decide
    have silent := (oneStream _ _
      (Compressor.run_finish_twice (Option.some_get _).symm
        (Option.some_get _).symm)).silent []
      (.finish out, first) [(.finish out, second)] rfl ended _
        (List.mem_singleton.mpr rfl)
    have emptyFrame : second.written.length = 9 := by decide
    rw [silent.written] at emptyFrame
    cases emptyFrame
  · intro silence
    let whole : Span := .ofBytes (frame [1, 2, 3, 4, 5]) (by decide)
    let out : Span := .zeros 5 (by decide)
    let d := Decompressor.construct unixBuild .zstd
    let first := d.push whole out
    let second := first.handle.push whole out
    have run : Run Decompressor.Step d
        [(⟨whole, out⟩, first), (⟨whole, out⟩, second)] second.handle :=
      .cons ⟨rfl, rfl⟩ (.one ⟨rfl, rfl⟩)
    have done : first.result =
        .ok { bytesConsumed := 14, bytesProduced := 5, done := true } := by
      decide
    have silent := silence _ _ run [] _ _ rfl (.inl ⟨_, done, rfl⟩) _
      (List.mem_singleton.mpr rfl)
    have decoded : second.written = [1, 2, 3, 4, 5] := by decide
    rw [silent.written] at decoded
    cases decoded

end Polliwog
