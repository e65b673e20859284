import Polliwog.Streaming.Chunking
import Polliwog.Streaming.Verdict

/-!
# One input, one verdict

A caller presents an input in order, in pieces and into spans of its own choice,
and goes by the reports alone.  Nothing is assumed of the input, nor of the
room. Whoever comes to a verdict comes to the one that the input holds, and
nobody makes more than so many pushes before. -/

namespace Polliwog

open Codec

variable {B : Build}

/-- A caller: its object, what it has left to present, and what it was told was
produced. -/
structure Reader (B : Build) where
  d : Decompressor B
  left : List UInt8
  kept : List UInt8

namespace Reader

def start (B : Build) (f : Format) (input : List UInt8) : Reader B :=
  ⟨.construct B f, input, []⟩

/-- A push of the next bytes that returns a value short of the end. -/
inductive Step :
    Reader B → Decompressor.Request → StreamResult → Reader B → Prop where
  | push {p : Reader B} {request : Decompressor.Request} {r : StreamResult} :
      request.input.bytes <+: p.left →
      (p.d.push request.input request.out).result = .ok r → r.done = false →
      Step p request r
        { d := (p.d.push request.input request.out).handle
          left := p.left.drop r.bytesConsumed
          kept := p.kept ++ (request.out.overwrite
            (p.d.push request.input request.out).written).take r.bytesProduced }

/-- What a push settles. -/
def verdict (p : Reader B) (request : Decompressor.Request) : Option Outcome :=
  let reply := p.d.push request.input request.out
  match reply.result with
  | .error e => some (.failed e.kind)
  | .ok r =>
      if r.done then
        some (.done (p.kept ++
          (request.out.overwrite reply.written).take r.bytesProduced))
      else none

/-- A push with some room that is shown some of the input. -/
def Useful (f : Format) (request : Decompressor.Request) : Prop :=
  Shows f request.out.size ∧ Shows f request.input.size

end Reader

namespace EngineLaws

variable (laws : EngineLaws B) {f : Format}

/-- Where a caller is along its input. -/
structure Presents (f : Format) (s : List UInt8) (p : Reader B) : Prop where
  holds : laws.Decompresses f p.d
  opened : laws.status p.d = .opened
  whole : (laws.decoder p.d).read ++ p.left = s
  delivered : (laws.decoder p.d).delivered = p.kept
  isOpen : (laws.decoder p.d).Open (laws.wire f)

/-- What an input holds for whoever reads it. -/
inductive Holds (W : Wire UInt8) (s : List UInt8) : Outcome → Prop where
  | done {q : List UInt8} : q <+: s → W.Complete q →
    Holds W s (.done (W.content q))
  | failed {q : List UInt8} : q <+: s → W.Corrupt q →
    Holds W s (.failed .streamCorrupt)

/-- An input holds one verdict at most. -/
theorem Holds.unique {W : Wire UInt8} {s : List UInt8} {v v' : Outcome}
    (holds : Holds W s v) (holds' : Holds W s v') : v = v' := by
  cases holds with
  | done inside complete =>
      cases holds' with
      | done inside' complete' =>
          rw [Wire.complete_unique complete complete' inside inside']
      | failed inside' corrupt =>
          exact absurd corrupt
            (Wire.not_corrupt_of_complete complete inside inside')
  | failed inside corrupt =>
      cases holds' with
      | done inside' complete =>
          exact absurd corrupt
            (Wire.not_corrupt_of_complete complete inside' inside)
      | failed _ _ => rfl

variable {laws} {s : List UInt8} {p p' : Reader B}
  {request : Decompressor.Request} {r : StreamResult}

theorem presents_start (serves : B.Serves f) :
    laws.Presents f s (.start B f s) := by
  obtain ⟨holds, fresh, opened⟩ := laws.decompresses_construct serves
  have isOpen := Dec.open_fresh (laws.wire f)
  rw [← fresh] at isOpen
  exact ⟨holds, opened, congrArg (· ++ s) (congrArg Dec.read fresh),
    congrArg Dec.delivered fresh, isOpen⟩

theorem Presents.inside (presents : laws.Presents f s p)
    (next : request.input.bytes <+: p.left) :
    (laws.decoder p.d).read ++ request.input.shown f <+: s := by
  rw [← presents.whole]
  exact (List.prefix_append_right_inj _).mpr
    ((request.input.shown_isPrefix f).trans next)

theorem Presents.step (presents : laws.Presents f s p) (exact : CountsExact B f)
    (step : Reader.Step p request r p') :
    laws.Presents f s p' ∧ ∃ taken,
      (laws.decoder p.d).Reads (laws.wire f) (request.input.shown f)
        (reach f request.out.size)
        taken (p.d.push request.input request.out).written .more ∧
      (laws.decoder p'.d).read =
        (laws.decoder p.d).read ++ (request.input.shown f).take taken ∧
      p'.kept = p.kept ++ (p.d.push request.input request.out).written := by
  cases step with
  | push next ok short =>
      obtain ⟨⟨taken, reads⟩, -⟩ :=
        laws.push_goesOn ⟨presents.holds, presents.opened⟩ ok short
      obtain ⟨-, -, counts⟩ := reads.verdict.of_ok ok
      obtain ⟨rfl, outCount⟩ := counts exact
      have advanced := reads.advances (by decide)
      have shown : (request.input.shown f).take r.bytesConsumed =
          p.left.take r.bytesConsumed :=
        Carries.take_front ((request.input.shown_isPrefix f).trans next)
          reads.decoder.taken_le
      rw [outCount, Span.take_overwrite]
      refine ⟨⟨reads.holds, reads.status (by decide), ?_, ?_, ?_⟩, _,
        reads.decoder, ?_, rfl⟩
      · rw [advanced]
        change ((laws.decoder p.d).read ++ _) ++ p.left.drop r.bytesConsumed = s
        rw [shown, List.append_assoc, List.take_append_drop]
        exact presents.whole
      · rw [advanced, ← presents.delivered]
        rfl
      · rw [advanced]
        exact reads.decoder.more rfl
      · rw [advanced]
        rfl

theorem presents_run (exact : CountsExact B f) (serves : B.Serves f)
    {trace : List (Decompressor.Request × StreamResult)}
    (run : Run Reader.Step (.start B f s) trace p) : laws.Presents f s p :=
  (run.always (laws.Presents f s) (fun _ _ => True)
    (fun presents step => ⟨trivial, (presents.step exact step).1⟩)
      (presents_start serves)).2

/-- A verdict is what the input holds. -/
theorem Presents.verdict (presents : laws.Presents f s p)
    (exact : CountsExact B f) (next : request.input.bytes <+: p.left)
    (memory : f = .zstd ∨ request.out.isNull = false)
    (alone : f = .zstd → ∀ q, q <+: s → (laws.wire f).Complete q → q = s)
    {v : Outcome} (settled : p.verdict request = some v) :
    Holds (laws.wire f) s v := by
  obtain ⟨taken, signal, reads⟩ :=
    laws.push_reads presents.holds presents.opened request.input memory
  have inside := presents.inside next
  have read :=
    (Dec.Reads.read_take_isPrefix (laws.decoder p.d) _ taken).trans inside
  cases result : (p.d.push request.input request.out).result with
  | ok r =>
      obtain ⟨notBad, done, counts⟩ := reads.verdict.of_ok result
      cases isDone : r.done with
      | false => simp [Reader.verdict, result, isDone] at settled
      | true =>
          obtain ⟨complete, delivered⟩ := reads.decoder.done (done.mp isDone)
          simp only [Reader.verdict, result, isDone, ↓reduceIte,
            Option.some.injEq, (counts exact).2, Span.take_overwrite] at settled
          rw [← settled, ← presents.delivered, delivered]
          exact .done read complete
  | error e =>
      obtain ⟨kind, isBad | ⟨isDone, rfl, less⟩⟩ := reads.of_error result
      · obtain ⟨q, isPrefix, damaged⟩ := reads.decoder.bad isBad
        simp only [Reader.verdict, result, Option.some.injEq, kind] at settled
        exact settled ▸ .failed (isPrefix.trans inside) damaged
      · exfalso
        have all := alone rfl _ read (reads.decoder.done isDone).1
        have long := (all ▸ inside).length_le
        simp only [List.length_append, List.length_take,
          Span.shown_zstd] at long
        simp only [Span.size] at less
        omega

end EngineLaws

/-- Any two callers with the same input that come to a verdict come to the same
one, with the same bytes, whatever pieces they cut, whatever room they offer,
and however often.  Of zstd the input holds nothing after a frame. -/
theorem verdicts_agree (laws : EngineLaws B) {f : Format}
    (exact : CountsExact B f) (serves : B.Serves f) {s : List UInt8}
    (alone : f = .zstd → ∀ q, q <+: s → (laws.wire f).Complete q → q = s)
    {trace trace' : List (Decompressor.Request × StreamResult)}
    {p p' : Reader B} (run : Run Reader.Step (.start B f s) trace p)
    (run' : Run Reader.Step (.start B f s) trace' p')
    {request request' : Decompressor.Request}
    (next : request.input.bytes <+: p.left)
    (next' : request'.input.bytes <+: p'.left)
    (memory : f = .zstd ∨ request.out.isNull = false)
    (memory' : f = .zstd ∨ request'.out.isNull = false) {v v' : Outcome}
    (settled : p.verdict request = some v)
    (settled' : p'.verdict request' = some v') :
    v = v' := by
  have presents : laws.Presents f s p :=
    EngineLaws.presents_run exact serves run
  have presents' : laws.Presents f s p' :=
    EngineLaws.presents_run exact serves run'
  exact (presents.verdict exact next memory alone settled).unique
    (presents'.verdict exact next' memory' alone settled')

/-- A gzip stream of five bytes, and one byte more. -/
def fiveAndOne : Span := .ofBytes (fiveHead.bytes ++ fiveTail.bytes) (by decide)

/-- A caller that has not begun on it. -/
def readerOfFive : Reader unixBuild := .start unixBuild .gzip fiveAndOne.bytes

/-- The same after a push of the first bytes. -/
def readerPastHead : Reader unixBuild where
  d := readHead.handle
  left := readerOfFive.left.drop 20
  kept := readerOfFive.kept ++ (fiveSink.overwrite readHead.written).take 5

theorem step_readerPastHead :
    Reader.Step readerOfFive ⟨fiveHead, fiveSink⟩ ⟨20, 5,
      false⟩ readerPastHead := by
  have next : fiveHead.bytes <+: readerOfFive.left := List.prefix_append _ _
  have served : (readerOfFive.d.push fiveHead fiveSink).result =
      .ok ⟨20, 5, false⟩ := by decide
  exact .push next served rfl

theorem verdicts_agree_five :
    ∃ v, readerOfFive.verdict ⟨fiveAndOne, fiveSink⟩ = some v ∧
      readerPastHead.verdict ⟨fiveTail, fiveSink⟩ = some v := by
  have settles : (readerOfFive.verdict ⟨fiveAndOne, fiveSink⟩).isSome := by
    decide +kernel
  have settles' : (readerPastHead.verdict ⟨fiveTail, fiveSink⟩).isSome := by
    decide +kernel
  obtain ⟨v, settled⟩ := Option.isSome_iff_exists.mp settles
  obtain ⟨v', settled'⟩ := Option.isSome_iff_exists.mp settles'
  have whole : fiveAndOne.bytes <+: readerOfFive.left := List.prefix_rfl
  have rest : fiveTail.bytes <+: readerPastHead.left := by decide +kernel
  have same : v = v' :=
    verdicts_agree unixLaws (.inr rfl) (by decide)
      (fun isZstd => Format.noConfusion isZstd)
      (.nil readerOfFive) (.one step_readerPastHead) whole rest (.inr rfl)
        (.inr rfl) settled settled'
  exact ⟨v, settled, same ▸ settled'⟩

/-- On any input a caller comes to a verdict, or has used the input up, after as
many useful pushes as the input and its content have bytes. -/
theorem verdict_comes (laws : EngineLaws B) {f : Format}
    (exact : CountsExact B f) (serves : B.Serves f) {s : List UInt8}
    {trace : List (Decompressor.Request × StreamResult)} {p : Reader B}
    (run : Run (fun p request r p' => Reader.Step p request r p' ∧
      Reader.Useful f request) (.start B f s) trace p) :
    trace.length + p.left.length +
    (((laws.wire f).content s).length - p.kept.length) ≤
      s.length + ((laws.wire f).content s).length := by
  let toDo (p : Reader B) : Nat :=
    p.left.length + (((laws.wire f).content s).length - p.kept.length)
  have kept {p p' : Reader B} {request : Decompressor.Request}
      {r : StreamResult} (presents : laws.Presents f s p)
      (exchange : Reader.Step p request r p' ∧ Reader.Useful f request) :
      laws.Presents f s p' ∧ (True → True ∧ toDo p' < toDo p) := by
    obtain ⟨step, room, offers⟩ := exchange
    obtain ⟨presents', taken, reads, read, produced⟩ := presents.step exact step
    refine ⟨presents', fun _ => ⟨trivial, ?_⟩⟩
    have some : request.input.shown f ≠ [] := by
      apply List.length_pos_iff.mp
      rwa [request.input.length_shown f]
    have moved := reads.progress rfl some room
    have taken_le := reads.taken_le
    have lengths :=
      congrArg List.length (presents.whole.trans presents'.whole.symm)
    have within : p'.kept <+: (laws.wire f).content s := by
      rw [← presents'.delivered]
      refine presents'.isOpen.faithful.trans ((laws.wire f).content_mono ?_)
      rw [← presents'.whole]
      exact List.prefix_append _ _
    have inside := within.length_le
    rw [read] at lengths
    rw [produced] at inside
    simp only [List.length_append, List.length_take] at lengths inside
    simp only [toDo, produced, List.length_append]
    omega
  obtain ⟨-, spent⟩ :=
    run.length_le (laws.Presents f s) (fun _ => True) toDo kept
    (EngineLaws.presents_start serves) trivial
  simpa [toDo, Reader.start, Nat.add_assoc] using spent

theorem verdict_comes_five :
    [((⟨fiveHead, fiveSink⟩ : Decompressor.Request),
      (⟨20, 5, false⟩ : StreamResult))].length +
        readerPastHead.left.length +
        (((unixLaws.wire .gzip).content fiveAndOne.bytes).length -
          readerPastHead.kept.length) ≤
      fiveAndOne.bytes.length +
      ((unixLaws.wire .gzip).content fiveAndOne.bytes).length := by
  have room : Shows .gzip fiveSink.size := by decide
  have offers : Shows .gzip fiveHead.size := by decide
  exact verdict_comes unixLaws (.inr rfl) (by decide)
    (.one ⟨step_readerPastHead, room, offers⟩)

end Polliwog
