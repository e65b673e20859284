import Polliwog.Streaming.Compressing
import Polliwog.Reference.Build

/-!
# Whether finish says when it is done

The engines report the end of a stream and the handles forward it, but the
visitor above them reports done after every finish that returns a value.
-/

namespace Polliwog

open Codec

variable {B : Build}

namespace EncodingLaws

variable (laws : EncodingLaws B) {f : Format}

theorem writing_of_feeds {c c' : Compressor B} {request : Compressor.Request}
    {reply : Reply (Compressor B) StreamResult}
    (state : laws.Compresses f c ∧ laws.Writing c)
    (feeds : c.Feeds request reply c') :
    laws.Compresses f c' ∧ laws.Writing c' := by
  obtain ⟨holds, writing⟩ := state
  obtain ⟨⟨returned, rfl⟩, notFinish, -⟩ := feeds
  cases request with
  | push input out =>
      cases returned
      obtain ⟨kept, still, -⟩ := laws.push_spec holds writing input out
      exact ⟨kept, still⟩
  | flush out =>
      cases returned
      obtain ⟨kept, still, -⟩ := laws.flush_spec holds writing out
      exact ⟨kept, still⟩
  | finish out => exact absurd trivial notFinish

theorem writing_of_run {lvl : ZlibLevel} (serves : B.Serves f)
    (accepted : Accepts f lvl)
    {trace : List (Compressor.Request × Reply (Compressor B) StreamResult)}
    {c : Compressor B} (run : Run Compressor.Feeds (.of B f lvl) trace c) :
    laws.Compresses f c ∧ laws.Writing c := by
  obtain ⟨holds, -, -, writing⟩ := laws.compresses_of lvl serves accepted
  exact (run.always (fun c => laws.Compresses f c ∧
    laws.Writing c) (fun _ _ => True)
    (fun state feeds => ⟨trivial, laws.writing_of_feeds state feeds⟩)
      ⟨holds, writing⟩).2

/-- After the end zlib confirms it, and zstd ends another frame; either way a
finish into some room returns, and says that it is done. -/
theorem finish_ended {c : Compressor B} (holds : laws.Compresses f c)
    (ended : (laws.encoder c).Ended) {out : Span}
    (room : 0 < reach f out.size) :
    ∃ reply r, c.finish out = some reply ∧ reply.result = .ok r ∧
    r.done = true := by
  have notNull : out.isNull = false :=
    Span.notNull_of_size_pos (room.trans_le (reach_le f out.size))
  obtain ⟨handle⟩ := c
  cases handle with
  | zlibStubSqueezer => exact holds.elim
  | zstdStubSqueezer => exact holds.elim
  | zlibSqueezer h =>
      obtain ⟨member, -⟩ := holds
      rw [reach_of_mem member] at room
      have nothing : (h.stream.load .empty out).offered = [] := List.take_nil
      have ret :=
        laws.deflate.ended_done (h.stream.load .empty out) notNull ended nothing
        room
      exact ⟨_, _, rfl,
        Reply.map_ok (Reply.map_ok (h.push_served .empty out (.inl ret))), rfl⟩
  | zstdSqueezer h =>
      obtain ⟨⟨opened, -⟩, same⟩ := laws.compress.reopens h.ctx ended
      let h' : ZstdSqueezer B.zstd :=
        { h with ctx := laws.compress.reopened h.ctx }
      let output : OutBuffer := { size := out.size, pos := 0 }
      have within : output.pos ≤ output.size := Nat.zero_le _
      obtain ⟨reply, new, done, returned, -, -, result⟩ :=
        laws.finishLoop_spec (h := h') [] [] opened within (Nat.lt_succ_self _)
      have finished : h.finish out = some reply := by
        rw [← returned]
        simp only [ZstdSqueezer.finish, OutBuffer.room, Nat.sub_zero,
          ZstdSqueezer.finishLoop, same, h', output]
      exact ⟨_, _, Compressor.finish_zstd finished, Reply.map_ok result, rfl⟩

/-- The call by which the engine emits the last byte of the stream. -/
def EmitsLast (c : Compressor B) (reply : Reply (Compressor B) StreamResult) :
    Prop :=
  ¬ (laws.encoder c).Ended ∧ (laws.encoder reply.handle).Ended

/-- Each of these finish calls returns, and is done exactly when it emits the
last byte. -/
def HonestFinishes : Compressor B → List Span → Prop
  | _, [] => True
  | c, out :: later =>
      ∃ reply r, c.finish out = some reply ∧ reply.result = .ok r ∧
        (r.done = true ↔ laws.EmitsLast c reply) ∧
        HonestFinishes reply.handle later

/-- No finish is honest after the end. -/
theorem not_honest_of_ended {c : Compressor B} (holds : laws.Compresses f c)
    (ended : (laws.encoder c).Ended) {out : Span} (room : 0 < reach f out.size)
    (later : List Span) : ¬ laws.HonestFinishes c (out :: later) := by
  intro finishes
  obtain ⟨reply, r, returned, result, honest, -⟩ := finishes
  obtain ⟨again, r', returnedAgain, resultAgain, done⟩ :=
    laws.finish_ended holds ended room
  have sameReply : again = reply :=
    Option.some.inj (returnedAgain.symm.trans returned)
  subst sameReply
  have sameResult : r' = r := Except.ok.inj (resultAgain.symm.trans result)
  subst sameResult
  exact (honest.mp done).1 ended

end EncodingLaws

/-- After any run of pushes and flushes, finish calls are honest exactly when
there is at most one, with room for everything that is left. -/
theorem finishes_honest_iff (laws : EncodingLaws B) {f : Format}
    {lvl : ZlibLevel} (serves : B.Serves f) (accepted : Accepts f lvl)
    {trace : List (Compressor.Request × Reply (Compressor B) StreamResult)}
    {c : Compressor B} (run : Run Compressor.Feeds (.of B f lvl) trace c)
    (outs : List Span)
    (sizes : ∀ out ∈ outs, 0 < out.size ∧ out.size < 2 ^ 32) :
    laws.HonestFinishes c outs ↔
      outs = [] ∨ ∃ out, outs = [out] ∧
      (laws.encoder c).rest.length ≤ out.size := by
  obtain ⟨holds, opened, -⟩ := laws.writing_of_run serves accepted run
  cases outs with
  | nil => simp [EncodingLaws.HonestFinishes]
  | cons out later =>
      obtain ⟨positive, narrow⟩ := sizes out List.mem_cons_self
      have whole : reach f out.size = out.size := reach_of_lt f narrow
      obtain ⟨reply, returned, kept, finish⟩ :=
        laws.finish_spec holds opened out
      have served : laws.Finishes f c out reply := by
        rcases finish with ⟨-, noRoom⟩ | served
        · omega
        · exact served
      obtain ⟨finishes, r, result, done, -⟩ := served
      rw [whole] at finishes
      have last : laws.EmitsLast c reply ↔
          (laws.encoder c).rest.length ≤ out.size := by
        rw [← finishes.ended_iff]
        exact and_iff_right opened
      constructor
      · intro finishes
        obtain ⟨reply', r', returned', result', honest, rest⟩ := finishes
        have sameReply : reply' = reply :=
          Option.some.inj (returned'.symm.trans returned)
        subst sameReply
        have sameResult : r' = r := Except.ok.inj (result'.symm.trans result)
        subst sameResult
        have fits : (laws.encoder c).rest.length ≤ out.size :=
          last.mp (honest.mp done)
        refine .inr ⟨out, ?_, fits⟩
        cases later with
        | nil => rfl
        | cons again later =>
            exfalso
            obtain ⟨positive', narrow'⟩ := sizes again (by simp)
            have room : 0 < reach f again.size := by
              rw [reach_of_lt f narrow']
              exact positive'
            exact laws.not_honest_of_ended kept
              (finishes.ended_iff.mpr fits) room later rest
      · intro cause
        rcases cause with blank | ⟨out', same, fits⟩
        · cases blank
        · cases same
          exact ⟨reply, r, returned, result,
            iff_of_true done (last.mpr fits), trivial⟩

/-- Five bytes pushed into a gzip compressor. -/
def pushedFive : Reply (Compressor unixBuild) StreamResult :=
  (Compressor.of unixBuild .gzip ⟨0⟩).push fiveBytes (.zeros 32 (by decide))

theorem run_pushedFive :
    Run Compressor.Feeds (.of unixBuild .gzip ⟨0⟩)
      [(.push fiveBytes (.zeros 32 (by decide)), pushedFive)]
        pushedFive.handle := by
  have returned : pushedFive.result =
      .ok { bytesConsumed := 5, bytesProduced := 10, done := false } := by
    decide
  exact .one ⟨⟨rfl, rfl⟩, id, _, returned⟩

theorem finishes_honest_roomy :
    unixLaws.HonestFinishes pushedFive.handle [.zeros 28 (by decide)] := by
  apply (finishes_honest_iff unixEncoding (by decide)
    (by decide) run_pushedFive _ (by decide)).mpr
  exact .inr ⟨_, rfl, by decide⟩

/-- One byte of room for the last eighteen, and finish is done. -/
theorem not_finishes_honest :
    unixBuild.Serves .gzip ∧ Accepts .gzip ⟨0⟩ ∧
      Run Compressor.Feeds (.of unixBuild .gzip ⟨0⟩)
        [(.push fiveBytes (.zeros 32 (by decide)), pushedFive)]
          pushedFive.handle ∧
      (∀ out ∈ [Span.zeros 1 (by decide)], 0 < out.size ∧ out.size < 2 ^ 32) ∧
      ¬ unixLaws.HonestFinishes pushedFive.handle [.zeros 1 (by decide)] := by
  refine ⟨by decide, by decide, run_pushedFive, by decide, ?_⟩
  intro finishes
  obtain ⟨reply, r, returned, result, honest, -⟩ := finishes
  let finished : Reply (Compressor unixBuild) StreamResult :=
    (pushedFive.handle.finish (.zeros 1 (by decide))).get (by decide)
  have same : reply = finished := Option.some.inj returned.symm
  have isDone : finished.result =
      .ok { bytesConsumed := 0, bytesProduced := 1, done := true } := by
    decide
  subst same
  rw [isDone, Except.ok.injEq] at result
  subst result
  have last : (unixLaws.encoder finished.handle).Ended := (honest.mp rfl).2
  revert last
  decide

end Polliwog
