import Polliwog.Laws

/-!
# The finishing loop of zstd

`finish` calls the engine until nothing is left or the room is full.  Under the
promise of progress the loop returns, and it is one finishing call of the
encoder behind the context.
-/

namespace Polliwog

open Codec

variable {B : Build}

namespace EncodingLaws

variable (laws : EncodingLaws B)

include laws in
theorem input_of_end (ctx : B.zstd.CCtx) (output : OutBuffer) :
    (B.zstd.compressStream2 ctx output { src := [], pos := 0 } .end_).input =
      { src := [], pos := 0 } := by
  have buffers := laws.compress.within ctx output { src := [], pos := 0 } .end_
  have taken := buffers.taken_le
  have src := buffers.src
  have pos := buffers.inPos
  cases returned :
    (B.zstd.compressStream2 ctx output { src := [], pos := 0 } .end_).input with
  | mk src' pos' =>
      rw [returned] at src pos
      simp only [InBuffer.offered, List.drop_nil, List.length_nil,
        Nat.le_zero] at taken
      simp_all

theorem finishLoop_spec {fuel : Nat} {h : ZstdSqueezer B.zstd}
    {output : OutBuffer} (written : List UInt8) (calls : List EngineCall)
    (opened : ¬ (laws.compress.view h.ctx).Ended)
    (within : output.pos ≤ output.size) (enough : output.room < fuel) :
    ∃ reply new done,
      h.finishLoop { src := [], pos := 0 } output written calls fuel =
        some reply ∧
      reply.written = written ++ new ∧
      (laws.compress.view h.ctx).Finishes output.room new
        (laws.compress.view reply.handle.ctx) ∧
      reply.result =
        .ok { bytesIn := 0, bytesOut := output.pos + new.length,
              done := done } := by
  induction fuel generalizing h output written calls with
  | zero => omega
  | succ fuel ih =>
      obtain ⟨isOk, source, emitted, left, ended⟩ :=
        laws.compress.ends h.ctx output { src := [], pos := 0 } opened rfl
      have progress := laws.compress.end_progress h.ctx output
        { src := [], pos := 0 } opened rfl
      obtain ⟨-, inRoom, -, -, sameSize, moved⟩ :=
        laws.compress.within h.ctx output { src := [], pos := 0 } .end_
      have sameInput := laws.input_of_end h.ctx output
      simp only [ZstdSqueezer.finishLoop, isOk, Bool.false_eq_true, ↓reduceIte]
      generalize B.zstd.compressStream2 h.ctx output
        { src := [], pos := 0 } .end_ = call at *
      have total : (laws.compress.view h.ctx).rest.length =
          call.written.length + (laws.compress.view call.ctx).rest.length := by
        rw [left, List.length_append]
      have room : output.room = output.size - output.pos := rfl
      rcases Nat.eq_zero_or_pos call.ret with done | more
      · have nothing : (laws.compress.view call.ctx).rest = [] := ended.mp done
        simp only [done, lt_irrefl, false_and, ↓reduceIte]
        refine ⟨_, call.written, true, rfl, rfl, ⟨source, emitted, ?_, ?_⟩, ?_⟩
        · intro _
          exact ⟨by rw [left, nothing, List.append_nil], nothing⟩
        · intro tooShort
          rw [nothing, List.length_nil] at total
          omega
        · rw [moved]
      · have stillOpen : ¬ (laws.compress.view call.ctx).Ended :=
          fun isEnded => more.ne' (ended.mpr isEnded)
        have pending : 0 < (laws.compress.view call.ctx).rest.length :=
          List.length_pos_iff.mpr stillOpen
        by_cases full : call.output.pos = call.output.size
        · have filled : call.written.length = output.room := by omega
          simp only [more, full, and_self, ↓reduceIte]
          refine ⟨_, call.written, false, rfl, rfl,
            ⟨source, emitted, ?_, ?_⟩, ?_⟩
          · intro fits
            omega
          · intro _
            exact ⟨filled, stillOpen⟩
          · rw [← moved, full]
        · simp only [more, full, and_false, ↓reduceIte, sameInput]
          have some_room : 0 < output.room := by omega
          have wrote : 0 < call.written.length :=
            List.length_pos_iff.mpr (progress some_room more)
          have inside : call.output.pos ≤ call.output.size := by omega
          have roomLeft : call.output.room =
              output.room - call.written.length := by
            simp only [OutBuffer.room] at room ⊢
            omega
          have fuelLeft : call.output.room < fuel := by omega
          obtain ⟨reply, new, done, returned, stored, finishes, result⟩ :=
            ih (h := { h with ctx := call.ctx }) (written ++ call.written)
              (calls ++ [call.entry .compressStream2
                { src := [], pos := 0 } output
                (call.ret = 0)]) stillOpen inside fuelLeft
          refine ⟨reply, call.written ++ new, done, returned, ?_, ?_, ?_⟩
          · rw [stored, List.append_assoc]
          · rw [roomLeft] at finishes
            exact Enc.Finishes.after source emitted left inRoom finishes
          · rw [result, moved, List.length_append, Nat.add_assoc]

include laws in
/-- Into no room the loop stores nothing, whatever the context. -/
theorem finish_roomless {h : ZstdSqueezer B.zstd} {out : Span}
    {reply : Reply (ZstdSqueezer B.zstd) Progress} (noRoom : out.size = 0)
    (returned : h.finish out = some reply) :
    reply.written = [] ∧ ∀ r, reply.result = .ok r → r.bytesOut = 0 := by
  obtain ⟨-, inRoom, -, -, sameSize, moved⟩ :=
    laws.compress.within h.ctx { size := 0, pos := 0 }
      { src := [], pos := 0 } .end_
  simp only [ZstdSqueezer.finish, noRoom, ZstdSqueezer.finishLoop,
    List.nil_append] at returned
  generalize B.zstd.compressStream2 h.ctx { size := 0, pos := 0 }
    { src := [], pos := 0 } .end_ = call at *
  have nothing : call.written = [] :=
    List.length_eq_zero_iff.mp (Nat.le_zero.mp inRoom)
  have atStart : call.output.pos = 0 := by
    rw [moved, nothing]
    rfl
  have full : call.output.pos = call.output.size := by
    rw [atStart, sameSize]
  split at returned
  · cases returned
    exact ⟨nothing, by simp⟩
  · rcases Nat.eq_zero_or_pos call.ret with done | more
    · simp only [done, lt_irrefl, false_and, ↓reduceIte,
        Option.some.injEq] at returned
      subst returned
      exact ⟨nothing, by simp [atStart]⟩
    · simp only [more, full, and_self, ↓reduceIte,
        Option.some.injEq] at returned
      subst returned
      refine ⟨nothing, ?_⟩
      simp [← full, atStart]

end EncodingLaws

end Polliwog
