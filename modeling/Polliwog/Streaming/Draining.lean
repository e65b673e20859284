import Polliwog.Codec.Drain
import Polliwog.Engine.ZstdLaws
import Polliwog.Detail.Zstd
import Polliwog.Reference.Build

/-!
# The finishing loop, call by call

`finish` ends a frame by as many engine calls as its room takes.  The loop is
followed through any engine that hands out its pending bytes in order, failing
where it likes, and so are the calls that a caller makes until one is done.
-/

namespace Polliwog

open Codec

variable {S : Zstd}

/-- The engine calls of the loop, each going on where the one before stopped. -/
inductive EndCalls (S : Zstd) :
    S.CCtx → OutBuffer → List (ZstdStreamCall S.CCtx) → Prop where
  | last {ctx : S.CCtx} {output : OutBuffer} {call : ZstdStreamCall S.CCtx} :
      S.compressStream2 ctx output { src := [], pos := 0 } .end_ = call →
      EndCalls S ctx output [call]
  | more {ctx : S.CCtx} {output : OutBuffer} {call : ZstdStreamCall S.CCtx}
      {calls : List (ZstdStreamCall S.CCtx)} :
      S.compressStream2 ctx output { src := [], pos := 0 } .end_ = call →
      EndCalls S call.ctx call.output calls →
      EndCalls S ctx output (call :: calls)

/-- What some engine calls stored, in order. -/
def storedBy {σ : Type} (calls : List (ZstdStreamCall σ)) : List UInt8 :=
  calls.flatMap ZstdStreamCall.written

theorem storedBy_cons {σ : Type} (call : ZstdStreamCall σ)
    (calls : List (ZstdStreamCall σ)) :
    storedBy (call :: calls) = call.written ++ storedBy calls :=
  List.flatMap_cons

@[simp] theorem storedBy_singleton {σ : Type} (call : ZstdStreamCall σ) :
    storedBy [call] = call.written := by
  simp [storedBy]

namespace ZstdEndLaws

variable (laws : ZstdEndLaws S)

/-- What the loop does from a context that has something pending: `earlier`
calls that leave something, and a last one that decides. -/
structure Loops (h : ZstdSqueezer S) (output : OutBuffer) (written : List UInt8)
    (entries : List EngineCall) (reply : Reply (ZstdSqueezer S) Progress)
    (earlier : List (ZstdStreamCall S.CCtx)) (last : ZstdStreamCall S.CCtx) :
    Prop where
  calls : EndCalls S h.ctx output (earlier ++ [last])
  ledger : reply.calls.length = entries.length + (earlier.length + 1)
  few : earlier.length ≤ output.room
  written : reply.written = written ++ storedBy (earlier ++ [last])
  room_le : (storedBy (earlier ++ [last])).length ≤ output.room
  failed : S.isError last.ret = true →
    reply.result = .error (S.failure .backendFailure last.ret)
  served : S.isError last.ret = false → reply.result = .ok
    { bytesIn := 0
      bytesOut := output.pos + (storedBy (earlier ++ [last])).length
      done := last.ret = 0 }
  front : S.isError last.ret = false →
    laws.pending h.ctx = storedBy (earlier ++ [last]) ++
    laws.pending reply.handle.ctx ∧
      (last.ret = 0 ↔ laws.pending reply.handle.ctx = [])

section Calls

variable {laws} {h : ZstdSqueezer S} {output : OutBuffer} {written : List UInt8}
  {entries : List EngineCall} {call : ZstdStreamCall S.CCtx}
  (called : S.compressStream2 h.ctx output { src := [], pos := 0 } .end_ = call)

/-- What the loop says after a call that is its last. -/
def lastReply (h : ZstdSqueezer S) (output : OutBuffer) (written : List UInt8)
    (entries : List EngineCall) (call : ZstdStreamCall S.CCtx)
    (result : Except Error Progress) : Reply (ZstdSqueezer S) Progress :=
  { result := result
    handle := { h with ctx := call.ctx }
    written := written ++ call.written
    calls := entries ++
      [call.entry .compressStream2
        { src := [], pos := 0 } output (call.ret = 0)] }

include called

theorem Loops.of_failed (room_le : call.written.length ≤ output.room)
    (failed : S.isError call.ret = true) :
    laws.Loops h output written entries
      (lastReply h output written entries call
        (.error (S.failure .backendFailure call.ret)))
      [] call := by
  have notOk : S.isError call.ret ≠ false := by
    rw [failed]
    decide
  refine ⟨.last called,
    by simp [lastReply], Nat.zero_le _, by simp [lastReply], ?_, ?_, ?_, ?_⟩
  · simpa using room_le
  · intro _
    rfl
  · intro isOk
    exact absurd isOk notOk
  · intro isOk
    exact absurd isOk notOk

theorem Loops.of_served (room_le : call.written.length ≤ output.room)
    (isOk : S.isError call.ret = false)
    (moved : call.output.pos = output.pos + call.written.length)
    (left : laws.pending h.ctx = call.written ++ laws.pending call.ctx)
    (empty : call.ret = 0 ↔ laws.pending call.ctx = []) :
    laws.Loops h output written entries
      (lastReply h output written entries call
        (.ok { bytesIn := 0, bytesOut := call.output.pos,
               done := call.ret = 0 }))
      [] call := by
  refine ⟨.last called,
    by simp [lastReply], Nat.zero_le _, by simp [lastReply], ?_, ?_, ?_, ?_⟩
  · simpa using room_le
  · intro failed
    rw [isOk] at failed
    cases failed
  · intro _
    simp [lastReply, moved]
  · intro _
    simpa [lastReply] using ⟨left, empty⟩

theorem Loops.cons {reply : Reply (ZstdSqueezer S) Progress}
    {earlier : List (ZstdStreamCall S.CCtx)} {last : ZstdStreamCall S.CCtx}
    (moved : call.output.pos = output.pos + call.written.length)
    (left : laws.pending h.ctx = call.written ++ laws.pending call.ctx)
    (roomLeft : call.output.room + call.written.length = output.room)
    (wrote : 0 < call.written.length)
    (loops : laws.Loops { h with ctx := call.ctx } call.output
      (written ++ call.written)
      (entries ++ [call.entry .compressStream2
        { src := [], pos := 0 } output (call.ret = 0)])
      reply earlier last) :
    laws.Loops h output written entries reply (call :: earlier) last := by
  have few := loops.few
  have total := loops.room_le
  constructor
  · exact .more called loops.calls
  · rw [loops.ledger]
    simp
    omega
  · simp only [List.length_cons]
    omega
  · rw [loops.written, List.cons_append, storedBy_cons, List.append_assoc]
  · rw [List.cons_append, storedBy_cons, List.length_append]
    omega
  · exact loops.failed
  · intro isOk
    rw [loops.served isOk, List.cons_append, storedBy_cons,
      List.length_append, moved, Nat.add_assoc]
  · intro isOk
    obtain ⟨rest, done⟩ := loops.front isOk
    refine ⟨?_, done⟩
    rw [left, rest, List.cons_append, storedBy_cons, List.append_assoc]

end Calls

theorem finishLoop_loops {fuel : Nat} {h : ZstdSqueezer S} {output : OutBuffer}
    (written : List UInt8) (entries : List EngineCall)
    (unfinished : laws.pending h.ctx ≠ []) (inside : output.pos ≤ output.size)
    (enough : output.room < fuel) :
    ∃ reply earlier last,
      h.finishLoop { src := [], pos := 0 } output written entries fuel =
        some reply ∧
        laws.Loops h output written entries reply earlier last := by
  induction fuel generalizing h output written entries with
  | zero => omega
  | succ fuel ih =>
      obtain ⟨-, room_le, src, inPos, size, moved⟩ :=
        laws.within h.ctx output unfinished
      have appends := laws.appends h.ctx output unfinished
      have progress := laws.progress h.ctx output unfinished
      simp only [ZstdSqueezer.finishLoop]
      generalize called : S.compressStream2 h.ctx output
        { src := [], pos := 0 } .end_ = call at *
      have room : output.room = output.size - output.pos := rfl
      cases failed : S.isError call.ret with
      | true =>
          simp only [↓reduceIte]
          exact ⟨_, [], call, rfl, .of_failed called room_le failed⟩
      | false =>
          obtain ⟨left, empty⟩ := appends failed
          have stops : laws.Loops h output written entries _ [] call :=
            .of_served called room_le failed moved left empty
          simp only [Bool.false_eq_true, ↓reduceIte]
          rcases Nat.eq_zero_or_pos call.ret with done | more
          · simp only [done, lt_irrefl, false_and, ↓reduceIte]
            simp only [lastReply, done, decide_true] at stops
            exact ⟨_, [], call, rfl, stops⟩
          · have isMore : call.ret ≠ 0 := Nat.pos_iff_ne_zero.mp more
            by_cases full : call.output.pos = call.output.size
            · simp only [more, full, and_self, ↓reduceIte]
              simp only [lastReply, isMore, decide_false, full] at stops
              exact ⟨_, [], call, rfl, by simpa [isMore] using stops⟩
            · have sameInput : call.input = { src := [], pos := 0 } := by
                cases input : call.input with
                | mk src' pos' =>
                    rw [input] at src inPos
                    simp_all
              simp only [more, full, and_false, ↓reduceIte, sameInput]
              have within : call.output.pos ≤ call.output.size := by
                omega
              have wrote : 0 < call.written.length :=
                List.length_pos_iff.mpr (progress failed more (by omega))
              have roomLeft : call.output.room + call.written.length =
                  output.room := by
                simp only [OutBuffer.room] at room ⊢
                omega
              obtain ⟨reply, earlier, last, returned, loops⟩ :=
                ih (h := { h with ctx := call.ctx }) (written ++ call.written)
                  (entries ++
                    [call.entry .compressStream2
                      { src := [], pos := 0 } output (call.ret = 0)])
                  (mt empty.mpr isMore) within (by omega)
              exact ⟨reply, call :: earlier, last, returned,
                loops.cons called moved left roomLeft wrote⟩

/-- One `finish` makes few enough calls for its room, reports what the last of
them says, and counts what all of them stored. -/
structure FinishServed (h : ZstdSqueezer S) (out : Span)
    (reply : Reply (ZstdSqueezer S) Progress) : Prop where
  calls : ∃ earlier last,
    EndCalls S h.ctx { size := out.size, pos := 0 } (earlier ++ [last]) ∧
      reply.calls.length = (earlier ++ [last]).length ∧
      (earlier ++ [last]).length ≤ out.size + 1 ∧
      reply.written = storedBy (earlier ++ [last]) ∧
      ((∃ e, reply.result = .error e) ↔ S.isError last.ret = true) ∧
      ∀ r, reply.result = .ok r →
        (r.done = true ↔ last.ret = 0) ∧
        r.bytesOut = (storedBy (earlier ++ [last])).length
  room_le : ∀ r, reply.result = .ok r → r.bytesOut ≤ out.size

end ZstdEndLaws

namespace ZstdSqueezer

/-- A `finish` that returns a value, and is not done yet. -/
def Continues (h : ZstdSqueezer S) (out : Span)
    (reply : Reply (ZstdSqueezer S) Progress) (h' : ZstdSqueezer S) : Prop :=
  h.finish out = some reply ∧ reply.handle = h' ∧
    ∃ r, reply.result = .ok r ∧ r.done = false

/-- What a caller finds in its span by the reported count. -/
def produced (out : Span) (reply : Reply (ZstdSqueezer S) Progress) :
    List UInt8 :=
  match reply.result with
  | .ok r => (out.overwrite reply.written).take r.bytesOut
  | .error _ => []

end ZstdSqueezer

namespace ZstdEndLaws

variable (laws : ZstdEndLaws S) {h : ZstdSqueezer S}

theorem finish_loops (unfinished : laws.pending h.ctx ≠ []) (out : Span) :
    ∃ reply earlier last, h.finish out = some reply ∧
      laws.Loops h { size := out.size, pos := 0 } [] [] reply earlier last :=
  laws.finishLoop_loops [] [] unfinished (Nat.zero_le _) (Nat.lt_succ_self _)

theorem finish_served (unfinished : laws.pending h.ctx ≠ []) (out : Span) :
    ∃ reply, h.finish out = some reply ∧ FinishServed h out reply := by
  obtain ⟨reply, earlier, last, returned, loops⟩ :=
    laws.finish_loops unfinished out
  have roomLe := loops.room_le
  have written := loops.written
  refine ⟨reply, returned,
    ⟨earlier, last, loops.calls, ?_, ?_, written, ?_, ?_⟩, ?_⟩
  · rw [loops.ledger]
    simp
  · have few := loops.few
    simp only [List.length_append, List.length_singleton]
    exact Nat.succ_le_succ few
  · cases failed : S.isError last.ret with
    | true => simp [loops.failed failed]
    | false => simp [loops.served failed]
  · intro r ok
    cases failed : S.isError last.ret with
    | true => simp [loops.failed failed] at ok
    | false =>
        rw [loops.served failed] at ok
        cases ok
        simp
  · intro r ok
    cases failed : S.isError last.ret with
    | true => simp [loops.failed failed] at ok
    | false =>
        rw [loops.served failed] at ok
        cases ok
        simpa [OutBuffer.room] using roomLe

/-- A `finish` that returns a value hands out the front of what is pending. -/
theorem finish_hands (unfinished : laws.pending h.ctx ≠ []) {out : Span}
    {reply : Reply (ZstdSqueezer S) Progress}
    (returned : h.finish out = some reply) {r : Progress}
    (ok : reply.result = .ok r) :
    laws.pending h.ctx =
        ZstdSqueezer.produced out reply ++ laws.pending reply.handle.ctx ∧
      (r.done = true ↔ laws.pending reply.handle.ctx = []) := by
  obtain ⟨reply', earlier, last, returned', loops⟩ :=
    laws.finish_loops unfinished out
  have same : reply' = reply := Option.some.inj (returned'.symm.trans returned)
  subst same
  cases failed : S.isError last.ret with
  | true =>
      rw [loops.failed failed] at ok
      cases ok
  | false =>
      obtain ⟨front, empty⟩ := loops.front failed
      have served := loops.served failed
      have written : reply'.written = storedBy (earlier ++ [last]) :=
        loops.written
      rw [served] at ok
      cases ok
      have found : ZstdSqueezer.produced out reply' =
          storedBy (earlier ++ [last]) := by
        simp only [ZstdSqueezer.produced, served, Nat.zero_add]
        rw [← written, Span.take_overwrite]
      rw [found]
      exact ⟨front, by simpa using empty⟩

theorem continues_hands {h' : ZstdSqueezer S} {out : Span}
    {reply : Reply (ZstdSqueezer S) Progress}
    (unfinished : laws.pending h.ctx ≠ [])
    (continues : h.Continues out reply h') :
    laws.pending h.ctx = ZstdSqueezer.produced out reply ++
    laws.pending h'.ctx ∧
      laws.pending h'.ctx ≠ [] := by
  obtain ⟨returned, rfl, r, ok, notDone⟩ := continues
  obtain ⟨front, done⟩ := laws.finish_hands unfinished returned ok
  refine ⟨front, ?_⟩
  intro empty
  rw [done.mpr empty] at notDone
  cases notDone

end ZstdEndLaws

/-- From any context with something pending, every `finish` returns within its
room and says how its last engine call went, and calling it until it is done
yields exactly what was pending. -/
theorem finish_drains (laws : ZstdEndLaws S) (h : ZstdSqueezer S)
    (unfinished : laws.pending h.ctx ≠ []) :
    (∀ out : Span, ∃ reply, h.finish out = some reply ∧
      ZstdEndLaws.FinishServed h out reply) ∧
    (∀ trace h' out reply r, Run ZstdSqueezer.Continues h trace h' →
      h'.finish out = some reply → reply.result = .ok r → r.done = true →
      (trace.flatMap fun entry => ZstdSqueezer.produced entry.1 entry.2) ++
        ZstdSqueezer.produced out reply = laws.pending h.ctx) := by
  refine ⟨laws.finish_served unfinished, ?_⟩
  intro trace h' out reply r run returned ok done
  obtain ⟨front, left⟩ :=
    run.drains (fun h => laws.pending h.ctx) ZstdSqueezer.produced
    laws.continues_hands unfinished
  obtain ⟨rest, empty⟩ := laws.finish_hands left returned ok
  rw [front, rest, empty.mp done, List.append_nil]

/-- A zstd squeezer that has been given nothing. -/
def blankSqueezer : ZstdSqueezer unixBuild.zstd :=
  .make unixBuild.zstd .zstd ⟨3⟩

/-- Its frame, drained four bytes at a time. -/
theorem finish_drains_short :
    let laws := unixLaws.compress.endLaws
    let out : Span := .zeros 4 (by decide)
    (∃ reply, blankSqueezer.finish out = some reply ∧
      ZstdEndLaws.FinishServed blankSqueezer out reply) ∧
    ∃ first second third, blankSqueezer.finish out = some first ∧
      first.handle.finish out = some second ∧
      second.handle.finish out = some third ∧
      ZstdSqueezer.produced out first ++ ZstdSqueezer.produced out second ++
        ZstdSqueezer.produced out third = laws.pending blankSqueezer.ctx := by
  intro laws out
  obtain ⟨served, drained⟩ := finish_drains laws blankSqueezer (by decide)
  let first := (blankSqueezer.finish out).get (by decide)
  let second := (first.handle.finish out).get (by decide)
  let third := (second.handle.finish out).get (by decide)
  have returned₁ : blankSqueezer.finish out = some first :=
    (Option.some_get _).symm
  have returned₂ : first.handle.finish out = some second :=
    (Option.some_get _).symm
  have returned₃ : second.handle.finish out = some third :=
    (Option.some_get _).symm
  have run : Run ZstdSqueezer.Continues blankSqueezer
      [(out, first), (out, second)] second.handle :=
    .cons ⟨returned₁, rfl, ⟨0, 4, false⟩, by decide, rfl⟩
      (.one ⟨returned₂, rfl, ⟨0, 4, false⟩, by decide, rfl⟩)
  have all := drained _ _ out third ⟨0, 1, true⟩ run returned₃ (by decide) rfl
  refine ⟨served out, first, second, third, returned₁, returned₂, returned₃, ?_⟩
  simpa using all

end Polliwog
