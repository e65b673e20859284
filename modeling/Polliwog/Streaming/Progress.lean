import Polliwog.Codec.Loop
import Polliwog.Streaming.Completion
import Polliwog.Streaming.Accounting

/-!
# Whether a caller's loop ends

A push moves on whenever the engine is shown some input and some room.  The
windows that zlib is shown are the low halves of two sizes, and may be empty
though the spans are not.
-/

namespace Polliwog

open Codec

variable {B : Build}

/-- A push fails, reports the end, or reports that something moved. -/
def Progresses (result : Except Error StreamResult) : Prop :=
  ∀ r, result = .ok r → r.done = true ∨ 0 < r.bytesConsumed ∨
  0 < r.bytesProduced

/-- A caller in the middle of its loop. -/
structure Pushing (σ : Type) where
  handle : σ
  left : Span
  calls : Nat

/-- One round of the loop: push what is left, advance by the report. -/
def pushOnce {σ : Type} (push : σ → Span → Span → Reply σ StreamResult)
    (outs : Nat → Span) (p : Pushing σ) : Pushing σ ⊕ Pushing σ :=
  if p.left.size = 0 then .inl p
  else
    let reply := push p.handle p.left (outs p.calls)
    match reply.result with
    | .error _ => .inl { p with handle := reply.handle }
    | .ok r =>
        let next : Pushing σ :=
          { handle := reply.handle
            left := p.left.subspan r.bytesConsumed
            calls := p.calls + 1 }
        if r.done then .inl next else .inr next

theorem pushOnce_inr {σ : Type} {push : σ → Span → Span → Reply σ StreamResult}
    {outs : Nat → Span} {p next : Pushing σ}
    (round : pushOnce push outs p = .inr next) :
    ∃ r, 0 < p.left.size ∧
    (push p.handle p.left (outs p.calls)).result = .ok r ∧
      r.done = false ∧ next.handle =
        (push p.handle p.left (outs p.calls)).handle ∧
      next.left = p.left.subspan r.bytesConsumed := by
  unfold pushOnce at round
  split at round
  · cases round
  case isFalse nonempty =>
    cases result : (push p.handle p.left (outs p.calls)).result with
    | error e => simp [result] at round
    | ok r =>
        simp only [result] at round
        split at round
        · cases round
        case isFalse goesOn =>
          cases round
          exact ⟨r, Nat.pos_of_ne_zero nonempty, rfl,
            Bool.eq_false_iff.mpr goesOn, rfl, rfl⟩

theorem pushOnce_inl {σ : Type} {push : σ → Span → Span → Reply σ StreamResult}
    {outs : Nat → Span} {p last : Pushing σ}
    (round : pushOnce push outs p = .inl last) :
    last.left = p.left ∨ ∃ r,
    (push p.handle p.left (outs p.calls)).result = .ok r ∧
      last.left = p.left.subspan r.bytesConsumed := by
  unfold pushOnce at round
  split at round
  · cases round
    exact .inl rfl
  · cases result : (push p.handle p.left (outs p.calls)).result with
    | error e =>
        simp only [result] at round
        cases round
        exact .inl rfl
    | ok r =>
        simp only [result] at round
        split at round
        · cases round
          exact .inr ⟨r, rfl, rfl⟩
        · cases round

/-- The engine of a format is shown some of each of the spans of this size. -/
def Shows (f : Format) (size : Nat) : Prop := 0 < reach f size

instance (f : Format) (size : Nat) : Decidable (Shows f size) :=
  inferInstanceAs (Decidable (0 < _))

theorem shows_of_lt {f : Format} {size : Nat}
    (small : f = .zstd ∨ size < 2 ^ 32) (positive : 0 < size) :
    Shows f size := by
  rcases small with rfl | short
  · exact positive
  · rw [Shows, reach_of_lt f short]
    exact positive

/-- A loop that pushes all of an input returns. -/
def Ends {σ : Type} (push : σ → Span → Span → Reply σ StreamResult)
    (outs : Nat → Span) (handle : σ) (input : Span) : Prop :=
  ∃ fuel, (loop (pushOnce push outs) fuel ⟨handle, input, 0⟩).isSome

/-- A loop returns that has used up its input. -/
def UsesUp {σ : Type} (push : σ → Span → Span → Reply σ StreamResult)
    (outs : Nat → Span) (handle : σ) (input : Span) : Prop :=
  ∃ fuel last, loop (pushOnce push outs) fuel ⟨handle, input, 0⟩ = some last ∧
    last.left.size = 0

/-- Pushes go on as far as the engine is shown something, and then loops end. -/
structure Advances {σ : Type} (B : Build) (f : Format)
    (push : σ → Span → Span → Reply σ StreamResult) (handle : σ) : Prop where
  progresses : ∀ input out, Shows f input.size → Shows f out.size →
    Progresses (push handle input out).result
  ends : ∀ outs input, (∀ n, Shows f (outs n).size) → f = .zstd ∨
    input.size < 2 ^ 32 → Ends push outs handle input
  needed : CountsExact B f → ∀ outs input, UsesUp push outs handle input →
    f = .zstd ∨ input.size < 2 ^ 32

section Loops

variable {σ : Type} {push : σ → Span → Span → Reply σ StreamResult} {f : Format}
  (Inv : σ → Prop)

/-- A loop over pushes that keep an invariant and use up their input, or
something else, ends. -/
theorem pushing_ends (backlog : σ → Nat)
    (kept : ∀ {handle : σ} {input out : Span} {r : StreamResult}, Inv handle →
      Shows f input.size → Shows f out.size →
      (push handle input out).result = .ok r → r.done = false →
      Inv (push handle input out).handle ∧
      (0 < r.bytesConsumed ∨
        (r.bytesConsumed = 0 ∧ 0 < r.bytesProduced ∧
          backlog (push handle input out).handle < backlog handle)))
    {handle : σ} (holds : Inv handle) {outs : Nat → Span}
    (room : ∀ n, Shows f (outs n).size) {input : Span}
    (small : f = .zstd ∨ input.size < 2 ^ 32) :
    Ends push outs handle input := by
  let Good (p : Pushing σ) : Prop :=
    Inv p.handle ∧ (f = .zstd ∨ p.left.size < 2 ^ 32)
  have good : Good ⟨handle, input, 0⟩ := ⟨holds, small⟩
  refine loop_ends Good (fun p => p.left.size)
    (fun p => backlog p.handle) ?_ good
  intro p next here round
  obtain ⟨holds, small⟩ := here
  obtain ⟨r, positive, ok, goesOn, sameHandle, sameLeft⟩ := pushOnce_inr round
  obtain ⟨still, moved⟩ :=
    kept holds (shows_of_lt small positive) (room p.calls) ok goesOn
  have shorter : next.left.size = p.left.size - r.bytesConsumed := by
    rw [sameLeft, Span.size_subspan]
  refine ⟨⟨sameHandle ▸ still, small.imp_right fun short => by omega⟩, ?_⟩
  rcases moved with consumed | ⟨nothing, -, spent⟩
  · left
    omega
  · right
    rw [sameHandle]
    exact ⟨by omega, spent⟩

/-- A loop over pushes that take no more than a 32-bit window never gets below
the next multiple of 2^32. -/
theorem size_lt_of_usesUp
    (kept : ∀ {handle : σ} {input out : Span} {r : StreamResult}, Inv handle →
      (push handle input out).result = .ok r → r.bytesConsumed ≤
        uInt input.size ∧ (r.done = false → Inv (push handle input out).handle))
    {handle : σ} (holds : Inv handle) {outs : Nat → Span} {input : Span}
    (usesUp : UsesUp push outs handle input) : input.size < 2 ^ 32 := by
  obtain ⟨fuel, last, ended, usedUp⟩ := usesUp
  by_contra large
  have stays {size consumed : Nat} (large : 2 ^ 32 ≤ size) (within : consumed ≤
      uInt size) : 2 ^ 32 ≤ size - consumed := by
    rw [uInt] at within
    omega
  let Large (p : Pushing σ) : Prop := Inv p.handle ∧ 2 ^ 32 ≤ p.left.size
  have start : Large ⟨handle, input, 0⟩ := ⟨holds, Nat.le_of_not_lt large⟩
  have still : 2 ^ 32 ≤ last.left.size := by
    refine loop_result Large (fun p => 2 ^ 32 ≤ p.left.size) ?_ ?_ start ended
    · intro p next here round
      obtain ⟨r, -, ok, goesOn, sameHandle, sameLeft⟩ := pushOnce_inr round
      obtain ⟨within, next⟩ := kept here.1 ok
      refine ⟨sameHandle ▸ next goesOn, ?_⟩
      rw [sameLeft, Span.size_subspan]
      exact stays here.2 within
    · intro p last here round
      rcases pushOnce_inl round with same | ⟨r, ok, sameLeft⟩
      · rw [same]
        exact here.2
      · rw [sameLeft, Span.size_subspan]
        exact stays here.2 (kept here.1 ok).1
  omega

end Loops

namespace EngineLaws

variable (laws : EngineLaws B)
  (deflating : DeflateProgressLaws B.zlib laws.wire laws.deflate)
  (compressing : ZstdProgressLaws B.zstd (laws.wire .zstd) laws.compress)
  {f : Format}

/-- What the engine behind a compressor holds back, at most. -/
def backlog (c : Compressor B) : Nat :=
  match c.handle with
  | .zlibSqueezer h => deflating.backlog h.stream.state
  | .zstdSqueezer h => compressing.backlog h.ctx
  | .zlibStubSqueezer | .zstdStubSqueezer => 0

include deflating in
theorem deflate_moves {h : ZlibSqueezer B.zlib} {input out : Span}
    {r : StreamResult} (opened : ¬ (laws.deflate.view h.stream.state).Ended)
    (shown : 0 < uInt input.size) (room : 0 < uInt out.size)
    (ok : ((⟨.zlibSqueezer h⟩ : Compressor B).push input out).result = .ok r) :
    0 < r.bytesConsumed ∨ (r.bytesConsumed = 0 ∧ 0 < r.bytesProduced ∧
      deflating.backlog
        (B.zlib.deflate (h.stream.load input out) .noFlush).stream.state <
        deflating.backlog h.stream.state) := by
  let loaded := h.stream.load input out
  have window : loaded.offered.length = uInt input.size := input.length_window
  have offers : loaded.offered ≠ [] := by
    apply List.length_pos_iff.mp
    rwa [window]
  have served : (B.zlib.deflate loaded .noFlush).ret = .ok ∨
      (B.zlib.deflate loaded .noFlush).ret = .bufError := by
    rcases or_assoc.mpr
      (laws.deflate.served_or_refused loaded .noFlush (by decide)) with
      served | refused
    · exact served
    · have failed : ((⟨.zlibSqueezer h⟩ : Compressor B).push input out).result =
          .error _ :=
        Reply.map_error (Reply.map_error (h.pushMore_refused input out refused))
      rw [failed] at ok
      cases ok
  have exchange : Compressor.Step ⟨.zlibSqueezer h⟩ (.push input out)
      ((⟨.zlibSqueezer h⟩ : Compressor B).push input out)
      ((⟨.zlibSqueezer h⟩ : Compressor B).push input out).handle :=
    ⟨rfl, rfl⟩
  have accounts := (laws.deflate.compressor_accounts ⟨h, rfl⟩ exchange).2
  obtain ⟨consumed, produced⟩ := accounts.moved B.zlib.ulong_width ok
  have ledger : ((⟨.zlibSqueezer h⟩ : Compressor B).push input out).taken =
      (B.zlib.deflate loaded .noFlush).taken :=
    Nat.add_zero _
  rw [ledger] at consumed
  rcases deflating.progress loaded opened offers room served
    with positive | ⟨stored, spent⟩
  · exact .inl (consumed.mpr positive)
  · rcases Nat.eq_zero_or_pos r.bytesConsumed with nothing | positive
    · refine .inr ⟨nothing, produced stored, ?_⟩
      exact Nat.lt_of_lt_of_le (Nat.lt_add_of_pos_right stored) spent
    · exact .inl positive

include compressing in
theorem compress_moves {h : ZstdSqueezer B.zstd} {input out : Span}
    {r : StreamResult} (opened : ¬ (laws.compress.view h.ctx).Ended)
    (started : ¬ laws.compress.finishing h.ctx) (shown : 0 < input.size)
    (room : 0 < out.size)
    (ok : ((⟨.zstdSqueezer h⟩ : Compressor B).push input out).result = .ok r) :
    0 < r.bytesConsumed ∨ (r.bytesConsumed = 0 ∧ 0 < r.bytesProduced ∧
      compressing.backlog
        (B.zstd.compressStream2 h.ctx { size := out.size, pos := 0 }
        { src := input.bytes, pos := 0 } .continue_).ctx <
          compressing.backlog h.ctx) := by
  let input' : InBuffer := { src := input.bytes, pos := 0 }
  let output' : OutBuffer := { size := out.size, pos := 0 }
  have buffers := laws.compress.within h.ctx output' input' .continue_
  have inPos := buffers.inPos
  have outPos := buffers.outPos
  have offers : input'.offered ≠ [] := List.length_pos_iff.mp shown
  cases failed :
    B.zstd.isError
      (B.zstd.compressStream2 h.ctx output' input' .continue_).ret with
  | true =>
      have refused :
          ((⟨.zstdSqueezer h⟩ : Compressor B).push input out).result =
            .error _ :=
        Reply.map_error (Reply.map_error (if_pos failed))
      rw [refused] at ok
      cases ok
  | false =>
      have served :
          ((⟨.zstdSqueezer h⟩ : Compressor B).push input out).result = .ok _ :=
        Reply.map_ok (Reply.map_ok (h.pushMore_ok input out failed))
      rw [served] at ok
      cases ok
      change 0 < (B.zstd.compressStream2 h.ctx output' input'
          .continue_).input.pos ∨
        ((B.zstd.compressStream2 h.ctx output' input' .continue_).input.pos =
          0 ∧
          0 < (B.zstd.compressStream2 h.ctx output' input'
            .continue_).output.pos ∧ _)
      have progress :=
        compressing.progress h.ctx output' input' opened started offers room
          failed
      rcases progress with positive | ⟨stored, spent⟩
      · left
        omega
      · rcases Nat.eq_zero_or_pos
          (B.zstd.compressStream2 h.ctx output' input'
            .continue_).input.pos with
          nothing | positive
        · refine .inr ⟨nothing, ?_, ?_⟩
          · omega
          · exact Nat.lt_of_lt_of_le (Nat.lt_add_of_pos_right stored) spent
        · exact .inl positive

theorem compressor_moves {c : Compressor B} {input out : Span}
    {r : StreamResult} (holds : laws.Compresses f c) (writing : laws.Writing c)
    (shown : Shows f input.size) (room : Shows f out.size)
    (ok : (c.push input out).result = .ok r) :
    0 < r.bytesConsumed ∨ (r.bytesConsumed = 0 ∧ 0 < r.bytesProduced ∧
      laws.backlog deflating compressing (c.push input out).handle <
        laws.backlog deflating compressing c) := by
  obtain ⟨handle⟩ := c
  obtain ⟨opened, started⟩ := writing
  cases handle with
  | zlibStubSqueezer => exact holds.elim
  | zstdStubSqueezer => exact holds.elim
  | zlibSqueezer h =>
      rw [Shows, reach_of_mem holds.1] at shown room
      exact laws.deflate_moves deflating opened shown room ok
  | zstdSqueezer h =>
      have isZstd : f = .zstd := holds
      subst isZstd
      exact laws.compress_moves compressing opened started shown room ok

omit deflating compressing

/-- The decompressor is in the middle of a stream. -/
def Reading (f : Format) (d : Decompressor B) : Prop :=
  laws.Decompresses f d ∧ laws.status d = .opened

/-- How much of the content read so far has not been delivered. -/
def undelivered (f : Format) (d : Decompressor B) : Nat :=
  ((laws.wire f).content (laws.decoder d).read).length -
    (laws.decoder d).delivered.length

theorem memory_of_ok {d : Decompressor B} {input out : Span} {r : StreamResult}
    (holds : laws.Decompresses f d) (ok : (d.push input out).result = .ok r) :
    f = .zstd ∨ out.isNull = false := by
  obtain ⟨handle⟩ := d
  cases handle with
  | zlibStubSweller => exact holds.elim
  | zstdStubSweller => exact holds.elim
  | zstdSweller h => exact .inl holds
  | zlibSweller h =>
      right
      apply Bool.eq_false_iff.mpr
      intro null
      have ret :=
        laws.inflate.null_refused (h.stream.load input out) .noFlush null
      have verdict := laws.inflate.push_verdict holds.1 h input out
      apply (verdict.of_ok ok).1
      rw [ret]
      rfl

theorem decompressor_moved {d : Decompressor B} {input out : Span}
    {r : StreamResult} (reading : laws.Reading f d)
    (ok : (d.push input out).result = .ok r) :
    (0 < r.bytesConsumed ↔ 0 < (d.push input out).taken) ∧
      (0 < (d.push input out).written.length → 0 < r.bytesProduced) := by
  obtain ⟨holds, opened⟩ := reading
  obtain ⟨handle⟩ := d
  cases handle with
  | zlibStubSweller => exact holds.elim
  | zstdStubSweller => exact holds.elim
  | zlibSweller h =>
      have exchange : Decompressor.Step ⟨.zlibSweller h⟩ ⟨input, out⟩
          ((⟨.zlibSweller h⟩ : Decompressor B).push input out)
          ((⟨.zlibSweller h⟩ : Decompressor B).push input out).handle :=
        ⟨rfl, rfl⟩
      exact (laws.inflate.decompressor_accounts ⟨h, rfl⟩ exchange).2.moved
        B.zlib.ulong_width ok
  | zstdSweller h =>
      have isZstd : f = .zstd := holds
      subst isZstd
      obtain ⟨taken, signal, call⟩ :=
        laws.push_reads holds opened input (.inl rfl)
      obtain ⟨-, -, counts⟩ := call.verdict.of_ok ok
      obtain ⟨consumed, produced⟩ := counts (.inl rfl)
      rw [consumed, produced, call.ledger]
      exact ⟨Iff.rfl, id⟩

/-- A push that returns a value short of the end has read on. -/
theorem push_goesOn {d : Decompressor B} {input out : Span} {r : StreamResult}
    (reading : laws.Reading f d) (ok : (d.push input out).result = .ok r)
    (goesOn : r.done = false) :
    (∃ taken, laws.Reads f d input out (d.push input out) taken .more) ∧
      laws.Reading f (d.push input out).handle := by
  obtain ⟨holds, opened⟩ := reading
  obtain ⟨taken, signal, call⟩ :=
    laws.push_reads holds opened input (laws.memory_of_ok holds ok)
  obtain ⟨notBad, told, -⟩ := call.verdict.of_ok ok
  cases signal with
  | more => exact ⟨⟨taken, call⟩, call.holds, call.status (by decide)⟩
  | done => simp [goesOn] at told
  | bad => exact absurd rfl notBad

theorem decompressor_moves {d : Decompressor B} {input out : Span}
    {r : StreamResult} (reading : laws.Reading f d) (shown : Shows f input.size)
    (room : Shows f out.size) (ok : (d.push input out).result = .ok r)
    (goesOn : r.done = false) :
    laws.Reading f (d.push input out).handle ∧
      (0 < r.bytesConsumed ∨ (r.bytesConsumed = 0 ∧ 0 < r.bytesProduced ∧
        laws.undelivered f (d.push input out).handle <
          laws.undelivered f d)) := by
  obtain ⟨consumed, produced⟩ := laws.decompressor_moved reading ok
  obtain ⟨⟨taken, call⟩, still⟩ := laws.push_goesOn reading ok goesOn
  have notBad : Signal.more ≠ .bad := by decide
  refine ⟨still, ?_⟩
  rw [call.ledger] at consumed
  have offers : input.shown f ≠ [] := by
    apply List.length_pos_iff.mp
    rwa [input.length_shown f]
  rcases Nat.eq_zero_or_pos r.bytesConsumed with nothing | positive
  · have noneTaken : taken = 0 := by omega
    have stored : 0 < (d.push input out).written.length := by
      have used := call.decoder.progress rfl offers room
      omega
    have after := call.advances notBad
    have delivered := (call.decoder.delivered_isPrefix notBad).length_le
    rw [noneTaken, List.take_zero] at after delivered
    rw [List.append_nil, List.length_append] at delivered
    refine .inr ⟨nothing, produced stored, ?_⟩
    simp only [undelivered, after, Dec.after, List.append_nil,
      List.length_append]
    omega
  · exact .inl positive

theorem not_progresses {d : Decompressor B} {input out : Span}
    (reading : laws.Reading f d)
    (live : (laws.wire f).Live (laws.decoder d).read)
    (delivered : (laws.decoder d).delivered =
      (laws.wire f).content (laws.decoder d).read)
    (memory : f = .zstd ∨ out.isNull = false) (hidden : ¬ Shows f input.size)
    (exact : CountsExact B f) : ¬ Progresses (d.push input out).result := by
  obtain ⟨taken, signal, call⟩ :=
    laws.push_reads reading.1 reading.2 input memory
  have blank : input.shown f = [] := by
    apply List.length_eq_zero_iff.mp
    rw [input.length_shown f]
    exact Nat.eq_zero_of_not_pos hidden
  have reads := call.decoder
  rw [blank] at reads
  have roomy : ((laws.wire f).content ((laws.decoder d).read ++ [])).length ≤
      (laws.decoder d).delivered.length + reach f out.size := by
    rw [List.append_nil, ← delivered]
    exact Nat.le_add_right _ _
  obtain ⟨isMore, noneTaken, all⟩ :=
    reads.starves (by rwa [List.append_nil]) roomy
  rw [List.append_nil, ← delivered, List.append_right_eq_self] at all
  obtain ⟨r, ok, told, counts⟩ :=
    call.verdict.served (by simp [isMore]) (by simp [isMore])
  obtain ⟨consumed, produced⟩ := counts exact
  intro progresses
  rcases progresses r ok with done | moved | moved
  · rw [told, isMore] at done
    cases done
  · rw [consumed, noneTaken] at moved
    exact Nat.lt_irrefl 0 moved
  · rw [produced, all] at moved
    exact Nat.lt_irrefl 0 moved

theorem reading_of_run (serves : B.Serves f)
    {trace : List (Decompressor.Request × Reply (Decompressor B) StreamResult)}
    {d : Decompressor B}
    (run : Run Decompressor.GoesOn (.construct B f) trace d) :
    laws.Reading f d := by
  obtain ⟨holds, -, opened⟩ := laws.decompresses_construct serves
  refine (run.always (laws.Reading f) (fun _ _ => True) ?_ ⟨holds, opened⟩).2
  intro d request reply d' reading exchange
  obtain ⟨⟨rfl, rfl⟩, r, ok, goesOn⟩ := exchange
  exact ⟨trivial, (laws.push_goesOn reading ok goesOn).2⟩

include deflating compressing in
theorem compressor_advances {c : Compressor B} (holds : laws.Compresses f c)
    (writing : laws.Writing c) : Advances B f Compressor.push c := by
  let Inv (c : Compressor B) : Prop := laws.Compresses f c ∧ laws.Writing c
  have here : Inv c := ⟨holds, writing⟩
  have kept {c : Compressor B} (here : Inv c) (input out : Span) :
      Inv (c.push input out).handle := by
    obtain ⟨kept, still, -⟩ := laws.push_spec here.1 here.2 input out
    exact ⟨kept, still⟩
  refine ⟨?_, ?_, ?_⟩
  · intro input out shown room r ok
    right
    exact (laws.compressor_moves deflating compressing holds writing shown room
      ok).imp_right fun ⟨_, produced, _⟩ => produced
  · intro outs input room small
    refine pushing_ends Inv
      (laws.backlog deflating compressing) ?_ here room small
    intro c input out r here shown room ok _
    exact ⟨kept here input out,
      laws.compressor_moves deflating compressing here.1 here.2 shown room ok⟩
  · intro exact outs input usesUp
    rw [or_iff_not_imp_left]
    intro notZstd
    refine size_lt_of_usesUp Inv ?_ here usesUp
    intro c input out r here ok
    refine ⟨?_, fun _ => kept here input out⟩
    obtain ⟨-, -, call⟩ := laws.push_spec here.1 here.2 input out
    rcases call with idles | ⟨taken, absorbs⟩
    · obtain ⟨e, failed⟩ := idles.failed
      rw [failed] at ok
      cases ok
    · obtain ⟨r', ok', -, counts⟩ := absorbs.result
      rw [ok, Except.ok.injEq] at ok'
      subst ok'
      have within := absorbs.encoder.taken_le
      rw [input.length_shown f, reach, if_neg notZstd] at within
      exact (counts exact).1.trans_le within

theorem decompressor_advances {d : Decompressor B}
    (reading : laws.Reading f d) :
    Advances B f Decompressor.push d := by
  refine ⟨?_, ?_, ?_⟩
  · intro input out shown room r ok
    rw [or_iff_not_imp_left]
    intro goesOn
    exact (laws.decompressor_moves reading shown room ok
      (Bool.eq_false_iff.mpr goesOn)).2.imp_right
      fun ⟨_, produced, _⟩ => produced
  · intro outs input room small
    exact pushing_ends (laws.Reading f)
      (laws.undelivered f) laws.decompressor_moves reading room small
  · intro exact outs input usesUp
    rw [or_iff_not_imp_left]
    intro notZstd
    refine size_lt_of_usesUp (laws.Reading f) ?_ reading usesUp
    intro d input out r reading ok
    refine ⟨?_, fun goesOn => (laws.push_goesOn reading ok goesOn).2⟩
    obtain ⟨holds, opened⟩ := reading
    obtain ⟨taken, signal, call⟩ :=
      laws.push_reads holds opened input (laws.memory_of_ok holds ok)
    obtain ⟨-, -, counts⟩ := call.verdict.of_ok ok
    have within := call.decoder.taken_le
    rw [input.length_shown f, reach, if_neg notZstd] at within
    exact (counts exact).1.trans_le within

end EngineLaws

/-- In every state that successful calls lead to, short of the end, a push that
shows its engine some input and some room fails, is done, or reports progress;
and a loop over an input ends if, and uses it up only if, zstd reads it or it
has fewer than 2^32 bytes. -/
theorem advances_of_run (laws : EngineLaws B)
    (deflating : DeflateProgressLaws B.zlib laws.wire laws.deflate)
    (compressing : ZstdProgressLaws B.zstd (laws.wire .zstd) laws.compress)
    {f : Format} {lvl : ZlibLevel} (serves : B.Serves f)
    (accepted : Accepts f lvl) :
    (∀ trace c, Run Compressor.Feeds (.of B f lvl) trace c →
      Advances B f Compressor.push c) ∧
    (∀ trace d, Run Decompressor.GoesOn (.construct B f) trace d →
      Advances B f Decompressor.push d) := by
  constructor
  · intro trace c run
    obtain ⟨holds, writing⟩ := laws.writing_of_run serves accepted run
    exact laws.compressor_advances deflating compressing holds writing
  · intro trace d run
    exact laws.decompressor_advances (laws.reading_of_run serves run)

theorem advances_zlib :
    Progresses ((Compressor.of unixBuild .zlib ⟨0⟩).push fiveBytes
      (.zeros 32 (by decide))).result ∧
      Ends Decompressor.push (fun _ => .zeros 1 (by decide))
        (.construct unixBuild .zlib) fiveBytes := by
  have serves : unixBuild.Serves .zlib := by decide
  have accepted : Accepts .zlib ⟨0⟩ := by decide
  obtain ⟨compressing, decompressing⟩ :=
    advances_of_run unixLaws (storedProgress 64 unix_wide 3)
      (rawProgress 64 unix_wide 3) serves accepted
  constructor
  · exact (compressing [] _ (.nil _)).progresses _ _ (by decide) (by decide)
  · exact (decompressing [] _ (.nil _)).ends _ _
      (fun _ => by decide) (by decide)

/-- A span of 2^32 bytes is not empty, and a fresh decompressor stands still. -/
theorem not_progresses_of_size (long : Span) (size : long.size = 2 ^ 32) :
    0 < long.size ∧
      ¬ Progresses ((Decompressor.construct unixBuild .zlib).push long
        (.zeros 1 (by decide))).result := by
  have serves : unixBuild.Serves .zlib := by decide
  obtain ⟨holds, fresh, opened⟩ := unixLaws.decompresses_construct serves
  refine ⟨by omega,
    unixLaws.not_progresses ⟨holds, opened⟩ ?_ ?_ (.inr rfl) ?_ (.inr rfl)⟩
  · rw [fresh]
    exact Wire.live_nil _
  · rw [fresh]
    exact (Wire.content_nil _).symm
  · rw [Shows, size]
    decide

theorem not_advances :
    unixBuild.Serves .zlib ∧
    Run Decompressor.GoesOn (.construct unixBuild .zlib) []
      (.construct unixBuild .zlib) ∧
      ∃ long out : Span, 0 < long.size ∧ 0 < out.size ∧
        ¬ Progresses
          ((Decompressor.construct unixBuild .zlib).push long out).result := by
  obtain ⟨positive, still⟩ :=
    not_progresses_of_size (.zeros (2 ^ 32) (by decide)) List.length_replicate
  exact ⟨by decide, .nil _, _, _, positive, by decide, still⟩

end Polliwog
