import Polliwog.Streaming.Finishing
import Polliwog.Session

/-!
# The encoder behind a compressor

Each call on a compressor is one call on the encoder that the engine keeps for
it, or is refused and changes nothing.  zlib is shown 32-bit windows of the
spans, zstd the spans themselves.
-/

namespace Polliwog

open Codec

variable {B : Build}

/-- How much of a size the engine of a format is shown. -/
def reach (f : Format) (size : Nat) : Nat :=
  if f = .zstd then size else uInt size

/-- What the engine of a format is shown of a span. -/
def Span.shown (f : Format) (span : Span) : List UInt8 :=
  span.bytes.take (reach f span.size)

theorem reach_le (f : Format) (size : Nat) : reach f size ≤ size := by
  unfold reach
  split
  · exact le_rfl
  · exact uInt_le size

theorem reach_of_lt (f : Format) {size : Nat} (narrow : size < 2 ^ 32) :
    reach f size = size := by
  unfold reach
  split
  · rfl
  · exact uInt_of_lt narrow

@[simp] theorem reach_zstd (size : Nat) : reach .zstd size = size := rfl

theorem reach_of_mem {f : Format} (member : f ∈ ZlibBackend.formats)
    (size : Nat) :
    reach f size = uInt size :=
  if_neg (ne_zstd_of_mem member)

namespace Span

theorem shown_isPrefix (f : Format) (span : Span) :
    span.shown f <+: span.bytes :=
  List.take_prefix _ _

theorem length_shown (f : Format) (span : Span) :
    (span.shown f).length = reach f span.size := by
  have within := reach_le f span.size
  simp only [shown, List.length_take, size] at within ⊢
  omega

theorem shown_of_lt (f : Format) {span : Span} (narrow : span.size < 2 ^ 32) :
    span.shown f = span.bytes := by
  rw [shown, reach_of_lt f narrow]
  exact List.take_length

@[simp] theorem shown_zstd (span : Span) : span.shown .zstd = span.bytes :=
  List.take_length

theorem shown_of_mem {f : Format} (member : f ∈ ZlibBackend.formats)
    (span : Span) :
    span.shown f = span.window := by
  rw [shown, reach_of_mem member, window]

end Span

/-- Where the counters that progress is read off cannot wrap visibly. -/
def CountsExact (B : Build) (f : Format) : Prop :=
  f = .zstd ∨ B.zlib.ulongBits = 64

namespace EncodingLaws

variable (laws : EncodingLaws B)

/-- The encoder behind a compressor. -/
def encoder (c : Compressor B) : Enc UInt8 :=
  match c.handle with
  | .zlibSqueezer h => laws.deflate.view h.stream.state
  | .zstdSqueezer h => laws.compress.view h.ctx
  | .zlibStubSqueezer | .zstdStubSqueezer => ⟨[], [], []⟩

/-- The compressor makes streams of a format. -/
def Compresses (f : Format) (c : Compressor B) : Prop :=
  match c.handle with
  | .zlibSqueezer h =>
      f ∈ ZlibBackend.formats ∧ laws.deflate.container h.stream.state = f
  | .zstdSqueezer _ => f = .zstd
  | .zlibStubSqueezer | .zstdStubSqueezer => False

/-- The stream is open and no call has begun to end it. -/
def Writing (c : Compressor B) : Prop :=
  ¬ (laws.encoder c).Ended ∧
    match c.handle with
    | .zstdSqueezer h => ¬ laws.compress.finishing h.ctx
    | _ => True

/-- The refusal of a call: nothing is written and nothing changes. -/
structure Idles (c : Compressor B) (reply : Reply (Compressor B) StreamResult) :
    Prop where
  failed : ∃ e, reply.result = .error e
  written : reply.written = []
  encoder : laws.encoder reply.handle = laws.encoder c

variable {laws} {f : Format}

theorem Compresses.sound {c : Compressor B} (holds : laws.Compresses f c) :
    (laws.encoder c).Sound (laws.wire f) := by
  obtain ⟨handle⟩ := c
  cases handle with
  | zlibSqueezer h =>
      obtain ⟨-, container⟩ := holds
      exact container ▸ laws.deflate.sound h.stream.state
  | zstdSqueezer h =>
      have isZstd : f = .zstd := holds
      exact isZstd ▸ laws.compress.sound h.ctx
  | zlibStubSqueezer => exact holds.elim
  | zstdStubSqueezer => exact holds.elim

variable (laws)

theorem compresses_of (lvl : ZlibLevel) (serves : B.Serves f)
    (accepted : Accepts f lvl) :
    laws.Compresses f (.of B f lvl) ∧
      (laws.encoder (.of B f lvl)).source = [] ∧
      (laws.encoder (.of B f lvl)).output = [] ∧
      laws.Writing (.of B f lvl) := by
  rcases mem_formats_or_zstd serves with ⟨has, member⟩ | ⟨has, rfl⟩
  · have opens := deflateOpens member accepted
    have view := laws.deflate.open_view opens
    have complete := laws.deflate.encode_complete [] opens
    have container := laws.deflate.open_container opens
    simp only [Compressor.of, makeSqueezer_of_zlib member has, Compresses,
      Writing, encoder,
      ZlibSqueezer.make, view, container, Enc.Ended, member, and_self,
      true_and, and_true]
    intro blank
    rw [blank] at complete
    exact (laws.wire f).not_complete_nil complete
  · simp only [Compressor.of, makeSqueezer_of_zstd has, Compresses, Writing,
      encoder, true_and]
    exact laws.compress.open_view lvl.toInt

include laws in
theorem deflate_counts (wide : B.zlib.ulongBits = 64) (h : ZlibSqueezer B.zlib)
    (flush : ZFlush) (input out : Span) :
    counted (h.stream.load input out).totalIn
        (B.zlib.deflate (h.stream.load input out) flush).stream.totalIn =
      (B.zlib.deflate (h.stream.load input out) flush).taken ∧
    counted (h.stream.load input out).totalOut
        (B.zlib.deflate (h.stream.load input out) flush).stream.totalOut =
      (B.zlib.deflate (h.stream.load input out) flush).written.length := by
  exact counted_call wide (laws.deflate.counts _ flush)
    (laws.deflate.windows _ flush)

/-- A call that absorbs and emits, and reports how much of either. -/
structure Absorbs (f : Format) (c : Compressor B) (input out : Span)
    (reply : Reply (Compressor B) StreamResult) (taken : Nat) : Prop where
  encoder : (laws.encoder c).Absorbs (input.shown f)
    (reach f out.size) taken reply.written (laws.encoder reply.handle)
  result : ∃ r, reply.result = .ok r ∧ r.done = false ∧
    (CountsExact B f → r.bytesConsumed = taken ∧
      r.bytesProduced = reply.written.length)

/-- A flush that was served: what it left room after can all be decoded. -/
structure Syncs (f : Format) (c : Compressor B) (out : Span)
    (reply : Reply (Compressor B) StreamResult) : Prop where
  encoder :
    (laws.encoder c).Syncs (laws.wire f) (reach f out.size) reply.written
    (laws.encoder reply.handle)
  result : ∃ r, reply.result = .ok r ∧ r.done = false ∧ r.bytesConsumed = 0 ∧
    (CountsExact B f → r.bytesProduced = reply.written.length)

theorem width_of_countsExact (exact : CountsExact B f)
    (member : f ∈ ZlibBackend.formats) :
    B.zlib.ulongBits = 64 :=
  exact.resolve_left (ne_zstd_of_mem member)

/-- A push on an open stream is refused or absorbs. -/
theorem push_spec {c : Compressor B} (holds : laws.Compresses f c)
    (writing : laws.Writing c) (input out : Span) :
    laws.Compresses f (c.push input out).handle ∧
    laws.Writing (c.push input out).handle ∧
      (laws.Idles c (c.push input out) ∨
        ∃ taken, laws.Absorbs f c input out (c.push input out) taken) := by
  obtain ⟨handle⟩ := c
  obtain ⟨opened, started⟩ := writing
  cases handle with
  | zlibStubSqueezer => exact holds.elim
  | zstdStubSqueezer => exact holds.elim
  | zlibSqueezer h =>
      obtain ⟨member, container⟩ := holds
      let loaded := h.stream.load input out
      have kept := laws.deflate.container_kept loaded .noFlush
      refine ⟨⟨member, kept.trans container⟩, ?_⟩
      rcases or_assoc.mpr
        (laws.deflate.served_or_refused loaded .noFlush (by decide)) with
        served | refused
      · have absorbs :=
          laws.deflate.absorbs loaded .noFlush (by decide) opened served
        refine ⟨⟨absorbs.opened, trivial⟩,
          .inr ⟨(B.zlib.deflate loaded .noFlush).taken, ?_, _,
          Reply.map_ok (Reply.map_ok (h.pushMore_served input out served)), rfl,
          ?_⟩⟩
        · rw [Span.shown_of_mem member, reach_of_mem member]
          exact absorbs
        · intro exact
          exact laws.deflate_counts
            (width_of_countsExact exact member) h .noFlush input out
      · obtain ⟨-, written, view⟩ :=
          laws.deflate.refused_idle loaded .noFlush refused
        have stillOpen :
            ¬ (laws.deflate.view
              (B.zlib.deflate loaded .noFlush).stream.state).Ended := by
          rw [view]
          exact opened
        exact ⟨⟨stillOpen, trivial⟩, .inl
          ⟨⟨_, Reply.map_error
            (Reply.map_error (h.pushMore_refused input out refused))⟩,
            written, view⟩⟩
  | zstdSqueezer h =>
      have isZstd : f = .zstd := holds
      subst isZstd
      refine ⟨rfl, ?_⟩
      let input' : InBuffer := { src := input.bytes, pos := 0 }
      let output' : OutBuffer := { size := out.size, pos := 0 }
      have buffers := laws.compress.within h.ctx output' input' .continue_
      cases failed :
        B.zstd.isError
          (B.zstd.compressStream2 h.ctx output' input' .continue_).ret with
      | true =>
          obtain ⟨written, view, unstarted⟩ :=
            laws.compress.failed_idle h.ctx output' input' _ failed
          have stillOpen : ¬ (laws.compress.view
              (B.zstd.compressStream2 h.ctx output' input'
                .continue_).ctx).Ended := by
            rw [view]
            exact opened
          exact ⟨⟨stillOpen, mt unstarted started⟩, .inl
            ⟨⟨_, Reply.map_error (Reply.map_error (if_pos failed))⟩,
              written, view⟩⟩
      | false =>
          obtain ⟨absorbs, unstarted⟩ :=
            laws.compress.absorbs h.ctx output' input' .continue_
            (by decide) opened started failed
          refine ⟨⟨absorbs.opened, unstarted⟩,
            .inr ⟨laws.compress.taken h.ctx output' input' .continue_, ?_, _,
            Reply.map_ok (Reply.map_ok (h.pushMore_ok input out failed)), rfl,
            ?_⟩⟩
          · rw [Span.shown_zstd, reach_zstd]
            exact absorbs
          · intro _
            exact ⟨buffers.inPos.trans (Nat.zero_add _),
              buffers.outPos.trans (Nat.zero_add _)⟩

/-- A flush on an open stream is refused or synchronises. -/
theorem flush_spec {c : Compressor B} (holds : laws.Compresses f c)
    (writing : laws.Writing c) (out : Span) :
    laws.Compresses f (c.flush out).handle ∧ laws.Writing (c.flush out).handle ∧
      (laws.Idles c (c.flush out) ∨ laws.Syncs f c out (c.flush out)) := by
  obtain ⟨handle⟩ := c
  obtain ⟨opened, started⟩ := writing
  cases handle with
  | zlibStubSqueezer => exact holds.elim
  | zstdStubSqueezer => exact holds.elim
  | zlibSqueezer h =>
      obtain ⟨member, container⟩ := holds
      let loaded := h.stream.load .empty out
      have nothing : loaded.offered = [] := List.take_nil
      have kept := laws.deflate.container_kept loaded .syncFlush
      refine ⟨⟨member, kept.trans container⟩, ?_⟩
      rcases or_assoc.mpr
        (laws.deflate.served_or_refused loaded .syncFlush (by decide)) with
        served | refused
      · have absorbs :=
          laws.deflate.absorbs loaded .syncFlush (by decide) opened served
        have synced := laws.deflate.synced loaded opened nothing served
        rw [nothing] at absorbs
        refine ⟨⟨absorbs.opened, trivial⟩, .inr ⟨⟨?_, ?_⟩, _,
          Reply.map_ok (Reply.map_ok (h.flush_served out served)),
          rfl, rfl, ?_⟩⟩
        · rw [reach_of_mem member]
          exact absorbs.of_nil
        · rw [reach_of_mem member, ← container]
          exact synced
        · intro exact
          exact (laws.deflate_counts
            (width_of_countsExact exact member) h .syncFlush .empty out).2
      · obtain ⟨-, written, view⟩ :=
          laws.deflate.refused_idle loaded .syncFlush refused
        have stillOpen :
            ¬ (laws.deflate.view
              (B.zlib.deflate loaded .syncFlush).stream.state).Ended := by
          rw [view]
          exact opened
        exact ⟨⟨stillOpen, trivial⟩, .inl
          ⟨⟨_, Reply.map_error (Reply.map_error (h.flush_refused out refused))⟩,
            written, view⟩⟩
  | zstdSqueezer h =>
      have isZstd : f = .zstd := holds
      subst isZstd
      refine ⟨rfl, ?_⟩
      let input' : InBuffer := { src := [], pos := 0 }
      let output' : OutBuffer := { size := out.size, pos := 0 }
      have buffers := laws.compress.within h.ctx output' input' .flush
      cases failed :
        B.zstd.isError
          (B.zstd.compressStream2 h.ctx output' input' .flush).ret with
      | true =>
          obtain ⟨written, view, unstarted⟩ :=
            laws.compress.failed_idle h.ctx output' input' _ failed
          have stillOpen : ¬ (laws.compress.view
              (B.zstd.compressStream2 h.ctx output' input'
                .flush).ctx).Ended := by
            rw [view]
            exact opened
          exact ⟨⟨stillOpen, mt unstarted started⟩, .inl
            ⟨⟨_, Reply.map_error (Reply.map_error (if_pos failed))⟩,
              written, view⟩⟩
      | false =>
          obtain ⟨absorbs, unstarted⟩ :=
            laws.compress.absorbs h.ctx output' input' .flush
            (by decide) opened started failed
          have synced :=
            laws.compress.synced h.ctx output' input' opened started rfl failed
          refine ⟨⟨absorbs.opened, unstarted⟩,
            .inr ⟨⟨absorbs.of_nil, synced⟩, _,
            Reply.map_ok (Reply.map_ok (h.flush_ok out failed)), rfl, rfl, ?_⟩⟩
          intro _
          exact buffers.outPos.trans (Nat.zero_add _)

/-- A finish that was served: it emits what is left as far as there is room,
and says that it is done either way. -/
structure Finishes (f : Format) (c : Compressor B) (out : Span)
    (reply : Reply (Compressor B) StreamResult) : Prop where
  encoder : (laws.encoder c).Finishes (reach f out.size) reply.written
    (laws.encoder reply.handle)
  result : ∃ r, reply.result = .ok r ∧ r.done = true ∧
    (CountsExact B f → r.bytesProduced = reply.written.length)

/-- A finish on an open stream returns; it is served wherever there is room. -/
theorem finish_spec {c : Compressor B} (holds : laws.Compresses f c)
    (opened : ¬ (laws.encoder c).Ended) (out : Span) :
    ∃ reply, c.finish out = some reply ∧ laws.Compresses f reply.handle ∧
      ((laws.Idles c reply ∧ reach f out.size = 0) ∨
        laws.Finishes f c out reply) := by
  obtain ⟨handle⟩ := c
  cases handle with
  | zlibStubSqueezer => exact holds.elim
  | zstdStubSqueezer => exact holds.elim
  | zlibSqueezer h =>
      obtain ⟨member, container⟩ := holds
      let loaded := h.stream.load .empty out
      have nothing : loaded.offered = [] := List.take_nil
      have kept := laws.deflate.container_kept loaded .finish
      refine ⟨_, rfl, ⟨member, kept.trans container⟩, ?_⟩
      rw [reach_of_mem member]
      cases null : out.isNull with
      | true =>
          left
          have ret := laws.deflate.null_refused loaded .finish null
          obtain ⟨-, written, view⟩ :=
            laws.deflate.refused_idle loaded .finish ret
          have refused :=
            h.push_refused .empty out (by simp [loaded, ret])
              (by simp [loaded, ret])
          refine ⟨⟨⟨_, Reply.map_error (Reply.map_error refused)⟩,
            written, view⟩, ?_⟩
          rw [Span.size, out.null_empty null]
          rfl
      | false =>
          rcases Nat.eq_zero_or_pos (uInt out.size) with noRoom | room
          · left
            obtain ⟨ret, view⟩ := laws.deflate.finish_no_room loaded null noRoom
            have stored := (laws.deflate.windows loaded .finish).2
            have refused := h.push_refused .empty out (by simp [loaded, ret])
              (by simp [loaded, ret])
            have written : (B.zlib.deflate loaded .finish).written = [] :=
              List.length_eq_zero_iff.mp (Nat.le_zero.mp (noRoom ▸ stored))
            exact ⟨⟨⟨_, Reply.map_error (Reply.map_error refused)⟩, written,
              view⟩, noRoom⟩
          · right
            obtain ⟨finishes, ret⟩ :=
              laws.deflate.finishes loaded null opened nothing room
            have served := h.push_served .empty out (by
              rw [ret]
              split <;> simp)
            refine ⟨?_, _, Reply.map_ok (Reply.map_ok served), rfl, ?_⟩
            · rw [reach_of_mem member]
              exact finishes
            · intro exact
              exact (laws.deflate_counts
                (width_of_countsExact exact member) h .finish .empty out).2
  | zstdSqueezer h =>
      have isZstd : f = .zstd := holds
      subst isZstd
      let output : OutBuffer := { size := out.size, pos := 0 }
      have within : output.pos ≤ output.size := Nat.zero_le _
      obtain ⟨reply, new, done, returned, written, finishes, result⟩ :=
        laws.finishLoop_spec [] [] opened within (Nat.lt_succ_self _)
      have same : reply.written = new := written
      refine ⟨_, Compressor.finish_zstd returned, rfl,
        .inr ⟨?_, _, Reply.map_ok result, rfl, ?_⟩⟩
      · rw [reach_zstd]
        exact same ▸ finishes
      · intro _
        change 0 + new.length = reply.written.length
        rw [same, Nat.zero_add]

end EncodingLaws

end Polliwog
