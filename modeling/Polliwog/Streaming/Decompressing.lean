import Polliwog.Streaming.Compressing
import Polliwog.OneShot.Swelling

/-!
# The decoder behind a decompressor

Each push is one call on the decoder that the engine keeps.  The two adapters
differ in what they make of the end of a stream: only the one for zstd looks
at what is left of the input.
-/

namespace Polliwog

open Codec

variable {B : Build}

/-- The verdict of a push on what its decoding call did. -/
structure PushVerdict (B : Build) (f : Format) (input : Span) (taken : Nat)
    (written : List UInt8) (signal : Signal)
    (result : Except Error StreamResult) :
    Prop where
  spoiled : signal = .bad → FailsWith .streamCorrupt result
  extra : signal = .done → f = .zstd → taken < input.size →
    FailsWith .streamCorrupt result
  served : signal ≠ .bad → ¬ (signal = .done ∧ f = .zstd ∧ taken < input.size) →
    ∃ r, result = .ok r ∧ (r.done = true ↔ signal = .done) ∧
      (CountsExact B f → r.bytesConsumed = taken ∧
        r.bytesProduced = written.length)

theorem PushVerdict.of_ok {f : Format} {input : Span} {taken : Nat}
    {written : List UInt8} {signal : Signal}
    {result : Except Error StreamResult} {r : StreamResult}
    (verdict : PushVerdict B f input taken written signal result)
    (ok : result = .ok r) :
    signal ≠ .bad ∧ (r.done = true ↔ signal = .done) ∧
      (CountsExact B f → r.bytesConsumed = taken ∧
        r.bytesProduced = written.length) := by
  have notCorrupt : ¬ FailsWith .streamCorrupt result := by
    rw [ok]
    exact FailsWith.not_ok
  have notBad : signal ≠ .bad := fun bad => notCorrupt (verdict.spoiled bad)
  have notExtra : ¬ (signal = .done ∧ f = .zstd ∧ taken < input.size) :=
    fun ⟨done, isZstd, less⟩ => notCorrupt (verdict.extra done isZstd less)
  obtain ⟨r', ok', done, counts⟩ := verdict.served notBad notExtra
  rw [ok, Except.ok.injEq] at ok'
  subst ok'
  exact ⟨notBad, done, counts⟩

variable {f : Format}

theorem InflateCounters.inflate_counts (laws : InflateCounters B.zlib)
    (wide : B.zlib.ulongBits = 64) (h : ZlibSweller B.zlib)
    (flush : ZFlush) (input out : Span) :
    counted (h.stream.load input out).totalIn
        (B.zlib.inflate (h.stream.load input out) flush).stream.totalIn =
      (B.zlib.inflate (h.stream.load input out) flush).taken ∧
    counted (h.stream.load input out).totalOut
        (B.zlib.inflate (h.stream.load input out) flush).stream.totalOut =
      (B.zlib.inflate (h.stream.load input out) flush).written.length := by
  exact counted_call wide (laws.counts _ flush) (laws.windows _ flush)

theorem InflateCounters.push_verdict (laws : InflateCounters B.zlib)
    (member : f ∈ ZlibBackend.formats) (h : ZlibSweller B.zlib)
    (input out : Span) :
    PushVerdict B f input
      (B.zlib.inflate (h.stream.load input out) .noFlush).taken
      (B.zlib.inflate (h.stream.load input out) .noFlush).written
      (B.zlib.inflate (h.stream.load input out) .noFlush).ret.signal
      ((⟨.zlibSweller h⟩ : Decompressor B).push input out).result where
  spoiled := by
    intro bad
    obtain ⟨notEnd, notMore⟩ := (ZRet.signal_bad_iff _).mp bad
    simp [Decompressor.push, SwellerVariant.pushVisitor, Reply.map,
      ZlibSweller.pushMore, notEnd, notMore]
  extra := fun _ isZstd => absurd isZstd (ne_zstd_of_mem member)
  served := by
    intro notBad _
    have counts (exact : CountsExact B f) :=
      laws.inflate_counts (EncodingLaws.width_of_countsExact exact member) h
        .noFlush input out
    cases signal :
      (B.zlib.inflate (h.stream.load input out) .noFlush).ret.signal with
    | bad => exact absurd signal notBad
    | done =>
        have ret := (ZRet.signal_done_iff _).mp signal
        have served : (h.pushMore input out).result = .ok _ := if_pos ret
        exact ⟨_, Reply.map_ok (Reply.map_ok served), by simp, counts⟩
    | more =>
        obtain ⟨notEnd, ret⟩ := (ZRet.signal_more_iff _).mp signal
        have served : (h.pushMore input out).result = .ok _ :=
          (if_neg notEnd).trans (if_pos ret)
        exact ⟨_, Reply.map_ok (Reply.map_ok served), by simp, counts⟩

theorem ZstdSweller.push_verdict (h : ZstdSweller B.zstd) (input out : Span)
    {taken : Nat}
    (buffers : (B.zstd.decompressStream h.ctx { size := out.size, pos := 0 }
      { src := input.bytes, pos := 0 }).Within { size := out.size, pos := 0 }
        { src := input.bytes, pos := 0 } taken) :
    PushVerdict B .zstd input taken
      (B.zstd.decompressStream h.ctx { size := out.size, pos := 0 }
        { src := input.bytes, pos := 0 }).written
      (B.zstd.signal
        (B.zstd.decompressStream h.ctx { size := out.size, pos := 0 }
        { src := input.bytes, pos := 0 }).ret)
      ((⟨.zstdSweller h⟩ : Decompressor B).push input out).result := by
  have sameSize : (B.zstd.decompressStream h.ctx { size := out.size, pos := 0 }
      { src := input.bytes, pos := 0 }).input.size = input.size := by
    rw [InBuffer.size, buffers.src, Span.size]
  have inPos := buffers.inPos
  have outPos := buffers.outPos
  simp only [Decompressor.push, SwellerVariant.pushVisitor, Reply.map,
    ZstdSweller.pushMore, Zstd.signal, sameSize]
  generalize B.zstd.decompressStream h.ctx { size := out.size, pos := 0 }
    { src := input.bytes, pos := 0 } = call at *
  rw [Nat.zero_add] at inPos outPos
  cases failed : B.zstd.isError call.ret with
  | true => constructor <;> simp [Zstd.failure]
  | false =>
      by_cases done : call.ret = 0
      · rcases Nat.lt_or_ge taken input.size with less | all
        · constructor <;> simp [done, inPos, less, Except.map]
        · constructor <;> simp [done, inPos, outPos,
            Nat.not_lt.mpr all, Except.map]
      · constructor <;> simp [done, inPos, outPos, Except.map]

namespace EngineLaws

variable (laws : EngineLaws B)

/-- The decoder behind a decompressor. -/
def decoder (d : Decompressor B) : Dec UInt8 :=
  match d.handle with
  | .zlibSweller h => laws.inflate.view h.stream.state
  | .zstdSweller h => laws.decompress.view h.ctx
  | .zlibStubSweller | .zstdStubSweller => .fresh

def status (d : Decompressor B) : Dec.Status :=
  match d.handle with
  | .zlibSweller h => laws.inflate.status h.stream.state
  | .zstdSweller h => laws.decompress.status h.ctx
  | .zlibStubSweller | .zstdStubSweller => .failed

/-- The decompressor reads streams of a format. -/
def Decompresses (f : Format) (d : Decompressor B) : Prop :=
  match d.handle with
  | .zlibSweller h =>
      f ∈ ZlibBackend.formats ∧ laws.inflate.container h.stream.state = f
  | .zstdSweller _ => f = .zstd
  | .zlibStubSweller | .zstdStubSweller => False

variable {f : Format}

theorem decompresses_construct (serves : B.Serves f) :
    laws.Decompresses f (.construct B f) ∧
    laws.decoder (.construct B f) = .fresh ∧
      laws.status (.construct B f) = .opened := by
  rcases mem_formats_or_zstd serves with ⟨has, member⟩ | ⟨has, rfl⟩
  · have selects := windowContainer_windowBitsFor member
    simp only [Decompressor.construct, makeSweller_of_zlib member has,
      Decompresses, decoder, status]
    exact ⟨⟨member, laws.inflate.open_container selects⟩,
      laws.inflate.open_view selects, laws.inflate.open_status selects⟩
  · simp only [Decompressor.construct, makeSweller_of_zstd has, Decompresses,
      decoder, status]
    exact ⟨trivial, laws.decompress.open_view, laws.decompress.open_status⟩

/-- A push that reaches the decoder reads. -/
structure Reads (f : Format) (d : Decompressor B) (input out : Span)
    (reply : Reply (Decompressor B) StreamResult) (taken : Nat)
    (signal : Signal) :
    Prop where
  decoder : (laws.decoder d).Reads (laws.wire f) (input.shown f)
    (reach f out.size) taken reply.written signal
  prompt : PromptLaws laws →
    (laws.decoder d).Prompt (laws.wire f) (input.shown f)
      (reach f out.size) signal
  ledger : reply.taken = taken
  holds : laws.Decompresses f reply.handle
  advances : signal ≠ .bad → laws.decoder reply.handle =
    (laws.decoder d).after ((input.shown f).take taken) reply.written
  status : signal ≠ .bad → laws.status reply.handle = signal.status
  failed : InflateIdleLaws laws.inflate → f ≠ .zstd → signal = .bad →
    laws.status reply.handle = .failed
  verdict : PushVerdict B f input taken reply.written signal reply.result

theorem push_reads {d : Decompressor B} (holds : laws.Decompresses f d)
    (opened : laws.status d = .opened) (input : Span) {out : Span}
    (memory : f = .zstd ∨ out.isNull = false) :
    ∃ taken signal,
    laws.Reads f d input out (d.push input out) taken signal := by
  obtain ⟨handle⟩ := d
  cases handle with
  | zlibStubSweller => exact holds.elim
  | zstdStubSweller => exact holds.elim
  | zlibSweller h =>
      obtain ⟨member, container⟩ := holds
      have notNull : out.isNull = false :=
        memory.resolve_left (ne_zstd_of_mem member)
      let loaded := h.stream.load input out
      have reads := laws.inflate.reads loaded .noFlush notNull opened not_false
      have advances := laws.inflate.advances loaded .noFlush notNull opened
      have sameContainer : laws.inflate.container loaded.state = f := container
      rw [sameContainer] at reads
      have kept := laws.inflate.container_kept loaded .noFlush
      refine ⟨(B.zlib.inflate loaded .noFlush).taken,
        (B.zlib.inflate loaded .noFlush).ret.signal,
        ?_, ?_, Nat.add_zero _, ⟨member, kept.trans container⟩, ?_,
        fun notBad => (advances notBad).2,
        fun idle _ => idle.failed loaded .noFlush notNull opened, ?_⟩
      · rw [Span.shown_of_mem member, reach_of_mem member]
        exact reads
      · intro prompt
        have finds := prompt.inflate loaded .noFlush notNull opened
        rw [sameContainer] at finds
        rw [Span.shown_of_mem member, reach_of_mem member]
        exact finds
      · rw [Span.shown_of_mem member]
        exact fun notBad => (advances notBad).1
      · exact laws.inflate.push_verdict member h input out
  | zstdSweller h =>
      have isZstd : f = .zstd := holds
      subst isZstd
      let input' : InBuffer := { src := input.bytes, pos := 0 }
      let output' : OutBuffer := { size := out.size, pos := 0 }
      have reads :=
        laws.decompress.reads h.ctx output' input' opened not_false not_false
        not_false
      have advances := laws.decompress.advances h.ctx output' input' opened
      refine ⟨laws.decompress.taken h.ctx output' input',
        B.zstd.signal (B.zstd.decompressStream h.ctx output' input').ret, ?_,
        ?_, ?_, rfl, ?_,
        fun notBad => (advances notBad).2, fun _ notZstd =>
          absurd rfl notZstd, ?_⟩
      · rw [Span.shown_zstd, reach_zstd]
        exact reads
      · intro prompt
        rw [Span.shown_zstd, reach_zstd]
        exact prompt.decompress h.ctx output' input' opened
      · have moved := (laws.decompress.within h.ctx output' input').inPos
        change (B.zstd.decompressStream h.ctx output' input').input.pos - 0 +
            0 = _
        rw [moved, Nat.add_zero, Nat.sub_zero, Nat.zero_add]
      · rw [Span.shown_zstd]
        exact fun notBad => (advances notBad).1
      · exact h.push_verdict input out
          (laws.decompress.within h.ctx output' input')

end EngineLaws

end Polliwog
