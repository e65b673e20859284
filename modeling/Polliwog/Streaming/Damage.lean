import Polliwog.Streaming.Position
import Polliwog.Streaming.Verdict

/-!
# Where the errors of zlib point

A push fails over damage that is in its chunk, or that an earlier push had no
room left to go on to.  The position of the error counts from the start of the
stream and falls in the chunk.
-/

namespace Polliwog

open Codec Decompressor

variable {B : Build}

/-- The last push filled what zlib was given to write to. -/
def FilledLast (trace : Decompressor.Trace B) : Prop :=
  ∃ earlier request reply r, trace = earlier ++ [(request, reply)] ∧
    reply.result = .ok r ∧ r.bytesProduced = uInt request.out.size

/-- What an error says of a chunk that followed on a run. -/
structure Located (W : Wire UInt8) (trace : Decompressor.Trace B) (input : Span)
    (e : Error) :
    Prop where
  damaged : W.Damaged (Decompressor.consumed trace ++ input.bytes)
  late : W.Damaged (Decompressor.consumed trace) → FilledLast trace
  pos_ge : (Decompressor.consumed trace).length ≤ e.pos
  pos_le : e.pos ≤ (Decompressor.consumed trace).length + input.size

theorem ZlibSweller.pushMore_failed {h : ZlibSweller B.zlib} {input out : Span}
    {e : Error}
    (failed : ((⟨.zlibSweller h⟩ : Decompressor B).push input out).result =
      .error e) :
    e.pos = (decompressorTotals
      ((⟨.zlibSweller h⟩ : Decompressor B).push input out).handle).1.toNat := by
  simp only [Decompressor.push, SwellerVariant.pushVisitor, Reply.map,
    pushMore] at failed
  split at failed
  · cases failed
  · split at failed
    · cases failed
    · cases failed
      rfl

namespace EngineLaws

variable (laws : EngineLaws B) {f : Format}

/-- The caller has been told the truth, the counter of zlib agrees, and damage
has only been passed for want of room. -/
structure Counts (f : Format) (trace : Decompressor.Trace B)
    (d : Decompressor B) : Prop where
  tells : laws.Tells f trace d
  position : (decompressorTotals d).1.toNat =
    (Decompressor.consumed trace).length % 2 ^ B.zlib.ulongBits
  late : (laws.wire f).Damaged (Decompressor.consumed trace) → FilledLast trace

variable {laws} {trace : Decompressor.Trace B} {d d' : Decompressor B}
  {request : Request} {reply : Reply (Decompressor B) StreamResult}

theorem exists_zlib (holds : laws.Decompresses f d)
    (member : f ∈ ZlibBackend.formats) :
    ∃ h, d = ⟨.zlibSweller h⟩ := by
  obtain ⟨handle⟩ := d
  cases handle with
  | zlibStubSweller => exact holds.elim
  | zstdStubSweller => exact holds.elim
  | zstdSweller h => exact absurd holds (ne_zstd_of_mem member)
  | zlibSweller h => exact ⟨h, rfl⟩

/-- The counter after any push, failed or not. -/
theorem Counts.moved (counts : laws.Counts f trace d)
    (member : f ∈ ZlibBackend.formats) (step : d.Step request reply d') :
    (decompressorTotals d').1.toNat =
        ((Decompressor.consumed trace).length +
          reply.taken) % 2 ^ B.zlib.ulongBits ∧
      reply.taken ≤ request.input.size := by
  obtain ⟨-, account⟩ :=
    laws.inflate.decompressor_accounts
      (exists_zlib counts.tells.holds member) step
  refine ⟨?_, account.taken_le.trans (uInt_le _)⟩
  rw [account.totalIn, BitVec.toNat_add, BitVec.toNat_ofNat, counts.position,
    ← Nat.add_mod]

theorem Counts.goesOn (counts : laws.Counts f trace d)
    (member : f ∈ ZlibBackend.formats) (exact : CountsExact B f)
    (goesOn : GoesOn d request reply d') :
    laws.Counts f (trace ++ [(request, reply)]) d' := by
  have tells := counts.tells.goesOn exact goesOn
  obtain ⟨step, r, ok, short⟩ := goesOn
  obtain ⟨moved, -⟩ := counts.moved member step
  obtain ⟨rfl, rfl⟩ := step
  obtain ⟨⟨taken, reads⟩, -⟩ :=
    laws.push_goesOn ⟨counts.tells.holds, counts.tells.opened⟩ ok short
  have consumed := (reads.reported exact ok).1
  refine ⟨tells, ?_, ?_⟩
  · have count := congrArg List.length consumed
    rw [List.length_take, Nat.min_eq_left reads.decoder.taken_le,
      ← reads.ledger] at count
    rw [moved, consumed_concat, List.length_append]
    exact congrArg (fun count => (_ + count) % _) count.symm
  · intro damaged
    have decoder := reads.decoder
    rw [counts.tells.decoder] at decoder
    rw [consumed_concat, consumed] at damaged
    have inside := Dec.Reads.read_take_isPrefix
      ⟨Decompressor.consumed trace, Decompressor.produced trace⟩
      (request.input.shown f) taken
    have full := decoder.held rfl (damaged.mono inside)
    obtain ⟨-, -, told⟩ := reads.verdict.of_ok ok
    rw [reach_of_mem member] at full
    exact ⟨trace, request, _, r, rfl, ok, (told exact).2.trans full⟩

theorem counts_of_run (member : f ∈ ZlibBackend.formats)
    (has : B.hasZlib = true) (exact : CountsExact B f)
    (run : Run GoesOn (.construct B f) trace d) :
    laws.Counts f trace d := by
  have zeroIn :=
    (laws.inflate.open_counts (windowContainer_windowBitsFor member)).1
  have handle : Decompressor.construct B f = ⟨.zlibSweller (.make B.zlib f)⟩ :=
    congrArg Decompressor.mk (makeSweller_of_zlib member has)
  have start : laws.Counts f [] (.construct B f) := by
    refine ⟨laws.tells_construct (.inl ⟨has, member⟩), ?_, ?_⟩
    · rw [handle]
      change (B.zlib.inflateInit2 (windowBitsFor f)).totalIn.toNat = _
      simp [zeroIn, Decompressor.consumed]
    · exact fun damaged => absurd damaged (laws.wire f).live_nil.not_damaged
  exact run.history (laws.Counts f)
    (fun counts goesOn => counts.goesOn member exact goesOn) start

end EngineLaws

/-- After any run of pushes on a zlib decompressor, and with memory to write to,
a push that fails says that the stream is corrupt; and it is, by the end of the
chunk, and before that only if the push before had its room filled.  The
position lies in the chunk, counted from the start of the stream. -/
theorem damage_located (laws : EngineLaws B) {f : Format}
    (member : f ∈ ZlibBackend.formats) (has : B.hasZlib = true)
    (wide : B.zlib.ulongBits = 64) {trace : Decompressor.Trace B}
    {d : Decompressor B} (run : Run GoesOn (.construct B f) trace d)
    {input out : Span} {e : Error} (notNull : out.isNull = false)
    (short : (Decompressor.consumed trace).length + input.size < 2 ^ 64)
    (failed : (d.push input out).result = .error e) :
    e.kind = .streamCorrupt ∧ Located (laws.wire f) trace input e := by
  have counts : laws.Counts f trace d :=
    EngineLaws.counts_of_run member has (.inr wide) run
  have tells := counts.tells
  obtain ⟨taken, signal, reads⟩ :=
    laws.push_reads tells.holds tells.opened input (.inr notNull)
  obtain ⟨kind, cause⟩ := reads.of_error failed
  have isBad := cause.resolve_right fun extra => ne_zstd_of_mem member extra.2.1
  have damaged := reads.decoder.bad isBad
  rw [tells.decoder] at damaged
  obtain ⟨h, rfl⟩ := EngineLaws.exists_zlib tells.holds member
  have pos := ZlibSweller.pushMore_failed failed
  have step : Decompressor.Step ⟨.zlibSweller h⟩ ⟨input, out⟩
      ((⟨.zlibSweller h⟩ : Decompressor B).push input out) _ := ⟨rfl, rfl⟩
  obtain ⟨moved, takenLe⟩ := counts.moved member step
  have within : (Decompressor.consumed trace).length +
      ((⟨.zlibSweller h⟩ : Decompressor B).push input out).taken <
        2 ^ B.zlib.ulongBits := by
    rw [wide]
    exact (Nat.add_le_add_left takenLe _).trans_lt short
  rw [moved, Nat.mod_eq_of_lt within] at pos
  refine ⟨kind, damaged.mono ?_, counts.late, ?_, ?_⟩
  · exact (List.prefix_append_right_inj _).mpr (input.shown_isPrefix f)
  · rw [pos]
    exact Nat.le_add_right _ _
  · rw [pos]
    exact Nat.add_le_add_left takenLe _

/-- The first bytes of a zlib stream, up to its trailer. -/
def untrailed : Span :=
  .ofBytes ((unixLaws.packed .zlib ⟨0⟩ fiveBytes).take 12) (by decide)

/-- The push of these. -/
def readUntrailed : Reply (Decompressor unixBuild) StreamResult :=
  (Decompressor.construct unixBuild .zlib).push untrailed fiveSink

/-- Four bytes that are not the trailer of five. -/
def wrongTrailer : Span := .zeros 4 (by decide)

theorem damage_located_five :
    Located (unixLaws.wire .zlib) [(⟨untrailed, fiveSink⟩, readUntrailed)]
      wrongTrailer { kind := .streamCorrupt, backend := .zlib, pos := 16,
                     note := "inflate" } := by
  have served : readUntrailed.result =
      .ok { bytesConsumed := 12, bytesProduced := 5, done := false } := by
    decide
  have run : Run GoesOn (.construct unixBuild .zlib)
      [(⟨untrailed, fiveSink⟩, readUntrailed)] readUntrailed.handle :=
    .one ⟨⟨rfl, rfl⟩, _, served, rfl⟩
  have failed : (readUntrailed.handle.push wrongTrailer fiveSink).result =
      .error { kind := .streamCorrupt, backend := .zlib, pos := 16,
               note := "inflate" } := by
    decide +kernel
  exact (damage_located unixLaws (by decide) rfl rfl run rfl
    (by decide) failed).2

end Polliwog
