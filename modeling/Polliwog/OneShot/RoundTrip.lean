import Polliwog.OneShot.Swelling
import Polliwog.Reference.Build

/-!
# The one-shot round trip

What a squeeze reports written is swelled again into a span of the size of the
source.  A stream that was cut at the output window comes back whole only if
the cut kept everything that carries content.
-/

namespace Polliwog

open Codec

variable {B : Build}

/-- Whatever a squeeze reports written swells back to its input. -/
def RoundTrips (B : Build) (f : Format) (lvl : ZlibLevel)
    (input out dst : Span) :
    Prop :=
  ∀ n, (squeeze B f lvl input out).result = .ok ⟨n⟩ →
    ∀ packed : Span, packed.bytes = (squeeze B f lvl input out).out.take n →
      (swell B f packed dst).result = .ok ⟨input.size⟩ ∧
        (swell B f packed dst).out = input.bytes

namespace SwellingLaws

variable (laws : SwellingLaws B)

theorem swell_frame (has : B.hasZstd = true) {packed dst : Span}
    (complete : (laws.wire .zstd).Complete packed.bytes)
    (fits : ((laws.wire .zstd).content packed.bytes).length ≤ dst.size)
    (sized : B.zstd.isError ((laws.wire .zstd).content packed.bytes).length =
      false) :
    (swell B .zstd packed dst).result =
        .ok ⟨((laws.wire .zstd).content packed.bytes).length⟩ ∧
      (swell B .zstd packed dst).out =
        dst.overwrite ((laws.wire .zstd).content packed.bytes) := by
  obtain ⟨ret, written⟩ :=
    laws.oneShot.decompress_frame dst.size _ complete fits sized
  rw [swell_of_zstd has]
  have served : ((ZstdSweller.make B.zstd .zstd).push packed dst).result =
      .ok
        { bytesIn := packed.size
          bytesOut := ((laws.wire .zstd).content packed.bytes).length, done :=
            true } := by
    simp only [ZstdSweller.push, ret, sized, Bool.false_eq_true, ↓reduceIte]
  refine ⟨OneShot.result_of_ok served, ?_⟩
  simp only [OneShot.ofReply, ZstdSweller.push, written]

variable {f : Format} {dst packed source : Span}

/-- A swell of a stream that is cut or whole delivers all of the source exactly
when the room is memory and the cut kept all of the content. -/
theorem swell_cut_iff (member : f ∈ ZlibBackend.formats)
    (has : B.hasZlib = true) {s : List UInt8}
    (complete : (laws.wire f).Complete s) (isPrefix : packed.bytes <+: s)
    (narrow : packed.size < 2 ^ 32)
    (content : (laws.wire f).content s = source.window)
    (exact : dst.size = source.size) :
    (swell B f packed dst).result = .ok ⟨source.size⟩ ∧
        (swell B f packed dst).out = source.bytes ↔
      dst.isNull = false ∧
        ((laws.wire f).content packed.bytes).length = source.size := by
  have window : packed.window = packed.bytes := Span.window_of_lt narrow
  have decodable : (laws.wire f).content packed.bytes <+: source.window :=
    content ▸ (laws.wire f).content_mono isPrefix
  rw [swell_of_zlib member has]
  cases null : dst.isNull with
  | true =>
      obtain ⟨e, refused, -⟩ :=
        laws.inflate.sweller_push_null null
      rw [OneShot.result_of_error refused]
      simp
  | false =>
      obtain ⟨taken, signal, reads, verdict⟩ :=
        laws.sweller_push member null
      rw [window] at reads
      generalize (ZlibSweller.make B.zlib f).push packed dst =
        reply at reads verdict ⊢
      have notBad : signal ≠ .bad := reads.not_bad complete (.inl isPrefix)
      have delivered : reply.written <+:
          (laws.wire f).content (packed.bytes.take taken) :=
        reads.delivered_isPrefix notBad
      constructor
      · intro served
        obtain ⟨ok, -⟩ := served
        refine ⟨rfl, le_antisymm (decodable.length_le.trans ?_) ?_⟩
        · exact source.length_window.trans_le (uInt_le _)
        obtain ⟨r, result, count⟩ := OneShot.ok_of_result ok
        obtain ⟨all, written⟩ :=
          verdict.taken_of_ok (reads.taken_le : taken ≤ packed.size) result
        rw [Dec.Reads.take_all all] at delivered
        calc
          source.size = reply.written.length := count.symm.trans written
          _ ≤ ((laws.wire f).content packed.bytes).length := delivered.length_le
      · intro served
        obtain ⟨-, all⟩ := served
        have sourceNarrow : source.size < 2 ^ 32 := by
          have fits := decodable.length_le
          rw [all, source.length_window] at fits
          exact lt_of_le_of_lt fits (uInt_lt _)
        have same : (laws.wire f).content packed.bytes = source.bytes := by
          rw [Span.window_of_lt sourceNarrow] at decodable
          exact decodable.eq_of_length all
        have roomy : ((laws.wire f).content packed.bytes).length ≤
            uInt dst.size := by
          rw [all, exact, uInt_of_lt sourceNarrow]
        obtain ⟨takenAll, written⟩ :=
          reads.reads_all complete isPrefix (by simpa [Dec.fresh] using roomy)
        have writtenAll : reply.written = source.bytes := by
          simpa [Dec.fresh, same] using written
        have served := verdict.whole notBad takenAll
        refine ⟨?_, ?_⟩
        · rw [OneShot.result_of_ok served, writtenAll]
          rfl
        · change dst.overwrite reply.written = source.bytes
          rw [writtenAll]
          exact Span.overwrite_all exact.symm

end SwellingLaws

/-- Squeezing and swelling are inverse exactly when the call is zstd's, or is
refused for an empty window, or the destination is memory and the stream, cut
at the output window, still decodes to as many bytes as were put in. -/
theorem round_trips_iff (laws : SwellingLaws B) {f : Format} {lvl : ZlibLevel}
    {input out dst : Span} (serves : B.Serves f) (accepted : Accepts f lvl)
    (roomy : bound B f lvl input.size ≤ out.size)
    (exact : dst.size = input.size) :
    RoundTrips B f lvl input out dst ↔
      f = .zstd ∨ uInt out.size = 0 ∨
        (dst.isNull = false ∧
          ((laws.wire f).content
            ((laws.packed f lvl input).take (uInt out.size))).length =
            input.size) := by
  rcases mem_formats_or_zstd serves with ⟨has, member⟩ | ⟨has, rfl⟩
  case inr =>
    refine ⟨fun _ => .inl rfl, fun _ n ok packed same => ?_⟩
    obtain ⟨complete, content, -, sized⟩ := laws.squeeze_zstd_ok has roomy ok
    rw [← same] at complete content
    have fits : ((laws.wire .zstd).content packed.bytes).length = dst.size := by
      rw [content]
      exact exact.symm
    obtain ⟨result, stored⟩ :=
      laws.swell_frame has complete fits.le (by rw [content]; exact sized)
    rw [content] at result stored
    exact ⟨result, stored.trans (Span.overwrite_all exact.symm)⟩
  rcases Nat.eq_zero_or_pos (uInt out.size) with noRoom | room_pos
  case inl =>
    refine ⟨fun _ => .inr (.inl noRoom), fun _ n ok => ?_⟩
    rw [laws.squeeze_no_room member accepted has roomy noRoom] at ok
    cases ok
  obtain ⟨result, stored⟩ := laws.squeeze_ok member accepted has roomy room_pos
  let count := min (uInt out.size) (laws.packed f lvl input).length
  let cut := stampOs f ((laws.packed f lvl input).take (uInt out.size))
  have cutPrefix : cut <+: stampOs f (laws.packed f lvl input) :=
    stampOs_isPrefix (List.take_prefix _ _)
  have complete :
      (laws.wire f).Complete (stampOs f (laws.packed f lvl input)) :=
    laws.complete_stampOs (laws.complete_packed member accepted)
  have content : (laws.wire f).content (stampOs f (laws.packed f lvl input)) =
      input.window := by
    rw [laws.content_stampOs, laws.content_packed member accepted]
  have narrow : cut.length < 2 ^ 32 := by
    have room := uInt_lt out.size
    simp only [cut, length_stampOs, List.length_take]
    omega
  have returns (packed : Span) (same : packed.bytes = cut) :
      (swell B f packed dst).result = .ok ⟨input.size⟩ ∧
          (swell B f packed dst).out = input.bytes ↔
        dst.isNull = false ∧
          ((laws.wire f).content
            ((laws.packed f lvl input).take (uInt out.size))).length =
            input.size := by
    rw [laws.swell_cut_iff member has complete (same ▸ cutPrefix)
      (by rw [Span.size, same]; exact narrow) content exact,
      same, laws.content_stampOs]
  constructor
  · intro trips
    have fits : cut.length < 2 ^ 64 := narrow.trans (by decide)
    exact .inr (.inr ((returns (Span.ofBytes cut fits) rfl).mp
      (trips count result (Span.ofBytes cut fits) stored.symm)))
  · rintro (isZstd | noRoom | kept) n ok packed same
    · exact absurd isZstd (ne_zstd_of_mem member)
    · omega
    · have sameCount : n = count := by
        rw [result] at ok
        cases ok
        rfl
      subst sameCount
      exact (returns packed (same.trans stored)).mpr kept

theorem round_trips_gzip :
    RoundTrips unixBuild .gzip ⟨0⟩ fiveBytes (.zeros 28 (by decide))
      (.zeros 5 (by decide)) := by
  have roomy : bound unixBuild .gzip ⟨0⟩ fiveBytes.size ≤
      (Span.zeros 28 (by decide)).size := by
    decide
  have trips :
      RoundTrips unixBuild .gzip ⟨0⟩ fiveBytes (.zeros 28 _)
        (.zeros 5 (by decide)) ↔ _ :=
    round_trips_iff unixSwelling (by decide) (by decide) roomy rfl
  exact trips.mpr (.inr (.inr ⟨rfl, by decide⟩))

/-- Five bytes stored in a gzip window of the size of the bound come back as
three, and nobody says so. -/
theorem not_round_trips_gzip :
    unixBuild.Serves .gzip ∧ Accepts .gzip ⟨0⟩ ∧
      bound unixBuild .gzip ⟨0⟩ fiveBytes.size ≤
        (Span.zeros 18 (by decide)).size ∧
      (Span.zeros 5 (by decide)).size = fiveBytes.size ∧
      ¬ RoundTrips unixBuild .gzip ⟨0⟩ fiveBytes (.zeros 18 (by decide))
        (.zeros 5 (by decide)) := by
  refine ⟨by decide, by decide, by decide, rfl, ?_⟩
  intro trips
  let packed : Span := .ofBytes
    ((squeeze unixBuild .gzip ⟨0⟩ fiveBytes (.zeros 18 (by decide))).out.take
      18) (by decide)
  have swelled := (trips 18 (by decide) packed rfl).1
  have short : (swell unixBuild .gzip packed (.zeros 5 (by decide))).result =
      .ok ⟨3⟩ := by
    decide
  rw [short] at swelled
  cases swelled

end Polliwog
