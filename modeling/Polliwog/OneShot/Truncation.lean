import Polliwog.OneShot.Swelling
import Polliwog.Reference.Build

/-!
# Swelling a truncated stream

An engine that runs out of input midway only asks for more, and a zlib swell
takes that for success, or for a lack of room.  Nothing between the engine and
the caller remembers that the stream had not ended.
-/

namespace Polliwog

open Codec

variable {B : Build}

namespace SwellingLaws

variable (laws : SwellingLaws B) {f : Format} {cut dst : Span}

/-- A zlib swell into memory never finds a truncated stream damaged. -/
theorem swell_truncated (member : f ∈ ZlibBackend.formats)
    (has : B.hasZlib = true) {s : List UInt8}
    (complete : (laws.wire f).Complete s) (isPrefix : cut.bytes <+: s)
    (strict : cut.bytes ≠ s) (notNull : dst.isNull = false) :
    ¬ FailsWith .streamCorrupt (swell B f cut dst).result := by
  obtain ⟨taken, signal, reads, verdict⟩ := laws.sweller_push member notNull
  have inside : cut.window <+: cut.bytes := List.take_prefix _ _
  have live : (laws.wire f).Live cut.window :=
    (complete.live_of_strict isPrefix strict).mono inside
  have notBad : signal ≠ .bad :=
    reads.not_bad complete (.inl (inside.trans isPrefix))
  have within : taken ≤ cut.size := reads.taken_le.trans inside.length_le
  intro fails
  obtain ⟨e, refused, corrupt⟩ := fails
  rw [swell_of_zlib member has] at refused
  rcases Nat.lt_or_ge taken cut.size with less | all
  · cases signal with
    | bad => exact notBad rfl
    | done =>
        exact live.not_complete (List.take_prefix _ _) (reads.done rfl).1
    | more =>
        rw [OneShot.result_of_error (verdict.short rfl less)] at refused
        cases refused
        cases corrupt
  · rw [OneShot.result_of_ok (verdict.whole notBad (le_antisymm within all))]
      at refused
    cases refused

include laws in
theorem swell_null (member : f ∈ ZlibBackend.formats) (has : B.hasZlib = true)
    (null : dst.isNull = true) :
    FailsWith .streamCorrupt (swell B f cut dst).result := by
  obtain ⟨e, refused, corrupt⟩ := laws.inflate.sweller_push_null null
  rw [swell_of_zlib member has]
  exact ⟨e, OneShot.result_of_error refused, corrupt⟩

theorem swell_zstd_truncated (has : B.hasZstd = true) {s : List UInt8}
    (complete : (laws.wire .zstd).Complete s) (isPrefix : cut.bytes <+: s)
    (strict : cut.bytes ≠ s) :
    FailsWith .streamCorrupt (swell B .zstd cut dst).result ↔
    cut.bytes ≠ [] := by
  rw [swell_of_zstd has]
  by_cases blank : cut.bytes = []
  · have isOk :
        B.zstd.isError (B.zstd.decompress dst.size cut.bytes).ret = false := by
      rw [blank, laws.oneShot.decompress_nil, laws.oneShot.zero_ok]
    have served : ((ZstdSweller.make B.zstd .zstd).push cut dst).result = .ok
        { bytesIn := cut.size,
          bytesOut := (B.zstd.decompress dst.size cut.bytes).ret
          done := true } := by
      simp only [ZstdSweller.push, isOk, Bool.false_eq_true, ↓reduceIte]
    refine iff_of_false ?_ (not_not.mpr blank)
    intro fails
    obtain ⟨e, refused, -⟩ := fails
    rw [OneShot.result_of_ok served] at refused
    cases refused
  · have isError :=
      laws.oneShot.decompress_truncated dst.size _ s complete isPrefix
      strict blank
    refine iff_of_true ?_ blank
    refine ⟨_, OneShot.result_of_error (e := B.zstd.failure .streamCorrupt
      (B.zstd.decompress dst.size cut.bytes).ret) ?_, rfl⟩
    simp only [ZstdSweller.push, isError, ↓reduceIte]

end SwellingLaws

/-- A truncated stream is refused as damaged exactly when it is a frame of zstd
that was not cut to nothing, or when the destination of a zlib swell is null,
whatever the room. -/
theorem truncated_refused_iff (laws : SwellingLaws B) {f : Format}
    {cut dst : Span} (serves : B.Serves f) {s : List UInt8}
    (complete : (laws.wire f).Complete s) (isPrefix : cut.bytes <+: s)
    (strict : cut.bytes ≠ s) :
    FailsWith .streamCorrupt (swell B f cut dst).result ↔
      (f = .zstd ∧ cut.bytes ≠ []) ∨ (f ≠ .zstd ∧ dst.isNull = true) := by
  rcases mem_formats_or_zstd serves with ⟨has, member⟩ | ⟨has, rfl⟩
  case inr =>
    rw [laws.swell_zstd_truncated has complete isPrefix strict]
    simp
  have notZstd : f ≠ .zstd := ne_zstd_of_mem member
  constructor
  · intro refuses
    refine .inr ⟨notZstd, ?_⟩
    by_contra notNull
    exact laws.swell_truncated member has complete isPrefix strict
      (Bool.eq_false_iff.mpr notNull) refuses
  · intro cause
    rcases cause with ⟨isZstd, -⟩ | ⟨-, null⟩
    · exact absurd isZstd notZstd
    · exact laws.swell_null member has null

theorem truncated_refused_zstd :
    FailsWith .streamCorrupt (swell unixBuild .zstd
      (.ofBytes ((frame [1, 2, 3, 4, 5]).take 10) (by decide))
        (.zeros 5 (by decide))).result := by
  have complete : (unixLaws.wire .zstd).Complete (frame [1, 2, 3, 4, 5]) :=
    (complete_frame [1, 2, 3, 4, 5]).1
  have refused : FailsWith .streamCorrupt (swell unixBuild .zstd
      (.ofBytes ((frame [1, 2, 3, 4, 5]).take 10) (by decide))
        (.zeros 5 (by decide))).result ↔ _ :=
    truncated_refused_iff unixSwelling (by decide) complete
      (List.take_prefix _ _) (by decide)
  exact refused.mpr (.inl ⟨rfl, by decide⟩)

/-- A zlib stream without its checksum is swelled as if it were whole. -/
theorem not_truncated_refused_zlib :
    unixBuild.Serves .zlib ∧
      ∃ s, (unixLaws.wire .zlib).Complete s ∧
        ∃ cut : Span, cut.bytes <+: s ∧ cut.bytes ≠ s ∧
          ∃ dst : Span, ((unixLaws.wire .zlib).content s).length ≤ dst.size ∧
            ¬ FailsWith .streamCorrupt
              (swell unixBuild .zlib cut dst).result := by
  let s := unixLaws.packed .zlib ⟨0⟩ fiveBytes
  let cut : Span := .ofBytes (s.take 12) (by decide)
  let dst : Span := .zeros 5 (by decide)
  have complete : (unixLaws.wire .zlib).Complete s :=
    unixLaws.complete_packed (by decide) (by decide)
  have content : ((unixLaws.wire .zlib).content s).length ≤ dst.size := by
    decide
  have accepted : (swell unixBuild .zlib cut dst).result = .ok ⟨5⟩ := by decide
  refine ⟨by decide, s, complete, cut, List.take_prefix _ _,
    by decide, dst, content, ?_⟩
  rw [accepted]
  exact FailsWith.not_ok

end Polliwog
