import Polliwog.OneShot.Swelling
import Polliwog.Reference.Build

/-!
# What follows a stream

A zlib swell finds input left over after the end of a stream and calls it
corrupt.  A zstd swell leaves the end to the engine, which takes another frame
for more of the same.
-/

namespace Polliwog

open Codec

variable {B : Build}

namespace SwellingLaws

variable (laws : SwellingLaws B) {f : Format} {s t : List UInt8}
  {src dst : Span}

/-- A zlib swell finds what follows a stream if it is shown the end of the
stream and has room for the content. -/
theorem swell_trailing (member : f ∈ ZlibBackend.formats)
    (has : B.hasZlib = true) (complete : (laws.wire f).Complete s)
    (nonempty : t ≠ []) (bytes : src.bytes = s ++ t)
    (notNull : dst.isNull = false) :
    FailsWith .streamCorrupt (swell B f src dst).result ↔
      s.length ≤ uInt src.size ∧
      ((laws.wire f).content s).length ≤ uInt dst.size := by
  obtain ⟨taken, signal, reads, verdict⟩ := laws.sweller_push member notNull
  rw [swell_of_zlib member has, OneShot.ofReply, FailsWith.map_iff]
  have shown : src.window <+: s ++ t := bytes ▸ List.take_prefix _ _
  have start : s <+: s ++ t := List.prefix_append s t
  have notBad : signal ≠ .bad :=
    reads.not_bad complete (List.prefix_or_prefix_of_prefix shown start)
  have longer : s.length < src.size := by
    have positive := List.length_pos_iff.mpr nonempty
    rw [Span.size, bytes, List.length_append]
    omega
  have within : taken ≤ src.size :=
    reads.taken_le.trans (src.length_window.trans_le (uInt_le _))
  constructor
  · intro refused
    cases signal with
    | bad => exact absurd rfl notBad
    | more =>
        exfalso
        rcases Nat.lt_or_ge taken src.size with less | all
        · rw [verdict.short rfl less, FailsWith.error_iff] at refused
          cases refused
        · rw [verdict.whole notBad (le_antisymm within all)] at refused
          exact FailsWith.not_ok refused
    | done =>
        obtain ⟨ended, delivered⟩ := reads.done rfl
        have reached : Dec.fresh.read ++ src.window.take taken <+: src.window :=
          List.take_prefix taken src.window
        have same : Dec.fresh.read ++ src.window.take taken = s :=
          (laws.wire f).complete_unique ended complete
            (reached.trans shown) start
        rw [same] at reached delivered
        have wrote := congrArg List.length delivered
        have inRoom := reads.room_le
        refine ⟨reached.length_le.trans_eq src.length_window, ?_⟩
        rw [← wrote]
        exact inRoom
  · intro whole
    obtain ⟨seen, roomy⟩ := whole
    have reached : s <+: src.window :=
      List.prefix_of_prefix_length_le start shown (by rwa [src.length_window])
    obtain ⟨isDone, same, -⟩ :=
      reads.ends complete reached
        (by rwa [Dec.fresh, List.length_nil, Nat.zero_add])
    have count := congrArg List.length same
    simp only [Dec.fresh, List.nil_append, List.length_take] at count
    have takenLe := reads.taken_le
    exact verdict.extra isDone (by omega)

variable (whole : ZstdSeriesLaws B.zstd (laws.wire .zstd))

/-- A zstd swell takes a series of frames for one, and refuses anything else
that follows a frame. -/
theorem swell_zstd_trailing (has : B.hasZstd = true)
    (complete : (laws.wire .zstd).Complete s) (bytes : src.bytes = s ++ t)
    (roomy : ∀ c, (laws.wire .zstd).Series whole.Skippable t c →
      ((laws.wire .zstd).content s).length + c.length ≤ dst.size) :
    FailsWith .streamCorrupt (swell B .zstd src dst).result ↔
      ∀ c, (laws.wire .zstd).Series whole.Skippable t c →
        B.zstd.isError (((laws.wire .zstd).content s).length + c.length) =
          true := by
  have verdict : FailsWith .streamCorrupt (swell B .zstd src dst).result ↔
      B.zstd.isError (B.zstd.decompress dst.size (s ++ t)).ret = true := by
    rw [swell_of_zstd has, OneShot.ofReply, FailsWith.map_iff]
    simp only [ZstdSweller.push, bytes]
    cases B.zstd.isError
      (B.zstd.decompress dst.size (s ++ t)).ret <;> simp [Zstd.failure]
  have total {c : List UInt8}
      (series : (laws.wire .zstd).Series whole.Skippable t c) :
      (B.zstd.decompress dst.size (s ++ t)).ret =
        ((laws.wire .zstd).content s).length + c.length := by
    have fits := roomy c series
    rw [← List.length_append] at fits ⊢
    exact whole.series dst.size _ _ (.stream complete series) fits
  rw [verdict]
  constructor
  · intro failed c series
    rwa [total series] at failed
  · intro tooLong
    by_cases decodable : ∃ c, (laws.wire .zstd).Series whole.Skippable t c
    · obtain ⟨c, series⟩ := decodable
      rw [total series]
      exact tooLong c series
    · exact whole.trailing dst.size s t complete decodable

end SwellingLaws

/-- What follows a stream is refused exactly when it is not a series of frames
after a frame of zstd (or one whose size reads as an error), and when a zlib
swell is shown all of the stream and has room for all of its content, or has no
memory at all. -/
theorem trailing_refused_iff (laws : SwellingLaws B)
    (whole : ZstdSeriesLaws B.zstd (laws.wire .zstd)) {f : Format}
    {s t : List UInt8} {src dst : Span} (serves : B.Serves f)
    (complete : (laws.wire f).Complete s) (nonempty : t ≠ [])
    (bytes : src.bytes = s ++ t)
    (roomy : f = .zstd → ∀ c, (laws.wire .zstd).Series whole.Skippable t c →
      ((laws.wire f).content s).length + c.length ≤ dst.size) :
    FailsWith .streamCorrupt (swell B f src dst).result ↔
      (f = .zstd ∧ ∀ c, (laws.wire .zstd).Series whole.Skippable t c →
        B.zstd.isError (((laws.wire f).content s).length + c.length) = true) ∨
      (f ≠ .zstd ∧ (dst.isNull = true ∨
        (s.length ≤ uInt src.size ∧
          ((laws.wire f).content s).length ≤ uInt dst.size))) := by
  rcases mem_formats_or_zstd serves with ⟨has, member⟩ | ⟨has, rfl⟩
  case inr =>
    rw [laws.swell_zstd_trailing whole has complete bytes (roomy rfl)]
    simp
  have notZstd : f ≠ .zstd := ne_zstd_of_mem member
  cases null : dst.isNull with
  | false =>
      rw [laws.swell_trailing member has complete nonempty bytes null]
      simp [notZstd]
  | true =>
      obtain ⟨e, refused, corrupt⟩ := laws.inflate.sweller_push_null null
      refine iff_of_true ?_ (.inr ⟨notZstd, .inl rfl⟩)
      rw [swell_of_zlib member has]
      exact ⟨e, OneShot.result_of_error refused, corrupt⟩

/-- One byte after a zlib stream. -/
theorem trailing_refused_zlib :
    FailsWith .streamCorrupt (swell unixBuild .zlib
      (.ofBytes (unixLaws.packed .zlib ⟨0⟩ fiveBytes ++ [0]) (by decide))
      (.zeros 5 (by decide))).result := by
  have complete :
      (unixLaws.wire .zlib).Complete (unixLaws.packed .zlib ⟨0⟩ fiveBytes) :=
    unixLaws.complete_packed (by decide) (by decide)
  have refused : FailsWith .streamCorrupt (swell unixBuild .zlib
      (.ofBytes (unixLaws.packed .zlib ⟨0⟩ fiveBytes ++ [0]) (by decide))
      (.zeros 5 (by decide))).result ↔ _ :=
    trailing_refused_iff unixSwelling (storedSeries 64 unix_wide 3)
      (by decide) complete
      (List.cons_ne_nil 0 []) rfl (fun isZstd => absurd isZstd (by decide))
  exact refused.mpr (.inr ⟨by decide, .inr ⟨by decide, by decide⟩⟩)

/-- A second frame after a frame of zstd is swelled along with it. -/
theorem not_trailing_refused_zstd :
    unixBuild.Serves .zstd ∧
      ∃ s t, (unixLaws.wire .zstd).Complete s ∧ t ≠ [] ∧
        ∃ src dst : Span, src.bytes = s ++ t ∧
          (∀ c, (unixLaws.wire .zstd).Series
            (storedSeries 64 unix_wide 3).Skippable t c →
            ((unixLaws.wire .zstd).content s).length + c.length ≤ dst.size) ∧
          ¬ FailsWith .streamCorrupt
            (swell unixBuild .zstd src dst).result := by
  let s := frame [1, 2, 3, 4, 5]
  let src : Span := .ofBytes (s ++ s) (by decide)
  obtain ⟨complete, content⟩ := complete_frame [1, 2, 3, 4, 5]
  have accepted : (swell unixBuild .zstd src (.zeros 10 (by decide))).result =
      .ok ⟨10⟩ := by
    decide
  refine ⟨by decide, s, s, complete,
    by decide, src, .zeros 10 (by decide), rfl, ?_, ?_⟩
  · intro c series
    have decoded : (RawZstd.decompress (c.length + 5) s).ret = c.length :=
      (storedSeries 64 unix_wide 3).series _ _ _ series (Nat.le_add_right _ _)
    have whole := RawZstd.decompress_frame (c.length + 5) s complete
      (by rw [content]; exact Nat.le_add_left _ _)
    rw [whole, content] at decoded
    change (rawGrammar.wire.content s).length + c.length ≤ 10
    rw [content, ← decoded]
    decide
  · rw [accepted]
    exact FailsWith.not_ok

end Polliwog
