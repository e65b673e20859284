import Polliwog.OneShot.Swelling
import Polliwog.Reference.Literal

/-!
# A destination that is too small

A zlib swell takes leftover input for a lack of room, which is right unless
the engine had read everything before the room was full.  The error of zstd
that tells of a lack of room is reported as corruption.
-/

namespace Polliwog

open Codec

variable {B : Build}

theorem not_done_of_short {W : Wire UInt8} {s offered written : List UInt8}
    {room taken : Nat} {signal : Signal}
    (reads : Dec.fresh.Reads W offered room taken written signal)
    (complete : W.Complete s) (inside : offered <+: s)
    (short : room < (W.content s).length) : signal = .more := by
  cases signal with
  | more => rfl
  | bad => exact absurd rfl (reads.not_bad complete (.inl inside))
  | done =>
      obtain ⟨-, -, delivered⟩ := reads.done_inside rfl complete inside
      have wrote : written = W.content s := delivered
      have inRoom := reads.room_le
      rw [wrote] at inRoom
      omega

/-- The last byte of a stream is read although there is no room for all of its
content: the other bytes decode to less than the room, or to just as much and
the last one is no byte of a stored block. -/
def Swallows (W : Wire UInt8) (s : List UInt8) (room : Nat) : Prop :=
  (W.content s.dropLast).length < room ∨
    ((W.content s.dropLast).length = room ∧ ¬ W.Copies s.dropLast)

/-- An inflate that is left without room has read the whole of a raw stream
exactly if the stream is swallowed. -/
theorem InflateRoomLaws.taken_all_iff {Z : Zlib} {wire : Format → Wire UInt8}
    (laws : InflateRoomLaws Z wire) {s : ZStream Z.ulongBits Z.Inflate}
    (cut : CutShort Z wire s)
    (reads : Dec.fresh.Reads (wire .rawDeflate) s.offered s.availOut
      (Z.inflate s .finish).taken (Z.inflate s .finish).written .more)
    (short : s.availOut < ((wire .rawDeflate).content s.offered).length) :
    (Z.inflate s .finish).taken = s.offered.length ↔
      Swallows (wire .rawDeflate) s.offered s.availOut := by
  let W := wire .rawDeflate
  have nonempty : s.offered ≠ [] :=
    fun blank => W.not_complete_nil (blank ▸ cut.complete)
  have parts := List.dropLast_append_getLast nonempty
  have sound := cut.complete.not_damaged (.inl List.prefix_rfl)
  have full : (Z.inflate s .finish).written.length = s.availOut := by
    rcases reads.greedy rfl sound with ⟨-, delivered⟩ | ⟨full, -⟩
    · have inRoom := reads.room_le
      simp only [Dec.fresh, List.nil_append] at delivered
      rw [delivered] at inRoom
      omega
    · exact full
  constructor
  · intro all
    have last : s.offered.take (Z.inflate s .finish).taken =
        s.offered.dropLast ++ [s.offered.getLast nonempty] := by
      rw [Dec.Reads.take_all all, parts]
    have least := laws.frugal s cut _ _ last
    rw [full] at least
    rcases least.lt_or_eq with less | tie
    · exact .inl less
    · refine .inr ⟨tie, fun copies => ?_⟩
      have more := laws.copied s cut _ _ last copies
      omega
  · intro swallows
    by_contra unread
    have less : (Z.inflate s .finish).taken < s.offered.length :=
      lt_of_le_of_ne reads.taken_le unread
    have inside : s.offered.take (Z.inflate s .finish).taken <+:
        s.offered.dropLast := by
      rw [List.dropLast_eq_take]
      exact List.take_prefix_take_left (by omega)
    have delivered : (Z.inflate s .finish).written <+:
        W.content (s.offered.take (Z.inflate s .finish).taken) :=
      reads.delivered_isPrefix (by decide)
    have known := delivered.trans (W.content_mono inside)
    rcases swallows with fewer | ⟨tie, coded⟩
    · have most := full ▸ known.length_le
      exact absurd fewer (Nat.not_lt.mpr most)
    · have whole := known.eq_of_length_le (tie.trans full.symm).le
      have nothingHeld := delivered.eq_of_length_le
        (whole ▸ (W.content_mono inside).length_le)
      have copies := laws.eager s cut less nothingHeld
      apply coded
      obtain ⟨rest, same⟩ := inside
      cases rest with
      | nil => exact (List.append_nil _ ▸ same) ▸ copies
      | cons b rest =>
          exfalso
          have longer :
              W.content (s.offered.take (Z.inflate s .finish).taken) ++ [b] <+:
              W.content s.offered.dropLast := by
            rw [← copies b, ← same]
            apply W.content_mono
            exact ⟨rest, by simp⟩
          rw [← whole, ← nothingHeld] at longer
          have length := longer.length_le
          simp at length

section

variable {wire : Format → Wire UInt8}
  (inflate : InflateLaws B.zlib wire fun _ => False)
  (trailer : InflateTrailerLaws inflate) (room : InflateRoomLaws B.zlib wire)
  {f : Format} {src dst : Span}

include inflate trailer room

/-- A swell without room for the content has read the whole of a stream exactly
if that stream is raw, short enough to be seen whole, and swallowed. -/
theorem swell_taken_iff (member : f ∈ ZlibBackend.formats)
    (complete : (wire f).Complete src.bytes) (notNull : dst.isNull = false)
    (short : dst.size < ((wire f).content src.bytes).length) :
    (B.zlib.inflate ((ZlibSweller.make B.zlib f).stream.load src dst)
      .finish).taken =
        src.size ↔
      f = .rawDeflate ∧ src.size < 2 ^ 32 ∧
        Swallows (wire .rawDeflate) src.bytes (uInt dst.size) := by
  have selects := windowContainer_windowBitsFor member
  have reads := inflate.sweller_reads member src notNull not_false
  have shortRoom : uInt dst.size < ((wire f).content src.bytes).length :=
    (uInt_le dst.size).trans_lt short
  have more := not_done_of_short reads complete (List.take_prefix _ _) shortRoom
  let loaded := (ZlibSweller.make B.zlib f).stream.load src dst
  have takenLe : (B.zlib.inflate loaded .finish).taken ≤ uInt src.size :=
    reads.taken_le.trans_eq src.length_window
  have swallowed (isRaw : f = .rawDeflate) (narrow : src.size < 2 ^ 32) :
      (B.zlib.inflate loaded .finish).taken = src.size ↔
        Swallows (wire .rawDeflate) src.bytes (uInt dst.size) := by
    subst isRaw
    have offered : loaded.offered = src.bytes := Span.window_of_lt narrow
    have cut : CutShort B.zlib wire loaded :=
      ⟨rfl, notNull, offered ▸ complete, more⟩
    simp only [more] at reads
    have law := room.taken_all_iff cut reads (offered ▸ shortRoom)
    rw [offered] at law
    exact law
  constructor
  · intro all
    have narrow : src.size < 2 ^ 32 := by
      have seen := uInt_lt src.size
      have same : (B.zlib.inflate loaded .finish).taken = src.size := all
      omega
    have isRaw : f = .rawDeflate := by
      by_contra notRaw
      have wrapped : f = .zlib ∨ f = .gzip := by
        revert member notRaw
        cases f <;> decide
      have status : inflate.status loaded.state = .opened :=
        inflate.open_status selects
      have view : inflate.view loaded.state = .fresh :=
        inflate.open_view selects
      have container : inflate.container loaded.state = f :=
        inflate.open_container selects
      have unended :=
        trailer.trailer loaded .finish notNull status (container ▸ wrapped) more
      rw [view, container,
        show loaded.offered = src.bytes from Span.window_of_lt narrow,
        Dec.Reads.take_all all] at unended
      exact unended complete
    exact ⟨isRaw, narrow, (swallowed isRaw narrow).mp all⟩
  · intro escapes
    obtain ⟨isRaw, narrow, swallows⟩ := escapes
    exact (swallowed isRaw narrow).mpr swallows

theorem swell_short (member : f ∈ ZlibBackend.formats) (has : B.hasZlib = true)
    (complete : (wire f).Complete src.bytes) (notNull : dst.isNull = false)
    (short : dst.size < ((wire f).content src.bytes).length) :
    FailsWith .bufferTooSmall (swell B f src dst).result ↔
      ¬ (f = .rawDeflate ∧ src.size < 2 ^ 32 ∧
        Swallows (wire .rawDeflate) src.bytes (uInt dst.size)) := by
  have reads := inflate.sweller_reads member src notNull not_false
  have more := not_done_of_short reads complete (List.take_prefix _ _)
    ((uInt_le dst.size).trans_lt short)
  have within :=
    (reads.taken_le.trans_eq src.length_window).trans (uInt_le src.size)
  have verdict := inflate.sweller_verdict member src dst
  rw [← swell_taken_iff inflate trailer room member complete notNull short,
    swell_of_zlib member has, OneShot.ofReply, FailsWith.map_iff]
  constructor
  · intro refused all
    rw [verdict.whole (by rw [more]; decide) all] at refused
    exact FailsWith.not_ok refused
  · intro left
    rw [verdict.short more (lt_of_le_of_ne within left), FailsWith.error_iff]

end

theorem ZstdSeriesLaws.swell_short {W : Wire UInt8}
    (whole : ZstdSeriesLaws B.zstd W) (has : B.hasZstd = true) {src dst : Span}
    (complete : W.Complete src.bytes)
    (short : dst.size < (W.content src.bytes).length) :
    FailsWith .streamCorrupt (swell B .zstd src dst).result := by
  have isError := whole.no_room dst.size src.bytes complete short
  rw [swell_of_zstd has, OneShot.ofReply, FailsWith.map_iff]
  simp only [ZstdSweller.push, isError, ↓reduceIte]
  exact ⟨_, rfl, rfl⟩

/-- A lack of room is reported as such by the zlib backend alone, and there
unless inflate reads the last byte of a raw stream before it finds out. -/
theorem shortage_reported_iff {wire : Format → Wire UInt8}
    (inflate : InflateLaws B.zlib wire fun _ => False)
    (trailer : InflateTrailerLaws inflate) (room : InflateRoomLaws B.zlib wire)
    (whole : ZstdSeriesLaws B.zstd (wire .zstd)) {f : Format} {src dst : Span}
    (serves : B.Serves f) (complete : (wire f).Complete src.bytes)
    (nonempty : 0 < dst.size)
    (short : dst.size < ((wire f).content src.bytes).length) :
    FailsWith .bufferTooSmall (swell B f src dst).result ↔
      f ≠ .zstd ∧
        ¬ (f = .rawDeflate ∧ src.size < 2 ^ 32 ∧
          Swallows (wire .rawDeflate) src.bytes (uInt dst.size)) := by
  rcases mem_formats_or_zstd serves with ⟨has, member⟩ | ⟨has, rfl⟩
  · have notNull := Span.notNull_of_size_pos nonempty
    rw [swell_short inflate trailer room member has complete notNull short]
    simp [ne_zstd_of_mem member]
  · refine iff_of_false ?_ (fun served => served.1 rfl)
    intro tooSmall
    have corrupt := whole.swell_short has complete short
    exact absurd (tooSmall.unique corrupt) (by decide)

/-- Three bytes of room for the five in a gzip stream are reported as such, and
five for the six in a raw stream are not. -/
theorem shortage_reported_three_five :
    FailsWith .bufferTooSmall (swell unixBuild .gzip
      (.ofBytes (unixLaws.packed .gzip ⟨0⟩ fiveBytes) (by decide))
      (.zeros 3 (by decide))).result ∧
    ¬ FailsWith .bufferTooSmall (swell literalBuild .rawDeflate
      (.ofBytes sixLiterals (by decide)) (.zeros 5 (by decide))).result := by
  have complete :
      (unixLaws.wire .gzip).Complete (unixLaws.packed .gzip ⟨0⟩ fiveBytes) :=
    unixLaws.complete_packed (by decide) (by decide)
  have reported : FailsWith .bufferTooSmall (swell unixBuild .gzip
      (.ofBytes (unixLaws.packed .gzip ⟨0⟩ fiveBytes) (by decide))
      (.zeros 3 (by decide))).result ↔ _ :=
    shortage_reported_iff unixLaws.inflate (storedTrailer 64 unix_wide 3)
      (storedRoom 64 unix_wide 3) (storedSeries 64 unix_wide 3)
        (by decide) complete (by decide) (by decide)
  have unreported : FailsWith .bufferTooSmall (swell literalBuild .rawDeflate
      (.ofBytes sixLiterals (by decide)) (.zeros 5 (by decide))).result ↔ _ :=
    shortage_reported_iff (B := literalBuild) literalInflateLaws
      literalTrailerLaws literalRoomLaws literalSeries (by decide)
      complete_sixLiterals (by decide) (by decide)
  refine ⟨reported.mpr ⟨by decide, by simp⟩, fun tooSmall => ?_⟩
  have swallowed : Swallows (literalWire .rawDeflate) sixLiterals 5 :=
    .inr ⟨by decide, LiteralZlib.not_copies _⟩
  exact (unreported.mp tooSmall).2 ⟨rfl, by decide, swallowed⟩

/-- Three bytes of room for the five in a frame of zstd pass for corruption. -/
theorem not_shortage_reported_zstd :
    unixBuild.Serves .zstd ∧
      ∃ src dst : Span, (unixLaws.wire .zstd).Complete src.bytes ∧
      0 < dst.size ∧
        dst.size < ((unixLaws.wire .zstd).content src.bytes).length ∧
        ¬ FailsWith .bufferTooSmall (swell unixBuild .zstd src dst).result := by
  let src : Span := .ofBytes (frame [1, 2, 3, 4, 5]) (by decide)
  have complete : (unixLaws.wire .zstd).Complete src.bytes :=
    (complete_frame [1, 2, 3, 4, 5]).1
  have corrupt : FailsWith .streamCorrupt
      (swell unixBuild .zstd src (.zeros 3 (by decide))).result :=
    (storedSeries 64 unix_wide 3).swell_short rfl complete (by decide)
  refine ⟨by decide, src, .zeros 3 (by decide), complete,
    by decide, by decide, ?_⟩
  intro tooSmall
  exact absurd (tooSmall.unique corrupt) (by decide)

end Polliwog
