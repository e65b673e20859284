import Polliwog.OneShot.Trailing
import Polliwog.OneShot.Truth
import Polliwog.Streaming.Chunking
import Polliwog.Streaming.Pipe
import Polliwog.Streaming.RoundTrip

/-!
# The two layers side by side

A stream may be made in one call and read in many, or made in many and read in
one.  What one layer wrote the other reads back, and on any input of the zlib
family the two readers are held against each other.
-/

namespace Polliwog

open Codec

variable {B : Build}

/-- A one-shot call agrees with what a caller of the streaming layer arrived at;
an input that was all read without an end is a truncated one. -/
def OneShot.Agrees (call : OneShot) : Outcome → Prop
  | .done decoded =>
      call.result = .ok ⟨decoded.length⟩ ∧
        call.out.take decoded.length = decoded
  | .failed kind => FailsWith kind call.result
  | .incomplete => FailsWith .streamCorrupt call.result

/-- On the zlib family and with room enough (to spare, for damage), a swell
agrees with any caller of the streaming layer, however that one cuts the same
input, if and only if the input is damaged or is one whole stream: a swell
accepts a truncated input, and refuses what follows a stream, which the other
leaves unread. -/
theorem swell_agrees_iff (laws : EngineLaws B) {f : Format} {src dst : Span}
    (member : f ∈ ZlibBackend.formats) (has : B.hasZlib = true)
    (notNull : dst.isNull = false) (narrow : src.size < 2 ^ 32)
    (roomy : ((laws.wire f).content src.bytes).length ≤ uInt dst.size)
    (seen : ¬ Hides (laws.wire f) (uInt dst.size) src.bytes) {cut : List Span}
    (same : joined cut = src.bytes) {outs : Nat → Span}
    (nonempty : ∀ calls, 0 < (outs calls).size)
    (ample : laws.Ample f outs 0 [] cut) (spare : laws.Spare f outs 0 [] cut)
    {outcome : Outcome}
    (drains : Drains outs (.construct B f) cut 0 [] outcome) :
    (swell B f src dst).Agrees outcome ↔
      ¬ (laws.wire f).Live src.bytes ∧
        ∀ p, p <+: src.bytes → (laws.wire f).Complete p → p = src.bytes := by
  have serves : B.Serves f := .inl ⟨has, member⟩
  have arrives :=
    ((EngineLaws.drains_construct_iff serves nonempty ample
      (.inr spare)).mp drains).2
  have input : ([] : List UInt8) ++ joined cut = src.bytes := same
  have swelled : Swelled (laws.wire f) src dst (swell B f src dst) :=
    laws.swell_swelled member has
  rcases (laws.wire f).live_or_settled src.bytes with
    live | ⟨p, isPrefix, complete⟩ | ⟨p, isPrefix, corrupt⟩
  · rw [EngineLaws.arrivesAt_iff_of_live (input.symm ▸ live)] at arrives
    subst arrives
    refine iff_of_false ?_ (fun settled => settled.1 live)
    rw [OneShot.Agrees, (swelled.intact narrow notNull roomy (.inl live)).1]
    exact FailsWith.not_ok
  · have notLive : ¬ (laws.wire f).Live src.bytes :=
      fun live => live.not_complete isPrefix complete
    rw [EngineLaws.arrivesAt_iff_of_complete complete (input.symm ▸ isPrefix)]
      at arrives
    obtain rfl : outcome = .done ((laws.wire f).content p) := by
      rcases arrives with ⟨-, done⟩ | ⟨⟨isZstd, -⟩, -⟩
      · exact done
      · exact absurd isZstd (ne_zstd_of_mem member)
    by_cases whole : p = src.bytes
    · subst whole
      refine iff_of_true ?_ ⟨notLive, fun q inside complete' =>
        Wire.complete_unique complete' complete inside isPrefix⟩
      obtain ⟨result, out⟩ :=
        swelled.intact narrow notNull roomy (.inr complete)
      exact ⟨result, by rw [out, Span.take_overwrite]⟩
    · refine iff_of_false ?_
        (fun settled => whole (settled.2 p isPrefix complete))
      intro agrees
      obtain ⟨e, failed, -⟩ :=
        swelled.refused narrow roomy seen (not_or.mpr ⟨notLive, fun all =>
        whole (Wire.complete_unique complete all isPrefix List.prefix_rfl)⟩)
      have ok := agrees.1
      rw [failed] at ok
      cases ok
  · rw [EngineLaws.arrivesAt_iff_of_corrupt corrupt (input.symm ▸ isPrefix)]
      at arrives
    subst arrives
    have notLive : ¬ (laws.wire f).Live src.bytes :=
      fun live => (live p isPrefix).2 corrupt
    have notWhole {q : List UInt8} (inside : q <+: src.bytes) :
        ¬ (laws.wire f).Complete q :=
      fun complete =>
        Wire.not_corrupt_of_complete complete inside isPrefix corrupt
    refine iff_of_true (swelled.refused narrow roomy seen
      (not_or.mpr ⟨notLive, notWhole List.prefix_rfl⟩)) ⟨notLive, ?_⟩
    intro q inside complete
    exact absurd complete (notWhole inside)

/-- A zlib stream of five bytes, which has a decompressor done at once. -/
def fiveStream : Span :=
  .ofBytes (unixLaws.packed .zlib ⟨9⟩ fiveBytes) (by decide)

theorem swell_agrees_five :
    (swell unixBuild .zlib fiveStream fiveSink).Agrees
      (.done fiveBytes.bytes) := by
  have complete : (unixLaws.wire .zlib).Complete fiveStream.bytes :=
    unixLaws.complete_packed (by decide) (by decide)
  have served :
      ((Decompressor.construct unixBuild .zlib).push fiveStream
        fiveSink).result =
      .ok { bytesConsumed := 16, bytesProduced := 5, done := true } := by
    decide
  have drains :
      Drains (fun _ => fiveSink) (.construct unixBuild .zlib) [fiveStream] 0 []
      (.done fiveBytes.bytes) :=
    .done served rfl
  have ample : unixLaws.Ample .zlib (fun _ => fiveSink) 0 [] [fiveStream] :=
    ⟨by decide, trivial⟩
  have spare : unixLaws.Spare .zlib (fun _ => fiveSink) 0 [] [fiveStream] :=
    EngineLaws.spare_of_complete complete List.prefix_rfl
  have seen :
      ¬ Hides (unixLaws.wire .zlib) (uInt fiveSink.size) fiveStream.bytes :=
    fun hidden => complete.not_damaged (.inl List.prefix_rfl) hidden.1
  have agrees : (swell unixBuild .zlib fiveStream fiveSink).Agrees
      (.done fiveBytes.bytes) ↔ _ :=
    swell_agrees_iff unixLaws (by decide) rfl rfl (by decide) (by decide) seen
      (List.append_nil _) (fun _ => by decide) ample spare drains
  apply agrees.mpr
  refine ⟨fun live => live.not_complete List.prefix_rfl complete, ?_⟩
  intro p isPrefix complete'
  exact Wire.complete_unique complete' complete isPrefix List.prefix_rfl

theorem SwellingLaws.swell_series (laws : SwellingLaws B)
    {whole : ZstdSeriesLaws B.zstd (laws.wire .zstd)}
    (reuse : ZstdReuseLaws B.zstd (laws.wire .zstd) laws.compress whole)
      (has : B.hasZstd = true)
    {src dst : Span} {content : List UInt8}
    (series : (laws.wire .zstd).Series whole.Skippable src.bytes content)
    (fits : content.length ≤ dst.size)
      (sized : B.zstd.isError content.length = false) :
    (swell B .zstd src dst).result = .ok ⟨content.length⟩ ∧
      (swell B .zstd src dst).out = dst.overwrite content := by
  have ret := whole.series dst.size src.bytes content series fits
  have written :=
    reuse.series_written dst.size src.bytes content series fits sized
  rw [swell_of_zstd has]
  have served : ((ZstdSweller.make B.zstd .zstd).push src dst).result =
      .ok { bytesIn := src.size, bytesOut := content.length,
            done := true } := by
    simp only [ZstdSweller.push, ret, sized, Bool.false_eq_true, ↓reduceIte]
  refine ⟨OneShot.result_of_ok served, ?_⟩
  simp only [OneShot.ofReply, ZstdSweller.push, written]

/-- On zstd, and on an input that begins with a whole frame, a swell agrees with
a caller of the streaming layer if and only if that one cuts right after the
frame and no content follows, or does not and no series of frames follows. -/
theorem swell_zstd_agrees_iff (laws : EngineLaws B)
    {whole : ZstdSeriesLaws B.zstd (laws.wire .zstd)}
    (reuse : ZstdReuseLaws B.zstd (laws.wire .zstd) laws.compress whole)
    (has : B.hasZstd = true) {s t : List UInt8} {src dst : Span}
    (complete : (laws.wire .zstd).Complete s) (bytes : src.bytes = s ++ t)
    (roomy : ∀ c, (laws.wire .zstd).Series whole.Skippable t c →
      ((laws.wire .zstd).content s).length + c.length ≤ dst.size ∧
      B.zstd.isError (((laws.wire .zstd).content s).length + c.length) = false)
    {cut : List Span} (same : joined cut = src.bytes) {outs : Nat → Span}
    (nonempty : ∀ calls, 0 < (outs calls).size)
    (ample : laws.Ample .zstd outs 0 [] cut) {outcome : Outcome}
    (drains : Drains outs (.construct B .zstd) cut 0 [] outcome) :
    (swell B .zstd src dst).Agrees outcome ↔
      (CutAt [] cut s ∧ (laws.wire .zstd).Series whole.Skippable t []) ∨
        (¬ CutAt [] cut s ∧ ¬ ∃ c,
          (laws.wire .zstd).Series whole.Skippable t c) := by
  have serves : B.Serves .zstd := .inr ⟨has, by decide⟩
  have isPrefix : s <+: [] ++ joined cut := by
    rw [List.nil_append, same, bytes]
    exact List.prefix_append s t
  have spare : laws.Spare .zstd outs 0 [] cut :=
    EngineLaws.spare_of_complete complete isPrefix
  have arrives :=
    ((EngineLaws.drains_construct_iff serves nonempty ample
      (.inr spare)).mp drains).2
  have refused := laws.swell_zstd_trailing whole has complete bytes
    (fun c series => (roomy c series).1)
  have decodes {c : List UInt8}
      (series : (laws.wire .zstd).Series whole.Skippable t c) :
      (swell B .zstd src dst).result =
          .ok ⟨((laws.wire .zstd).content s ++ c).length⟩ ∧
        (swell B .zstd src dst).out =
          dst.overwrite ((laws.wire .zstd).content s ++ c) := by
    have both : (laws.wire .zstd).Series whole.Skippable src.bytes
        ((laws.wire .zstd).content s ++ c) :=
      bytes ▸ .stream complete series
    obtain ⟨fits, sized⟩ := roomy c series
    rw [← List.length_append] at fits sized
    exact laws.swell_series reuse has both fits sized
  rw [EngineLaws.arrivesAt_iff_of_complete complete isPrefix] at arrives
  rcases arrives with ⟨cuts, rfl⟩ | ⟨⟨-, noCut⟩, rfl⟩
  · have cutHere : CutAt [] cut s := cuts rfl
    rw [and_iff_right cutHere, or_iff_left fun other => other.1 cutHere]
    constructor
    · intro agrees
      have accepted :
          ¬ FailsWith .streamCorrupt (swell B .zstd src dst).result := by
        rw [agrees.1]
        exact FailsWith.not_ok
      rw [refused] at accepted
      simp only [not_forall] at accepted
      obtain ⟨c, series, -⟩ := accepted
      have ok := (decodes series).1
      rw [agrees.1] at ok
      simp only [Except.ok.injEq, SqueezeResult.mk.injEq,
        List.length_append] at ok
      have nothing : c = [] := List.length_eq_zero_iff.mp (by omega)
      exact nothing ▸ series
    · intro series
      obtain ⟨ok, out⟩ := decodes series
      rw [List.append_nil] at ok out
      exact ⟨ok, by rw [out, Span.take_overwrite]⟩
  · rw [and_iff_right noCut, or_iff_right fun other => noCut other.1]
    refine refused.trans ⟨?_, ?_⟩
    · intro tooLong series
      obtain ⟨c, series⟩ := series
      have failed := tooLong c series
      rw [(roomy c series).2] at failed
      cases failed
    · intro notSeries c series
      exact absurd ⟨c, series⟩ notSeries

/-- A frame of five bytes, and an empty one. -/
def frameAndEmpty : Span :=
  .ofBytes (frame [1, 2, 3, 4, 5] ++ frame []) (by decide)

/-- Cut between the frames, the caller stops with all of the content. -/
theorem swell_zstd_agrees_empty :
    (swell unixBuild .zstd frameAndEmpty (.zeros 5 (by decide))).Agrees
      (.done fiveBytes.bytes) := by
  obtain ⟨complete, content⟩ := complete_frame [1, 2, 3, 4, 5]
  obtain ⟨completeEmpty, contentEmpty⟩ := complete_frame []
  let cut : List Span := [fiveFrame, .ofBytes (frame []) (by decide)]
  have served :
      ((Decompressor.construct unixBuild .zstd).push fiveFrame
        (fiveRoom 0)).result =
      .ok { bytesConsumed := 14, bytesProduced := 5, done := true } := by
    decide
  have drains : Drains fiveRoom (.construct unixBuild .zstd) cut 0 []
      (.done fiveBytes.bytes) :=
    .done served rfl
  have ample : unixLaws.Ample .zstd fiveRoom 0 [] cut :=
    ⟨by decide, by decide, trivial⟩
  have empty : (unixLaws.wire .zstd).Series
      (storedSeries 64 unix_wide 3).Skippable (frame []) [] := by
    have last :
        (unixLaws.wire .zstd).Series (storedSeries 64 unix_wide 3).Skippable
        (frame [] ++ []) ((unixLaws.wire .zstd).content (frame []) ++ []) :=
      .stream completeEmpty .nil
    rw [List.append_nil, List.append_nil] at last
    exact contentEmpty ▸ last
  have roomy (c : List UInt8)
      (series : (unixLaws.wire .zstd).Series
        (storedSeries 64 unix_wide 3).Skippable (frame []) c) :
      ((unixLaws.wire .zstd).content (frame [1, 2, 3, 4, 5])).length +
      c.length ≤ 5 ∧
        unixBuild.zstd.isError
          (((unixLaws.wire .zstd).content (frame [1, 2, 3, 4, 5])).length +
            c.length) = false := by
    have decoded :=
      (storedSeries 64 unix_wide 3).series c.length _ c series le_rfl
    have nothing :=
      (storedSeries 64 unix_wide 3).series c.length _ [] empty (Nat.zero_le _)
    have blank : c.length = 0 := decoded.symm.trans nothing
    change (rawGrammar.wire.content (frame [1, 2, 3, 4, 5])).length +
        c.length ≤ 5 ∧
      RawZstd.isError
        ((rawGrammar.wire.content (frame [1, 2, 3, 4, 5])).length + c.length) =
          false
    rw [content, blank]
    decide
  have cutHere : CutAt [] cut (frame [1, 2, 3, 4, 5]) :=
    ⟨[fiveFrame], _, rfl, by decide⟩
  exact (swell_zstd_agrees_iff unixLaws
    (storedReuse 64 unix_wide 3) rfl complete rfl roomy
    (by decide) fiveRoom_pos ample drains).mpr (.inl ⟨cutHere, empty⟩)

namespace SwellingLaws

variable (laws : SwellingLaws B) {f : Format}

/-- What the engines ask of a swell into exactly as much room as the content
takes: zlib, memory and sizes of 32 bits; zstd, a size that is no error code. -/
structure Swells (B : Build) (f : Format) (src dst : Span) : Prop where
  zlib : f ≠ .zstd → dst.isNull = false ∧ src.size < 2 ^ 32 ∧ dst.size < 2 ^ 32
  zstd : f = .zstd → B.zstd.isError dst.size = false

theorem swell_whole {src dst : Span} (serves : B.Serves f)
    (swells : Swells B f src dst) (complete : (laws.wire f).Complete src.bytes)
    (exactly : dst.size = ((laws.wire f).content src.bytes).length) :
    (swell B f src dst).result = .ok ⟨dst.size⟩ ∧
      (swell B f src dst).out = (laws.wire f).content src.bytes := by
  rcases mem_formats_or_zstd serves with ⟨has, member⟩ | ⟨has, rfl⟩
  · obtain ⟨notNull, narrow, short⟩ := swells.zlib (ne_zstd_of_mem member)
    have roomy : ((laws.wire f).content src.bytes).length ≤ uInt dst.size := by
      rw [uInt_of_lt short, exactly]
    have swelled : Swelled (laws.wire f) src dst (swell B f src dst) :=
      laws.swell_swelled member has
    obtain ⟨result, out⟩ := swelled.intact narrow notNull roomy (.inr complete)
    exact ⟨exactly ▸ result, out.trans (Span.overwrite_all exactly.symm)⟩
  · have sized := swells.zstd rfl
    rw [exactly] at sized
    obtain ⟨result, out⟩ := laws.swell_frame has complete exactly.ge sized
    exact ⟨exactly ▸ result, out.trans (Span.overwrite_all exactly.symm)⟩

end SwellingLaws

/-- What a squeeze wrote, if its engine was shown the whole input and had room
for the whole stream, any schedule of pushes on a decompressor decodes to the
input. -/
theorem squeeze_yields (laws : EngineLaws B) {f : Format} {lvl : ZlibLevel}
    {input out : Span} (exact : CountsExact B f) (serves : B.Serves f)
    (accepted : Accepts f lvl) (roomy : bound B f lvl input.size ≤ out.size)
    (whole : f = .zstd ∨
      (input.size < 2 ^ 32 ∧ (laws.packed f lvl input).length ≤ uInt out.size))
    {n : Nat} (ok : (squeeze B f lvl input out).result = .ok ⟨n⟩) :
    (laws.wire f).Complete ((squeeze B f lvl input out).out.take n) ∧
      Yields B f ((squeeze B f lvl input out).out.take n) input.bytes := by
  have packed :
      (laws.wire f).Complete ((squeeze B f lvl input out).out.take n) ∧
      (laws.wire f).content ((squeeze B f lvl input out).out.take n) =
        input.bytes := by
    rcases mem_formats_or_zstd serves with ⟨has, member⟩ | ⟨has, rfl⟩
    · obtain ⟨narrow, fits⟩ := whole.resolve_left (ne_zstd_of_mem member)
      obtain ⟨result, stamped, -⟩ :=
        laws.squeeze_fits member accepted has roomy fits
      rw [result] at ok
      cases ok
      rw [stamped, laws.content_stampOs, laws.content_packed member accepted]
      exact ⟨laws.complete_stampOs (laws.complete_packed member accepted),
        Span.window_of_lt narrow⟩
    · obtain ⟨complete, content, -⟩ := laws.squeeze_zstd_ok has roomy ok
      exact ⟨complete, content⟩
  obtain ⟨complete, content⟩ := packed
  have back := laws.yields exact serves complete
  rw [content] at back
  exact ⟨complete, back⟩

theorem squeeze_yields_gzip :
    Yields unixBuild .gzip
      ((squeeze unixBuild .gzip ⟨0⟩ fiveBytes pipeRoom).out.take 28)
        [1, 2, 3, 4, 5] := by
  have served : (squeeze unixBuild .gzip ⟨0⟩ fiveBytes pipeRoom).result =
      .ok ⟨28⟩ := by decide
  exact (squeeze_yields unixLaws (.inr rfl) (by decide) (by decide) (by decide)
    (.inr ⟨by decide, by decide⟩) served).2

/-- What a compressor emitted over any run of calls that ends its stream, failed
calls included, one swell into as much room as was consumed brings back. -/
theorem pipe_swells (laws : EngineLaws B) {f : Format} {lvl : ZlibLevel}
    (exact : CountsExact B f) (serves : B.Serves f) (accepted : Accepts f lvl)
    {trace : List (Pipe.Request × Except Error StreamResult)} {p : Pipe B}
    (run : Run (Pipe.Sends laws) (.start B f lvl) trace p)
    (ended : (laws.encoder p.sender).Ended) {packed dst : Span}
    (whole : packed.bytes = p.channel) (exactly : dst.size = p.consumed.length)
    (swells : SwellingLaws.Swells B f packed dst) :
    (swell B f packed dst).result = .ok ⟨p.consumed.length⟩ ∧
      (swell B f packed dst).out = p.consumed := by
  obtain ⟨flows, unread⟩ := EngineLaws.flows_of_sends exact serves accepted run
  obtain ⟨complete, content⟩ := flows.carries.sound.ended ended
  have sent : p.channel = (laws.encoder p.sender).output := by
    have kept := flows.carries.kept
    rwa [unread, List.nil_append] at kept
  rw [← sent, ← whole] at complete content
  rw [flows.consumed] at content
  obtain ⟨result, out⟩ :=
    laws.swell_whole serves swells complete (by rw [content]; exact exactly)
  exact ⟨exactly ▸ result, out.trans content⟩

theorem pipe_swells_five :
    (swell unixBuild .gzip
      (.ofBytes closedFive.channel (by decide)) fiveSink).out =
      fiveBytes.bytes := by
  obtain ⟨trace, run⟩ := sends_closedFive
  have ended : (unixLaws.encoder closedFive.sender).Ended := by decide
  have swells : SwellingLaws.Swells unixBuild .gzip
      (.ofBytes closedFive.channel (by decide)) fiveSink :=
    ⟨fun _ => ⟨rfl, by decide, by decide⟩,
      fun isZstd => Format.noConfusion isZstd⟩
  exact (pipe_swells unixLaws (.inr rfl) (by decide) (by decide) run ended rfl
    (by decide) swells).2

end Polliwog
