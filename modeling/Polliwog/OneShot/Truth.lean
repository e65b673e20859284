import Polliwog.OneShot.RoundTrip
import Polliwog.OneShot.Shortage
import Polliwog.OneShot.Truncation

/-!
# What a swell says of its input

A zlib swell may be given any bytes at all.  What it answers is true of them:
success, that nothing is behind the stream, with as much of the content as there
was room for; too little room, that the content is longer; corruption, that
there is damage or something behind the stream.  Damage escapes it only where
the content before it fills the room.  So what was squeezed never comes back as
anything but the front of what it was.
-/

namespace Polliwog

open Codec

variable {B : Build}

/-- Damage that a decoder need not see: the content before it fills the room. -/
def Hides (W : Wire UInt8) (room : Nat) (p : List UInt8) : Prop :=
  W.Damaged p ∧ room ≤ (W.content p).length

/-- What the verdict of a swell says of bytes in a wire format. -/
structure Swelled (W : Wire UInt8) (src dst : Span) (call : OneShot) :
    Prop where
  served : ∀ n, call.result = .ok ⟨n⟩ →
    src.size < 2 ^ 32 ∧ dst.isNull = false ∧
      (W.Live src.bytes ∨ W.Complete src.bytes ∨
        Hides W (uInt dst.size) src.bytes) ∧
      n = min (uInt dst.size) (W.content src.bytes).length ∧
      call.out = dst.overwrite ((W.content src.bytes).take n)
  short : FailsWith .bufferTooSmall call.result →
    2 ^ 32 ≤ src.size ∨ uInt dst.size < (W.content src.bytes).length ∨
      Hides W (uInt dst.size) src.bytes
  corrupt : FailsWith .streamCorrupt call.result →
    dst.isNull = true ∨ W.Damaged src.bytes ∨
      ∃ p, p <+: src.bytes ∧ W.Complete p ∧ p ≠ src.bytes
  verdict : (∃ n, call.result = .ok ⟨n⟩) ∨
    FailsWith .bufferTooSmall call.result ∨ FailsWith .streamCorrupt call.result

namespace Swelled

variable {W : Wire UInt8} {src dst : Span} {call : OneShot}

theorem of_served {n : Nat} (ok : call.result = .ok ⟨n⟩)
    (narrow : src.size < 2 ^ 32) (notNull : dst.isNull = false)
    (intact : W.Live src.bytes ∨ W.Complete src.bytes ∨
      Hides W (uInt dst.size) src.bytes)
    (count : n = min (uInt dst.size) (W.content src.bytes).length)
    (out : call.out = dst.overwrite ((W.content src.bytes).take n)) :
    Swelled W src dst call where
  served m served := by
    rw [ok] at served
    cases served
    exact ⟨narrow, notNull, intact, count, out⟩
  short fails := by
    rw [ok] at fails
    exact absurd fails FailsWith.not_ok
  corrupt fails := by
    rw [ok] at fails
    exact absurd fails FailsWith.not_ok
  verdict := .inl ⟨n, ok⟩

theorem of_short (fails : FailsWith .bufferTooSmall call.result)
    (reason : 2 ^ 32 ≤ src.size ∨ uInt dst.size < (W.content src.bytes).length ∨
      Hides W (uInt dst.size) src.bytes) :
    Swelled W src dst call where
  served n ok := by
    rw [ok] at fails
    exact absurd fails FailsWith.not_ok
  short _ := reason
  corrupt other := Kind.noConfusion (fails.unique other)
  verdict := .inr (.inl fails)

theorem of_corrupt (fails : FailsWith .streamCorrupt call.result)
    (reason : dst.isNull = true ∨ W.Damaged src.bytes ∨
      ∃ p, p <+: src.bytes ∧ W.Complete p ∧ p ≠ src.bytes) :
    Swelled W src dst call where
  served n ok := by
    rw [ok] at fails
    exact absurd fails FailsWith.not_ok
  short other := Kind.noConfusion (fails.unique other)
  corrupt _ := reason
  verdict := .inr (.inr fails)

variable (swelled : Swelled W src dst call) (narrow : src.size < 2 ^ 32)

include swelled narrow

/-- An input that is not damaged, with nothing behind the stream, is accepted
where there is room for its content. -/
theorem intact (notNull : dst.isNull = false)
    (roomy : (W.content src.bytes).length ≤ uInt dst.size)
    (intact : W.Live src.bytes ∨ W.Complete src.bytes) :
    call.result = .ok ⟨(W.content src.bytes).length⟩ ∧
      call.out = dst.overwrite (W.content src.bytes) := by
  have sound : ¬ W.Damaged src.bytes := by
    rcases intact with live | complete
    · exact live.not_damaged
    · exact complete.not_damaged (.inl List.prefix_rfl)
  rcases swelled.verdict with ⟨n, ok⟩ | fails | fails
  · obtain ⟨-, -, -, count, out⟩ := swelled.served n ok
    rw [Nat.min_eq_right roomy] at count
    rw [count, List.take_length] at out
    exact ⟨count ▸ ok, out⟩
  · exfalso
    rcases swelled.short fails with wide | longer | hidden
    · exact absurd narrow (Nat.not_lt.mpr wide)
    · exact absurd longer (Nat.not_lt.mpr roomy)
    · exact sound hidden.1
  · exfalso
    rcases swelled.corrupt fails
      with null | damaged | ⟨p, isPrefix, complete, more⟩
    · rw [notNull] at null
      cases null
    · exact sound damaged
    · rcases intact with live | whole
      · exact live.not_complete isPrefix complete
      · exact more
          (Wire.complete_unique complete whole isPrefix List.prefix_rfl)

/-- Anything else is called corrupt, unless it is damage that need not be seen.
-/
theorem refused (roomy : (W.content src.bytes).length ≤ uInt dst.size)
    (seen : ¬ Hides W (uInt dst.size) src.bytes)
    (notIntact : ¬ (W.Live src.bytes ∨ W.Complete src.bytes)) :
    FailsWith .streamCorrupt call.result := by
  rcases swelled.verdict with ⟨n, ok⟩ | fails | fails
  · exfalso
    obtain ⟨-, -, intact, -⟩ := swelled.served n ok
    rcases intact with live | complete | hidden
    · exact notIntact (.inl live)
    · exact notIntact (.inr complete)
    · exact seen hidden
  · exfalso
    rcases swelled.short fails with wide | longer | hidden
    · exact absurd narrow (Nat.not_lt.mpr wide)
    · exact absurd longer (Nat.not_lt.mpr roomy)
    · exact seen hidden
  · exact fails

end Swelled

/-- The verdict of one decoding call on a fresh stream is true of the span that
the call was shown the window of. -/
theorem SwellVerdict.swelled {W : Wire UInt8} {src dst : Span} {taken : Nat}
    {signal : Signal} {σ : Type} {opened : Entry} {reply : Reply σ Progress}
    (verdict : SwellVerdict src taken reply.written signal reply.result)
    (reads : Dec.fresh.Reads W src.window
      (uInt dst.size) taken reply.written signal)
    (notNull : dst.isNull = false) :
    Swelled W src dst (.ofReply opened reply dst) := by
  have shown : src.window <+: src.bytes := List.take_prefix _ _
  have fails {kind : Kind} (refused : FailsWith kind reply.result) :
      FailsWith kind (OneShot.ofReply opened reply dst).result :=
    FailsWith.map_iff.mpr refused
  rcases Nat.lt_or_ge taken src.size with less | all
  case inr =>
    have takenLe := reads.taken_le
    have window := src.length_window
    have narrow : src.size < 2 ^ 32 := by
      have short := uInt_lt src.size
      omega
    have whole : src.window = src.bytes := Span.window_of_lt narrow
    rw [whole] at reads takenLe
    have exact : taken = src.size := le_antisymm takenLe all
    by_cases isBad : signal = .bad
    · exact .of_corrupt (fails (verdict.spoiled isBad))
        (.inr (.inl (reads.bad isBad)))
    · obtain ⟨written, intact⟩ := reads.filled isBad exact
      simp only [Dec.fresh, List.nil_append, List.length_nil,
        Nat.zero_add] at written intact
      have count : reply.written.length =
          min (uInt dst.size) (W.content src.bytes).length := by
        rw [written, List.length_take]
      have seen : W.Live src.bytes ∨ W.Complete src.bytes ∨
          Hides W (uInt dst.size) src.bytes := by
        refine intact.imp_right (Or.imp_right fun hidden => ⟨hidden.1, ?_⟩)
        omega
      refine .of_served (OneShot.result_of_ok (verdict.whole isBad exact))
        narrow notNull seen count ?_
      have same : (W.content src.bytes).take reply.written.length =
          reply.written := by
        rw [count, ← List.take_eq_take_min, ← written]
      rw [same]
      rfl
  cases signal with
  | bad =>
      have damaged : W.Damaged src.window := reads.bad rfl
      exact .of_corrupt (fails (verdict.spoiled rfl))
        (.inr (.inl (damaged.mono shown)))
  | done =>
      obtain ⟨complete, -⟩ := reads.done rfl
      refine .of_corrupt (fails (verdict.extra rfl less))
        (.inr (.inr ⟨src.window.take taken, (List.take_prefix _ _).trans shown,
          complete, ?_⟩))
      intro same
      have long := congrArg List.length same
      rw [List.length_take, ← Span.size] at long
      omega
  | more =>
      refine .of_short (fails ⟨_, verdict.short rfl less, rfl⟩) ?_
      rcases Nat.lt_or_ge src.size (2 ^ 32) with narrow | wide
      · right
        have whole : src.window = src.bytes := Span.window_of_lt narrow
        rw [whole] at reads
        have isPrefix : reply.written <+: W.content src.bytes :=
          (reads.delivered_isPrefix (by decide)).trans
            (W.content_mono (List.take_prefix _ _))
        by_cases damaged : W.Damaged src.bytes
        · have full : reply.written.length = uInt dst.size :=
            reads.held rfl damaged
          exact .inr ⟨damaged, full ▸ isPrefix.length_le⟩
        left
        rcases reads.greedy rfl damaged with ⟨all, -⟩ | ⟨full, partway⟩
        · rw [all] at less
          exact absurd less (lt_irrefl _)
        · simp only [Dec.fresh, List.nil_append] at partway
          rw [← full]
          by_contra notLonger
          exact partway (isPrefix.eq_of_length_le (Nat.le_of_not_lt notLonger))
      · exact .inl wide

theorem SwellingLaws.swell_swelled (laws : SwellingLaws B) {f : Format}
    {src dst : Span} (member : f ∈ ZlibBackend.formats)
    (has : B.hasZlib = true) :
    Swelled (laws.wire f) src dst (swell B f src dst) := by
  rw [swell_of_zlib member has]
  cases null : dst.isNull with
  | true =>
      exact .of_corrupt (FailsWith.map_iff.mpr
        (laws.inflate.sweller_push_null null)) (.inl null)
  | false =>
      obtain ⟨taken, signal, reads, verdict⟩ := laws.sweller_push member null
      exact verdict.swelled reads null

/-- Every answer of a zlib swell is true of its input, and where there is
memory, room for the content, and more than that if it is damaged, it succeeds
exactly on what is not damaged and not followed by anything. -/
theorem swell_truthful (laws : SwellingLaws B) {f : Format} {src dst : Span}
    (member : f ∈ ZlibBackend.formats) (has : B.hasZlib = true) :
    Swelled (laws.wire f) src dst (swell B f src dst) ∧
      (dst.isNull = false → src.size < 2 ^ 32 →
        ((laws.wire f).content src.bytes).length ≤ uInt dst.size →
        ¬ Hides (laws.wire f) (uInt dst.size) src.bytes →
          ((swell B f src dst).result =
            .ok ⟨((laws.wire f).content src.bytes).length⟩ ↔
            (laws.wire f).Live src.bytes ∨
            (laws.wire f).Complete src.bytes)) := by
  have swelled : Swelled (laws.wire f) src dst (swell B f src dst) :=
    laws.swell_swelled member has
  refine ⟨swelled, fun notNull narrow roomy seen => ⟨?_, ?_⟩⟩
  · intro ok
    by_contra notIntact
    have fails := swelled.refused narrow roomy seen notIntact
    rw [ok] at fails
    exact FailsWith.not_ok fails
  · intro intact
    exact (swelled.intact narrow notNull roomy intact).1

/-- A gzip stream that breaks off after four bytes. -/
def brokenOff : Span :=
  .ofBytes ((unixLaws.packed .gzip ⟨7⟩ fiveBytes).take 19) (by decide)

theorem swell_truthful_broken :
    (swell unixBuild .gzip brokenOff (.zeros 7 (by decide))).result = .ok ⟨4⟩ ∧
      ((unixLaws.wire .gzip).Live brokenOff.bytes ∨
        (unixLaws.wire .gzip).Complete brokenOff.bytes) := by
  have ok : (swell unixBuild .gzip brokenOff (.zeros 7 (by decide))).result =
      .ok ⟨4⟩ := by
    decide
  have length : ((unixLaws.wire .gzip).content brokenOff.bytes).length = 4 := by
    decide
  have exactly :
      (swell unixBuild .gzip brokenOff (.zeros 7 (by decide))).result =
      .ok ⟨((unixLaws.wire .gzip).content brokenOff.bytes).length⟩ ↔
        (unixLaws.wire .gzip).Live brokenOff.bytes ∨
          (unixLaws.wire .gzip).Complete brokenOff.bytes :=
    (swell_truthful unixSwelling (by decide) rfl).2 rfl (by decide) (by decide)
      fun hidden => absurd hidden.2 (by decide)
  exact ⟨ok, exactly.mp (length.symm ▸ ok)⟩

/-- What a zstd swell accepts of a frame is nothing or the whole of it. -/
theorem SwellingLaws.swell_zstd_part (laws : SwellingLaws B)
    (whole : ZstdSeriesLaws B.zstd (laws.wire .zstd)) (has : B.hasZstd = true)
    {s : List UInt8} {packed dst : Span}
    (complete : (laws.wire .zstd).Complete s)
    (sized : B.zstd.isError ((laws.wire .zstd).content s).length = false)
    (part : packed.bytes <+: s) {m : Nat}
    (back : (swell B .zstd packed dst).result = .ok ⟨m⟩) :
    (packed.bytes = [] ∧ m = 0) ∨
      (m = ((laws.wire .zstd).content s).length ∧
        (swell B .zstd packed dst).out =
          dst.overwrite ((laws.wire .zstd).content s)) := by
  have accepted :
      ¬ FailsWith .streamCorrupt (swell B .zstd packed dst).result := by
    rw [back]
    exact FailsWith.not_ok
  by_cases all : packed.bytes = s
  · right
    subst all
    have fits : ((laws.wire .zstd).content packed.bytes).length ≤ dst.size := by
      by_contra short
      exact accepted (whole.swell_short has complete (Nat.lt_of_not_le short))
    obtain ⟨result, out⟩ := laws.swell_frame has complete fits sized
    rw [result] at back
    cases back
    exact ⟨rfl, out⟩
  · left
    have nothing : packed.bytes = [] := by
      by_contra some
      exact accepted
        ((laws.swell_zstd_truncated has complete part all).mpr some)
    refine ⟨nothing, ?_⟩
    have nothingStored := laws.oneShot.decompress_nil dst.size
    have isOk := laws.oneShot.zero_ok
    rw [swell_of_zstd has] at back
    obtain ⟨r, served, count⟩ := OneShot.ok_of_result back
    simp only [ZstdSweller.push, nothing, nothingStored, isOk,
      Bool.false_eq_true, ↓reduceIte] at served
    cases served
    exact count.symm

/-- Whatever part of what was squeezed is swelled, into whatever room, comes
back as the front of the input or not at all, and a zstd frame all or not at
all. -/
theorem squeeze_swell_front (laws : SwellingLaws B)
    (whole : ZstdSeriesLaws B.zstd (laws.wire .zstd)) {f : Format}
    {lvl : ZlibLevel} {input out packed dst : Span} (serves : B.Serves f)
    (accepted : Accepts f lvl) (roomy : bound B f lvl input.size ≤ out.size)
    {n m : Nat} (ok : (squeeze B f lvl input out).result = .ok ⟨n⟩)
    (part : packed.bytes <+: (squeeze B f lvl input out).out.take n)
    (back : (swell B f packed dst).result = .ok ⟨m⟩) :
    m ≤ input.size ∧ (swell B f packed dst).out.take m = input.bytes.take m ∧
      (f = .zstd → packed.bytes ≠ [] → m = input.size) := by
  rcases mem_formats_or_zstd serves with ⟨has, member⟩ | ⟨has, rfl⟩
  case inr =>
    obtain ⟨complete, content, -, sized⟩ := laws.squeeze_zstd_ok has roomy ok
    have part :=
      laws.swell_zstd_part whole has complete
        (by rw [content]; exact sized) part back
    rw [content] at part
    rcases part with ⟨nothing, rfl⟩ | ⟨rfl, out⟩
    · exact ⟨Nat.zero_le _, rfl, fun _ some => absurd nothing some⟩
    · refine ⟨le_rfl, ?_, fun _ _ => rfl⟩
      rw [out, Span.take_overwrite, List.take_length]
  rcases Nat.eq_zero_or_pos (uInt out.size) with noRoom | room_pos
  case inl =>
    rw [laws.squeeze_no_room member accepted has roomy noRoom] at ok
    cases ok
  obtain ⟨result, stored⟩ := laws.squeeze_ok member accepted has roomy room_pos
  rw [result] at ok
  cases ok
  rw [stored] at part
  have inside : packed.bytes <+: stampOs f (laws.packed f lvl input) :=
    part.trans (stampOs_isPrefix (List.take_prefix _ _))
  have front : (laws.wire f).content packed.bytes <+: input.bytes := by
    have decodable := (laws.wire f).content_mono inside
    rw [laws.content_stampOs, laws.content_packed member accepted] at decodable
    exact decodable.trans (List.take_prefix _ _)
  obtain ⟨-, -, -, count, left⟩ := (laws.swell_swelled member has).served m back
  have within : m ≤ ((laws.wire f).content packed.bytes).length :=
    count ▸ Nat.min_le_right _ _
  refine ⟨within.trans front.length_le, ?_,
    fun isZstd => absurd isZstd (ne_zstd_of_mem member)⟩
  have same : ((laws.wire f).content packed.bytes).take m =
      input.bytes.take m := by
    obtain ⟨rest, whole⟩ := front
    rw [← whole, List.take_append_of_le_length within]
  have stored := dst.take_overwrite (input.bytes.take m)
  rw [List.length_take_of_le (within.trans front.length_le)] at stored
  rw [left, same, stored]

/-- Three bytes come back of five that a gzip window cut. -/
theorem squeeze_swell_front_gzip :
    (swell unixBuild .gzip
      (.ofBytes
        ((squeeze unixBuild .gzip ⟨3⟩ fiveBytes
          (.zeros 18 (by decide))).out.take 18)
        (by decide)) (.zeros 6 (by decide))).out.take 3 = [1, 2, 3] := by
  have ok : (squeeze unixBuild .gzip ⟨3⟩ fiveBytes
      (.zeros 18 (by decide))).result = .ok ⟨18⟩ := by
    decide
  have back : (swell unixBuild .gzip
      (.ofBytes
        ((squeeze unixBuild .gzip ⟨3⟩ fiveBytes
          (.zeros 18 (by decide))).out.take 18)
        (by decide)) (.zeros 6 (by decide))).result = .ok ⟨3⟩ := by
    decide
  exact (squeeze_swell_front unixSwelling (storedSeries 64 unix_wide 3)
    (by decide) (by decide) (by decide) ok List.prefix_rfl back).2.1

end Polliwog
