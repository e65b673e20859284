import Polliwog.Streaming.Accounting

/-!
# The two widths of `uLong`

A platform with a 32-bit `uLong` next to one that has the same engines and
counters of 64 bits.  What the calls store is the same; what they report of it
is the same until a call carries a counter past a multiple of 2^32.
-/

namespace Polliwog

open Codec

/-- A stream with its counters cut down, or extended, to another width. -/
def ZStream.resized {width : Nat} {σ : Type} (stream : ZStream width σ)
    (other : Nat) :
    ZStream other σ where
  nextIn := stream.nextIn
  availIn := stream.availIn
  nextOutNull := stream.nextOutNull
  availOut := stream.availOut
  totalIn := stream.totalIn.setWidth other
  totalOut := stream.totalOut.setWidth other
  state := stream.state

/-- A call with its progress counted on the counters of another stream. -/
def ZCall.recounted {width other : Nat} {σ : Type} (call : ZCall width σ)
    (stream : ZStream other σ) : ZCall other σ where
  ret := call.ret
  stream :=
    { call.stream.resized other with
      totalIn := stream.totalIn + BitVec.ofNat other call.taken
      totalOut := stream.totalOut + BitVec.ofNat other call.written.length }
  taken := call.taken
  written := call.written

/-- The same zlib where `uLong` has 64 bits. -/
def Zlib.widened (Z : Zlib) : Zlib where
  ulongBits := 64
  ulong_width := .inr rfl
  Deflate := Z.Deflate
  Inflate := Z.Inflate
  compressBound n := BitVec.ofNat 64 (min (compressSum n.toNat) (2 ^ 64 - 1))
  deflateInit2 lvl bits := (Z.deflateInit2 lvl bits).resized 64
  deflate stream flush :=
    (Z.deflate (stream.resized Z.ulongBits) flush).recounted stream
  inflateInit2 bits := (Z.inflateInit2 bits).resized 64
  inflate stream flush :=
    (Z.inflate (stream.resized Z.ulongBits) flush).recounted stream

def Build.widened (B : Build) : Build := { B with zlib := B.zlib.widened }

variable {Z : Zlib} {B : Build}

theorem ZStream.resized_resized {σ : Type} (stream : ZStream Z.ulongBits σ) :
    (stream.resized 64).resized Z.ulongBits = stream := by
  have within : Z.ulongBits ≤ 64 := by
    rcases Z.ulong_width with width | width <;> omega
  have back (count : BitVec Z.ulongBits) :
      (count.setWidth 64).setWidth Z.ulongBits = count := by
    rw [BitVec.setWidth_setWidth_of_le _ within, BitVec.setWidth_eq]
  simp only [resized, back]

/-- Counting on the narrow counters is counting on the wide ones, cut down. -/
theorem ZCall.resized_recounted {σ : Type} {stream : ZStream 64 σ}
    {call : ZCall Z.ulongBits σ}
    (counts : call.stream.totalIn =
      stream.totalIn.setWidth Z.ulongBits +
      BitVec.ofNat Z.ulongBits call.taken ∧
      call.stream.totalOut = stream.totalOut.setWidth Z.ulongBits +
      BitVec.ofNat Z.ulongBits call.written.length) :
    (call.recounted stream).stream.resized Z.ulongBits = call.stream := by
  have within : Z.ulongBits ≤ 64 := by
    rcases Z.ulong_width with width | width <;> omega
  have cut (count : BitVec 64) (n : Nat) :
      (count + BitVec.ofNat 64 n).setWidth Z.ulongBits =
      count.setWidth Z.ulongBits + BitVec.ofNat Z.ulongBits n := by
    rw [BitVec.setWidth_add _ _ within, BitVec.setWidth_ofNat_of_le within]
  obtain ⟨inCount, outCount⟩ := counts
  simp only [recounted, ZStream.resized, cut, ← inCount, ← outCount]

theorem DeflateCounters.widened (counters : DeflateCounters Z) :
    DeflateCounters Z.widened where
  open_counts opens := by
    obtain ⟨zeroIn, zeroOut⟩ := counters.open_counts opens
    constructor
    · exact (congrArg (BitVec.setWidth 64) zeroIn).trans
        (BitVec.setWidth_zero _ _)
    · exact (congrArg (BitVec.setWidth 64) zeroOut).trans
        (BitVec.setWidth_zero _ _)
  counts _ _ := ⟨rfl, rfl⟩
  windows stream := counters.windows (stream.resized _)

theorem InflateCounters.widened (counters : InflateCounters Z) :
    InflateCounters Z.widened where
  open_counts selects := by
    obtain ⟨zeroIn, zeroOut⟩ := counters.open_counts selects
    constructor
    · exact (congrArg (BitVec.setWidth 64) zeroIn).trans
        (BitVec.setWidth_zero _ _)
    · exact (congrArg (BitVec.setWidth 64) zeroOut).trans
        (BitVec.setWidth_zero _ _)
  counts _ _ := ⟨rfl, rfl⟩
  windows stream := counters.windows (stream.resized _)

/-- A result but for the position of an error. -/
def unplaced (result : Except Error StreamResult) : Except Error StreamResult :=
  result.mapError fun e => { e with pos := 0 }

/-- What a result says but for the position of an error and the numbers. -/
def outline (result : Except Error StreamResult) : Except Error Bool :=
  (unplaced result).map StreamResult.done

theorem outline_congr {p q : Prop} [Decidable p] [Decidable q] {ρ κ : Type}
    (alike : p ↔ q) (e : Error) {r r' : ρ} {inner : ρ → κ}
    {outer : κ → StreamResult}
    (done : (outer (inner r)).done = (outer (inner r')).done) :
    outline (((if p then .error e else .ok r : Except Error ρ).map inner).map
      outer) =
      outline (((if q then .error e else .ok r' : Except Error ρ).map inner).map
        outer) := by
  by_cases failed : p
  · rw [if_pos failed, if_pos (alike.mp failed)]
  · rw [if_neg failed, if_neg fun failed' => failed (alike.mpr failed')]
    exact congrArg Except.ok done

/-- Two replies that differ in no more than what the counters tell. -/
structure CountedApart {σ τ : Type} (reply : Reply σ StreamResult)
    (reply' : Reply τ StreamResult) :
    Prop where
  written : reply'.written = reply.written
  taken : reply'.taken = reply.taken
  returns : outline reply'.result = outline reply.result

/-- They say the same if and only if the numbers are exact on both sides. -/
theorem CountedApart.same_iff {σ τ : Type} {reply : Reply σ StreamResult}
    {reply' : Reply τ StreamResult} {input out : Span}
    (apart : CountedApart reply reply') (exact' : Exact input out reply') :
    unplaced reply'.result = unplaced reply.result ↔ Exact input out reply := by
  obtain ⟨written, taken, returns⟩ := apart
  unfold Exact at exact' ⊢
  rw [written, taken] at exact'
  cases result : reply.result with
  | error e =>
      cases result' : reply'.result with
      | error e' =>
          rw [result, result'] at returns
          refine iff_of_true ?_ nofun
          simpa [outline, unplaced, Except.map, Except.mapError] using returns
      | ok r' =>
          rw [result, result'] at returns
          cases returns
  | ok r =>
      cases result' : reply'.result with
      | error e' =>
          rw [result, result'] at returns
          cases returns
      | ok r' =>
          obtain ⟨⟨consumed, produced⟩, inside⟩ := exact' r' result'
          constructor
          · intro same
            cases same
            intro r ok
            cases ok
            exact ⟨⟨consumed, produced⟩, inside⟩
          · intro exact
            obtain ⟨⟨consumed', produced'⟩, -⟩ := exact r rfl
            rw [result, result'] at returns
            have done : r'.done = r.done := by
              simpa [outline, unplaced, Except.map,
                Except.mapError] using returns
            have same : r' = r := by
              cases r
              cases r'
              simp_all
            rw [same]

namespace Compressor

def narrow (c : Compressor B.widened) : Compressor B where
  handle :=
    match c.handle with
    | .zlibSqueezer h => .zlibSqueezer ⟨h.stream.resized B.zlib.ulongBits⟩
    | .zlibStubSqueezer => .zlibStubSqueezer
    | .zstdSqueezer h => .zstdSqueezer h
    | .zstdStubSqueezer => .zstdStubSqueezer

theorem narrow_of (B : Build) (f : Format) (lvl : ZlibLevel) :
    (of B.widened f lvl).narrow = of B f lvl := by
  have opened (bits : Int) :
      (B.zlib.widened.deflateInit2 lvl.toInt bits).resized B.zlib.ulongBits =
        B.zlib.deflateInit2 lvl.toInt bits :=
    ZStream.resized_resized _
  cases f <;> cases zlib : B.hasZlib <;> cases zstd : B.hasZstd <;>
    simp [of, narrow, makeSqueezer, Build.widened, ZlibSqueezer.make, zlib,
      zstd, opened]

/-- A call on the narrow platform is one on the wide platform with other
numbers. -/
theorem step_widened (counters : DeflateCounters B.zlib)
    {c' : Compressor B.widened} {request : Request}
    {reply : Reply (Compressor B) StreamResult} {next : Compressor B}
    (step : c'.narrow.Step request reply next) :
    ∃ reply', c'.Step request reply' reply'.handle ∧
    reply'.handle.narrow = next ∧
      CountedApart reply reply' := by
  obtain ⟨returned, rfl⟩ := step
  obtain ⟨handle⟩ := c'
  cases handle with
  | zlibStubSqueezer =>
      cases request <;> cases returned <;> exact ⟨_, ⟨rfl, rfl⟩, rfl,
        rfl, rfl, rfl⟩
  | zstdStubSqueezer =>
      cases request <;> cases returned <;> exact ⟨_, ⟨rfl, rfl⟩, rfl,
        rfl, rfl, rfl⟩
  | zstdSqueezer h =>
      cases request with
      | push input out =>
          cases returned
          exact ⟨_, ⟨rfl, rfl⟩, rfl, rfl, rfl, rfl⟩
      | flush out =>
          cases returned
          exact ⟨_, ⟨rfl, rfl⟩, rfl, rfl, rfl, rfl⟩
      | finish out =>
          obtain ⟨inner, finished, same⟩ := Option.map_eq_some_iff.mp returned
          obtain ⟨inner', finished', same'⟩ :=
            Option.map_eq_some_iff.mp finished
          subst same'
          subst same
          refine ⟨_, ⟨finish_zstd finished', rfl⟩, rfl, rfl, rfl, ?_⟩
          rw [Reply.map_map]
          rfl
  | zlibSqueezer h =>
      have stream (input out : Span) (flush : ZFlush) :
          (⟨.zlibSqueezer
            ⟨(B.widened.zlib.deflate (h.stream.load input out) flush).stream⟩⟩ :
            Compressor B.widened).narrow = ⟨.zlibSqueezer
              ⟨(B.zlib.deflate
                ((h.stream.resized B.zlib.ulongBits).load input out)
                  flush).stream⟩⟩ :=
        congrArg (fun s => (⟨.zlibSqueezer ⟨s⟩⟩ : Compressor B))
          (ZCall.resized_recounted
          (counters.counts
            ((h.stream.resized B.zlib.ulongBits).load input out) flush))
      cases request with
      | push input out =>
          cases returned
          exact ⟨_, ⟨rfl, rfl⟩, stream input out .noFlush, rfl, rfl,
            outline_congr Iff.rfl _ rfl⟩
      | flush out =>
          cases returned
          exact ⟨_, ⟨rfl, rfl⟩, stream .empty out .syncFlush, rfl, rfl,
            outline_congr Iff.rfl _ rfl⟩
      | finish out =>
          cases returned
          exact ⟨_, ⟨rfl, rfl⟩, stream .empty out .finish, rfl, rfl,
            outline_congr Iff.rfl _ rfl⟩

end Compressor

namespace Decompressor

def narrow (d : Decompressor B.widened) : Decompressor B where
  handle :=
    match d.handle with
    | .zlibSweller h => .zlibSweller ⟨h.stream.resized B.zlib.ulongBits⟩
    | .zlibStubSweller => .zlibStubSweller
    | .zstdSweller h => .zstdSweller h
    | .zstdStubSweller => .zstdStubSweller

theorem narrow_construct (B : Build) (f : Format) :
    (construct B.widened f).narrow = construct B f := by
  have opened (bits : Int) :
      (B.zlib.widened.inflateInit2 bits).resized B.zlib.ulongBits =
        B.zlib.inflateInit2 bits :=
    ZStream.resized_resized _
  cases f <;> cases zlib : B.hasZlib <;> cases zstd : B.hasZstd <;>
    simp [construct, narrow, makeSweller, Build.widened, ZlibSweller.make, zlib,
      zstd, opened]

theorem outline_push (h : ZlibSweller B.zlib) (input out : Span) :
    let ret := (B.zlib.inflate (h.stream.load input out) .noFlush).ret
    outline ((⟨.zlibSweller h⟩ : Decompressor B).push input out).result =
      if ret = .streamEnd then .ok true
      else if ret = .ok ∨ ret = .bufError then .ok false
      else .error { kind := .streamCorrupt, backend := .zlib, pos := 0,
                    note := "inflate" } := by
  simp only [push, SwellerVariant.pushVisitor, Reply.map, ZlibSweller.pushMore]
  split
  · rfl
  · split <;> rfl

theorem step_widened (counters : InflateCounters B.zlib)
    {d' : Decompressor B.widened} {request : Request}
    {reply : Reply (Decompressor B) StreamResult} {next : Decompressor B}
    (step : d'.narrow.Step request reply next) :
    ∃ reply', d'.Step request reply' reply'.handle ∧
    reply'.handle.narrow = next ∧
      CountedApart reply reply' := by
  obtain ⟨rfl, rfl⟩ := step
  obtain ⟨handle⟩ := d'
  cases handle with
  | zlibStubSweller => exact ⟨_, ⟨rfl, rfl⟩, rfl, rfl, rfl, rfl⟩
  | zstdStubSweller => exact ⟨_, ⟨rfl, rfl⟩, rfl, rfl, rfl, rfl⟩
  | zstdSweller h => exact ⟨_, ⟨rfl, rfl⟩, rfl, rfl, rfl, rfl⟩
  | zlibSweller h =>
      have stream :
          (⟨.zlibSweller ⟨(B.widened.zlib.inflate
              (h.stream.load request.input request.out) .noFlush).stream⟩⟩ :
            Decompressor B.widened).narrow = ⟨.zlibSweller ⟨(B.zlib.inflate
              ((h.stream.resized B.zlib.ulongBits).load request.input
                request.out)
              .noFlush).stream⟩⟩ :=
        congrArg (fun s => (⟨.zlibSweller ⟨s⟩⟩ : Decompressor B))
          (ZCall.resized_recounted (counters.counts
            ((h.stream.resized B.zlib.ulongBits).load request.input request.out)
              .noFlush))
      exact ⟨_, ⟨rfl, rfl⟩, stream, rfl, rfl,
        (outline_push h request.input request.out).trans
          (outline_push ⟨h.stream.resized B.zlib.ulongBits⟩ request.input
            request.out).symm⟩

end Decompressor

/-- The same calls one after another, which differ in no more than what the
counters tell. -/
def SameCalls {ι σ τ : Type} :
    List (ι × Reply σ StreamResult) → List (ι × Reply τ StreamResult) → Prop :=
  List.Forall₂ fun entry entry' => entry.1 = entry'.1 ∧
  CountedApart entry.2 entry'.2

/-- The same results, but for the positions of errors. -/
def SameReports {ι σ τ : Type} :
    List (ι × Reply σ StreamResult) → List (ι × Reply τ StreamResult) → Prop :=
  List.Forall₂ fun entry entry' =>
    unplaced entry'.2.result = unplaced entry.2.result

theorem SameCalls.sameReports_iff {ι σ τ : Type} {input out : ι → Span}
    {trace : List (ι × Reply σ StreamResult)}
    {trace' : List (ι × Reply τ StreamResult)} (same : SameCalls trace trace')
    (exact' : ∀ entry ∈ trace', Exact (input entry.1) (out entry.1) entry.2) :
    SameReports trace trace' ↔
    ∀ entry ∈ trace, Exact (input entry.1) (out entry.1) entry.2 := by
  unfold SameReports
  induction same with
  | nil => simp
  | @cons entry entry' trace trace' here _ ih =>
      obtain ⟨request, apart⟩ := here
      obtain ⟨first, later⟩ := List.forall_mem_cons.mp exact'
      rw [← request] at first
      rw [List.forall₂_cons, apart.same_iff first, ih later,
        List.forall_mem_cons]

variable {f : Format} (member : f ∈ ZlibBackend.formats)
  (has : B.hasZlib = true)

include member has

theorem DeflateCounters.compressor_widened (counters : DeflateCounters B.zlib)
    {lvl : ZlibLevel} (accepted : Accepts f lvl) {trace : Compressor.Trace B}
    {c : Compressor B} (run : Run Compressor.Step (.of B f lvl) trace c) :
    ∃ trace' c', Run Compressor.Step (.of B.widened f lvl) trace' c' ∧
      SameCalls trace trace' ∧
        (SameReports trace trace' ↔ B.zlib.ulongBits = 64 ∨
          NeverCarries trace) := by
  let Narrows (c : Compressor B) (c' : Compressor B.widened) : Prop :=
    c'.narrow = c
  have follows {c : Compressor B} {c' : Compressor B.widened}
      {request : Compressor.Request}
      {reply : Reply (Compressor B) StreamResult} {next : Compressor B}
      (narrows : Narrows c c') (step : c.Step request reply next) :
      ∃ reply' other, c'.Step request reply' other ∧ Narrows next other ∧
        CountedApart reply reply' := by
    obtain rfl := narrows
    obtain ⟨reply', step', reached, apart⟩ :=
      Compressor.step_widened counters step
    exact ⟨reply', _, step', reached, apart⟩
  obtain ⟨trace', c', run', -, same⟩ :=
    run.follow Narrows CountedApart follows (Compressor.narrow_of B f lvl)
  refine ⟨trace', c', run', same, ?_⟩
  have wider : DeflateCounters B.widened.zlib := counters.widened
  have exact' :=
    (wider.compressor_exact_iff member has accepted run').mpr (.inl rfl)
  rw [← counters.compressor_exact_iff member has accepted run]
  exact SameCalls.sameReports_iff same exact'

theorem InflateCounters.decompressor_widened (counters : InflateCounters B.zlib)
    {trace : Decompressor.Trace B} {d : Decompressor B}
    (run : Run Decompressor.Step (.construct B f) trace d) :
    ∃ trace' d', Run Decompressor.Step (.construct B.widened f) trace' d' ∧
      SameCalls trace trace' ∧
        (SameReports trace trace' ↔ B.zlib.ulongBits = 64 ∨
          NeverCarries trace) := by
  let Narrows (d : Decompressor B) (d' : Decompressor B.widened) : Prop :=
    d'.narrow = d
  have follows {d : Decompressor B} {d' : Decompressor B.widened}
      {request : Decompressor.Request}
        {reply : Reply (Decompressor B) StreamResult}
      {next : Decompressor B} (narrows : Narrows d d')
        (step : d.Step request reply next) :
      ∃ reply' other, d'.Step request reply' other ∧ Narrows next other ∧
        CountedApart reply reply' := by
    obtain rfl := narrows
    obtain ⟨reply', step', reached, apart⟩ :=
      Decompressor.step_widened counters step
    exact ⟨reply', _, step', reached, apart⟩
  obtain ⟨trace', d', run', -, same⟩ :=
    run.follow Narrows CountedApart follows (Decompressor.narrow_construct B f)
  refine ⟨trace', d', run', same, ?_⟩
  have wider : InflateCounters B.widened.zlib := counters.widened
  have exact' := (wider.decompressor_exact_iff member has run').mpr (.inl rfl)
  rw [← counters.decompressor_exact_iff member has run]
  exact SameCalls.sameReports_iff same exact'

omit member has

/-- Whatever is done with an object of a zlib format, the same calls on a
platform with the same engines and wider counters store the same and come out
the same; and they report the same, throughout, if and only if the counters are
wide already or no call carries one of them. -/
theorem narrow_agrees_iff (deflate : DeflateCounters B.zlib)
    (inflate : InflateCounters B.zlib) {f : Format} {lvl : ZlibLevel}
    (member : f ∈ ZlibBackend.formats) (has : B.hasZlib = true)
    (accepted : Accepts f lvl) :
    (∀ trace c, Run Compressor.Step (.of B f lvl) trace c →
      ∃ trace' c', Run Compressor.Step (.of B.widened f lvl) trace' c' ∧
        SameCalls trace trace' ∧
          (SameReports trace trace' ↔ B.zlib.ulongBits = 64 ∨
            NeverCarries trace)) ∧
    (∀ trace d, Run Decompressor.Step (.construct B f) trace d →
      ∃ trace' d', Run Decompressor.Step (.construct B.widened f) trace' d' ∧
        SameCalls trace trace' ∧
          (SameReports trace trace' ↔ B.zlib.ulongBits = 64 ∨
            NeverCarries trace)) :=
  ⟨fun _ _ run => deflate.compressor_widened member has accepted run,
    fun _ _ run => inflate.decompressor_widened member has run⟩

/-- A push on each object of a platform with 32-bit counters. -/
theorem narrow_agrees_five :
    let out : Span := .zeros 33 (by decide)
    let packed : Span :=
      .ofBytes (windowsLaws.packed .gzip ⟨0⟩ fiveBytes) (by decide)
    (∃ trace' c',
      Run Compressor.Step (.of windowsBuild.widened .gzip ⟨0⟩) trace' c' ∧
      SameReports [(Compressor.Request.push fiveBytes out,
        (Compressor.of windowsBuild .gzip ⟨0⟩).push fiveBytes out)] trace') ∧
    (∃ trace' d',
      Run Decompressor.Step (.construct windowsBuild.widened .gzip) trace' d' ∧
      SameReports [((⟨packed, out⟩ : Decompressor.Request),
        (Decompressor.construct windowsBuild .gzip).push packed out)]
          trace') := by
  intro out packed
  have member : Format.gzip ∈ ZlibBackend.formats := by decide
  have accepted : Accepts .gzip ⟨0⟩ := by decide
  obtain ⟨compresses, decompresses⟩ :=
    narrow_agrees_iff windowsLaws.deflate.toDeflateCounters
    windowsLaws.inflate.toInflateCounters member rfl accepted
  constructor
  · obtain ⟨trace', c', run', -, same⟩ := compresses
      [(.push fiveBytes out,
        (Compressor.of windowsBuild .gzip ⟨0⟩).push fiveBytes out)] _
      (.one ⟨rfl, rfl⟩)
    exact ⟨trace', c', run',
      same.mpr (.inr (neverCarries_one (by decide) (by decide)))⟩
  · obtain ⟨trace', d', run', -, same⟩ := decompresses
      [(⟨packed, out⟩,
        (Decompressor.construct windowsBuild .gzip).push packed out)] _
      (.one ⟨rfl, rfl⟩)
    exact ⟨trace', d', run',
      same.mpr (.inr (neverCarries_one (by decide) (by decide)))⟩

end Polliwog
