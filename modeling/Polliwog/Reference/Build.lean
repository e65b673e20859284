import Polliwog.Platform
import Polliwog.Reference.Zlib
import Polliwog.Reference.Zstd

/-!
# A build that keeps the laws

The library linked with the two engines that store.  It shows that the laws
can be kept, and its runs can be computed.
-/

namespace Polliwog

open Codec

def storedWire : Format → Wire UInt8
  | .zstd => rawGrammar.wire
  | f => (storedGrammar f).wire

theorem storedWire_of_ne {f : Format} (notZstd : f ≠ .zstd) :
    storedWire f = (storedGrammar f).wire := by
  revert notZstd
  cases f <;> simp [storedWire]

/-- A build on a platform whose `uLong` has `width` bits and whose system is
`os`. -/
def storedBuild (width : Nat) (wide : width = 32 ∨ width = 64) (os : UInt8) :
    Build where
  hasZlib := true
  hasZstd := true
  zlib := storedZlib width wide os
  zstd := rawZstd

variable {width : Nat} {wide : width = 32 ∨ width = 64} {os : UInt8}

def storedLaws (width : Nat) (wide : width = 32 ∨ width = 64) (os : UInt8) :
    EngineLaws (storedBuild width wide os) where
  wire := storedWire
  deflate := storedDeflateLaws fun _ notZstd => storedWire_of_ne notZstd
  inflate := storedInflateLaws fun _ notZstd => storedWire_of_ne notZstd
  sizes := storedDeflateSizes
  oneShot := rawOneShotLaws rfl
  compress := rawCompressLaws rfl
  decompress := rawDecompressLaws rfl
  os_complete _ os complete := complete_set_os complete os
  os_content s os := content_set_os s os

theorem storedIdle (width : Nat) (wide : width = 32 ∨ width = 64) (os : UInt8) :
    InflateIdleLaws (storedLaws width wide os).inflate :=
  storedIdleLaws fun _ notZstd => storedWire_of_ne notZstd

theorem storedTrailer (width : Nat) (wide : width = 32 ∨ width = 64)
    (os : UInt8) :
    InflateTrailerLaws (storedLaws width wide os).inflate :=
  storedTrailerLaws fun _ notZstd => storedWire_of_ne notZstd

theorem storedRoom (width : Nat) (wide : width = 32 ∨ width = 64) (os : UInt8) :
    InflateRoomLaws (storedBuild width wide os).zlib storedWire :=
  storedRoomLaws fun _ notZstd => storedWire_of_ne notZstd

theorem storedPrompt (width : Nat) (wide : width = 32 ∨ width = 64)
    (os : UInt8) :
    PromptLaws (storedLaws width wide os) where
  inflate s flush notNull opened := by
    change Dec.Prompt (storedWire (ZStream.state s).container) _ _ _ _
    rw [storedWire_of_ne (ZStream.state s).notZstd]
    exact StoredZlib.inflate_prompt flush notNull
      ((Signal.status_opened_iff _).mp opened)
  decompress ctx output input opened :=
    RawZstd.decompress_stream_prompt
      ((Signal.status_opened_iff _).mp opened) output input

def storedSeries (width : Nat) (wide : width = 32 ∨ width = 64) (os : UInt8) :
    ZstdSeriesLaws (storedBuild width wide os).zstd (storedWire .zstd) :=
  rawSeriesLaws rfl

theorem storedReuse (width : Nat) (wide : width = 32 ∨ width = 64)
    (os : UInt8) :
    ZstdReuseLaws (storedBuild width wide os).zstd (storedWire .zstd)
      (storedLaws width wide os).compress (storedSeries width wide os) :=
  rawReuseLaws rfl

def storedProgress (width : Nat) (wide : width = 32 ∨ width = 64) (os : UInt8) :
    DeflateProgressLaws (storedBuild width wide os).zlib storedWire
      (storedLaws width wide os).deflate :=
  storedProgressLaws fun _ notZstd => storedWire_of_ne notZstd

def rawProgress (width : Nat) (wide : width = 32 ∨ width = 64) (os : UInt8) :
    ZstdProgressLaws (storedBuild width wide os).zstd (storedWire .zstd)
      (storedLaws width wide os).compress :=
  rawProgressLaws rfl

/-- The same engines as decoders that may fail for other reasons, which they
never do. -/
def storedDecoding (width : Nat) (wide : width = 32 ∨ width = 64) (os : UInt8) :
    DecodingLaws (storedBuild width wide os) where
  wire := storedWire
  inflate := storedInflateLaws fun _ notZstd => storedWire_of_ne notZstd
  faults :=
    { isMemory ret := decide (ret = RawZstd.errorCode 64)
      isIdle ret :=
        decide (ret = RawZstd.errorCode 80 ∨ ret = RawZstd.errorCode 82)
      isTooWide ret := decide (ret = RawZstd.errorCode 16) }
  fault_isError ret foreign := by
    have codes : ret = RawZstd.errorCode 64 ∨
        (ret = RawZstd.errorCode 80 ∨ ret = RawZstd.errorCode 82) ∨
        ret = RawZstd.errorCode 16 := by
      simpa [ZstdFaults.Foreign] using foreign
    have isError (code : Nat) (small : code < 120) :
        RawZstd.isError (RawZstd.errorCode code) = true :=
      RawZstd.isError_errorCode small
    rcases codes with rfl | (rfl | rfl) | rfl
    · exact isError 64 (by decide)
    · exact isError 80 (by decide)
    · exact isError 82 (by decide)
    · exact isError 16 (by decide)
  Withholds _ := False
  zstd := rawDecompressLaws rfl
  hostage := rawHostageLaws rfl

theorem storedFrames (width : Nat) (wide : width = 32 ∨ width = 64)
    (os : UInt8) :
    WholeFrameLaws (storedDecoding width wide os) where
  decompress_frame cap s complete fits _ :=
    congrArg ZstdCall.ret (RawZstd.decompress_frame cap s complete fits)

theorem unix_wide : 64 = 32 ∨ 64 = 64 := .inr rfl

/-- The build on a Unix with a 64-bit `uLong`. -/
abbrev unixBuild : Build := storedBuild 64 unix_wide 3

abbrev unixLaws : EngineLaws unixBuild := storedLaws 64 unix_wide 3

abbrev unixSwelling : SwellingLaws unixBuild := unixLaws.toSwellingLaws

abbrev unixEncoding : EncodingLaws unixBuild := unixLaws.toEncodingLaws

abbrev unixDecoding : DecodingLaws unixBuild := storedDecoding 64 unix_wide 3

theorem windows_wide : 32 = 32 ∨ 32 = 64 := .inl rfl

/-- The build on a Windows, whose `uLong` has 32 bits. -/
abbrev windowsBuild : Build := storedBuild 32 windows_wide 10

abbrev windowsLaws : EngineLaws windowsBuild := storedLaws 32 windows_wide 10

/-- A span over `size` zeros. -/
def Span.zeros (size : Nat) (fits : size < 2 ^ 64) : Span :=
  .ofBytes (List.replicate size 0) (by rwa [List.length_replicate])

/-- An input too short and too plain to compress. -/
def fiveBytes : Span := .ofBytes [1, 2, 3, 4, 5] (by decide)

/-- The `deflate` of the same build on a system `os`. -/
def storedDeflater (width : Nat) (wide : width = 32 ∨ width = 64)
    (os os' : UInt8) :
    Deflater (storedBuild width wide os).zlib where
  Deflate := StoredZlib.Deflate os'
  deflateInit2 := StoredZlib.deflateInit2 os'
  deflate := StoredZlib.deflate

section Twins

open StoredZlib

variable {os' : UInt8} {f : Format} {lvl : Int}

/-- Only the header tells the systems apart. -/
theorem header_on (f : Format) (lvl : Int) (os os' : UInt8)
    (bytes : List UInt8) :
    header f lvl os' ++ bytes = markOs f os' 0 (header f lvl os ++ bytes) := by
  by_cases isGzip : f = .gzip
  · subst isGzip
    rfl
  · rw [markOs_of_ne isGzip]
    revert isGzip
    cases f <;> simp [header]

theorem ready_on {b : Buffer (storedFraming f lvl os)}
    {b' : Buffer (storedFraming f lvl os')} (alike : b.Alike b') :
    b'.ready = markOs f os' 0 b.ready ∧
    b'.stream = markOs f os' 0 b.stream := by
  have stream : b'.stream = markOs f os' 0 b.stream := by
    simp only [Buffer.stream, alike.chunks, alike.pending]
    cases b.chunks with
    | none =>
        simp only [Framing.body, Framing.tail, storedFraming, List.nil_append,
          List.append_assoc]
        exact header_on f lvl os os' _
    | some chunks =>
        simp only [Framing.body, Framing.tail, storedFraming, List.append_assoc]
        exact header_on f lvl os os' _
  refine ⟨?_, stream⟩
  simp only [Buffer.ready, alike.closing, stream]
  split
  · rfl
  · rw [alike.chunks]
    cases b.chunks with
    | none => simp [Framing.body, markOs]
    | some chunks => exact header_on f lvl os os' _

theorem written_on {b : Buffer (storedFraming f lvl os)}
    {b' : Buffer (storedFraming f lvl os')} (alike : b.Alike b') (room : Nat) :
    b'.written room = markOs f os' b.emitted (b.written room) := by
  rw [Buffer.written, Buffer.written, (ready_on alike).1, alike.emitted,
    markOs_drop, markOs_take]

/-- Two streams at the same place of one session, on two systems. -/
inductive OnSystems : Deflate os → Deflate os' → Prop where
  | mk {f : Format} {notZstd : f ≠ .zstd} {lvl : Int}
    {b : Buffer (storedFraming f lvl os)}
      {b' : Buffer (storedFraming f lvl os')} :
      b.Alike b' → OnSystems ⟨f, notZstd, lvl, b⟩ ⟨f, notZstd, lvl, b'⟩

theorem prepare_on (notZstd : f ≠ .zstd) {b : Buffer (storedFraming f lvl os)}
    {b' : Buffer (storedFraming f lvl os')} (alike : b.Alike b')
    (offered : List UInt8) (flush : ZFlush) :
    (prepare (⟨f, notZstd, lvl, b⟩ : Deflate os) offered flush).Alike
      (prepare (⟨f, notZstd, lvl, b'⟩ : Deflate os') offered flush) := by
  cases flush with
  | noFlush => exact alike.absorb offered
  | syncFlush => exact (alike.absorb offered).sync
  | finish => exact (alike.absorb offered).close

theorem emit_on {b : Buffer (storedFraming f lvl os)}
    {b' : Buffer (storedFraming f lvl os')} (alike : b.Alike b') (room : Nat) :
    (b.emit room).Alike (b'.emit room) ∧
      ((b'.emit room).view.rest = [] ↔ (b.emit room).view.rest = []) ∧
      (b'.written room = [] ↔ b.written room = []) := by
  have written := written_on alike room
  have length : (b'.written room).length = (b.written room).length := by
    rw [written, length_markOs]
  have next := alike.emit length
  have stream := congrArg List.length (ready_on next).2
  rw [length_markOs] at stream
  refine ⟨next, ?_, ?_⟩
  · rw [← List.length_eq_zero_iff, ← List.length_eq_zero_iff, Buffer.view,
      Buffer.view, List.length_drop, List.length_drop, next.emitted, stream]
  · rw [← List.length_eq_zero_iff, ← List.length_eq_zero_iff, length]

theorem advance_on {s : ZStream width (Deflate os)}
    {s' : ZStream width (Deflate os')} (alike : s.Alike OnSystems s')
    {taken : Nat} {written written' : List UInt8}
    (length : written'.length = written.length) {d : Deflate os}
    {d' : Deflate os'} (next : OnSystems d d') :
    (advance s taken written d).Alike OnSystems
      (advance s' taken written' d') where
  nextIn := congrArg (List.drop taken) alike.nextIn
  availIn := congrArg (· - taken) alike.availIn
  nextOutNull := alike.nextOutNull
  availOut := congrArg₂ (· - ·) alike.availOut length
  totalIn := congrArg (· + _) alike.totalIn
  totalOut := congrArg₂ (· + BitVec.ofNat width ·) alike.totalOut length
  state := next

/-- What two platforms do alike in one call, but for the mark. -/
structure CallsAlike (s : ZStream width (Deflate os))
    (call : ZCall width (Deflate os)) (call' : ZCall width (Deflate os')) :
    Prop where
  ret : call'.ret = call.ret
  stream : call.stream.Alike OnSystems call'.stream
  emitted : call.stream.state.buffer.emitted =
    s.state.buffer.emitted + call.written.length
  written : call'.written =
    markOs s.state.container os' s.state.buffer.emitted call.written

theorem idle_on {s : ZStream width (Deflate os)}
    {s' : ZStream width (Deflate os')} (alike : s.Alike OnSystems s')
    (ret : ZRet) : CallsAlike s (idle ret s) (idle ret s') :=
  ⟨rfl, advance_on alike rfl alike.state, rfl, (markOs_nil _ _ _).symm⟩

theorem OnSystems.closing {d : Deflate os} {d' : Deflate os'}
    (on : OnSystems d d') :
    d'.buffer.closing = d.buffer.closing := by
  cases on with
  | mk alike => exact alike.closing

theorem emitted_prepare (d : Deflate os) (offered : List UInt8)
    (flush : ZFlush) :
    (prepare d offered flush).emitted = d.buffer.emitted := by
  have absorbed : (d.buffer.absorb offered).emitted = d.buffer.emitted := by
    unfold Buffer.absorb
    split <;> rfl
  cases flush with
  | noFlush => exact absorbed
  | syncFlush =>
      have synced : (d.buffer.absorb offered).sync.emitted =
          (d.buffer.absorb offered).emitted := by
        rw [Buffer.sync]
        split
        · split <;> rfl
        · rfl
      exact synced.trans absorbed
  | finish => exact absorbed

theorem OnSystems.emit {d : Deflate os} {d' : Deflate os'} (on : OnSystems d d')
    (offered : List UInt8) (flush : ZFlush) (room : Nat) :
    OnSystems { d with buffer := (prepare d offered flush).emit room }
        { d' with buffer := (prepare d' offered flush).emit room } ∧
      (((prepare d' offered flush).emit room).view.rest = [] ↔
        ((prepare d offered flush).emit room).view.rest = []) ∧
      ((prepare d' offered flush).written room = [] ↔
        (prepare d offered flush).written room = []) ∧
      (prepare d' offered flush).written room =
        markOs d.container os' d.buffer.emitted
          ((prepare d offered flush).written room) := by
  cases on with
  | @mk f notZstd lvl b b' alike =>
      have prepared := prepare_on notZstd alike offered flush
      obtain ⟨next, rest, written⟩ := emit_on prepared room
      refine ⟨.mk next, rest, written, ?_⟩
      rw [written_on prepared room, emitted_prepare]

theorem serve_on {s : ZStream width (Deflate os)}
    {s' : ZStream width (Deflate os')} (flush : ZFlush)
    (alike : s.Alike OnSystems s') :
    CallsAlike s (serve s flush) (serve s' flush) := by
  have offered : s'.offered = s.offered := by
    rw [ZStream.offered, ZStream.offered, alike.nextIn, alike.availIn]
  obtain ⟨next, rest, nothing, written⟩ :=
    alike.state.emit s.offered flush s.availOut
  have length := congrArg List.length written
  rw [length_markOs] at length
  constructor
  · simp only [serve, offered, alike.availOut, rest, nothing]
  · simp only [serve, offered, alike.availOut]
    exact advance_on alike length next
  · change (prepare s.state s.offered flush).emitted + _ = _
    rw [emitted_prepare]
    rfl
  · simp only [serve, offered, alike.availOut]
    exact written

/-- A call does the same on both systems, but for the mark. -/
theorem deflate_on {s : ZStream width (Deflate os)}
    {s' : ZStream width (Deflate os')} (flush : ZFlush)
    (alike : s.Alike OnSystems s') :
    CallsAlike s (deflate s flush) (deflate s' flush) := by
  have closing := alike.state.closing
  have offered : s'.offered = s.offered := by
    rw [ZStream.offered, ZStream.offered, alike.nextIn, alike.availIn]
  have refuses : Refuses s' flush ↔ Refuses s flush := by
    rw [Refuses, Refuses, closing, alike.nextOutNull]
  have stalls : Stalls s' ↔ Stalls s := by
    rw [Stalls, Stalls, closing, offered, alike.availOut]
  simp only [deflate, refuses, stalls]
  split
  · exact idle_on alike .streamError
  · split
    · exact idle_on alike .bufError
    · exact serve_on flush alike

theorem init_on (lvl bits : Int) :
    (deflateInit2 os lvl bits : ZStream width _).Alike OnSystems
      (deflateInit2 os' lvl bits) :=
  ⟨rfl, rfl, rfl, rfl, rfl, rfl, .mk ⟨rfl, rfl, rfl, rfl⟩⟩

theorem OnSystems.refl (d : Deflate os) : OnSystems d d := by
  obtain ⟨f, notZstd, lvl, b⟩ := d
  exact .mk ⟨rfl, rfl, rfl, rfl⟩

/-- A build that stores is the same on another platform, but for the mark. -/
def storedTwins (width : Nat) (wide : width = 32 ∨ width = 64)
    (os os' : UInt8) :
    (storedLaws width wide os).toEncodingLaws.Twins
      (storedDeflater width wide os os') os os' where
  Alike := OnSystems
  emitted (d : Deflate os) := d.buffer.emitted
  opens _ := ⟨init_on _ _, rfl⟩
  deflates flush alike :=
    ⟨(deflate_on flush alike).ret, (deflate_on flush alike).stream,
      (deflate_on flush alike).emitted⟩
  marks {s s'} flush alike := by
    have itself : s.Alike OnSystems s := ⟨rfl, rfl, rfl, rfl, rfl, rfl, .refl _⟩
    exact ⟨(deflate_on flush itself).written, (deflate_on flush alike).written⟩

end Twins

end Polliwog
