import Polliwog.Engine.Zlib
import Mathlib.Tactic.Tauto

/-!
# The zlib backend

Handles over a `z_stream`.  Every operation loads the spans into the stream,
narrowing their sizes to `uInt`, runs the engine once, and reads the progress
off the two `uLong` counters.
-/

namespace Polliwog

/-- `static_cast<uInt>`: what is left of a size in 32 bits. -/
def uInt (size : Nat) : Nat := size % 2 ^ 32

/-- `std::uint64_t` difference between a counter and an earlier copy of it. -/
def counted {width : Nat} (before after : BitVec width) : Nat :=
  (after.setWidth 64 - before.setWidth 64).toNat

def windowBitsFor : Format → Int
  | .zlib => 15
  | .gzip => 15 + 16
  | .rawDeflate => -15
  | _ => 15

/-- Point a stream at the two spans of a call. -/
def ZStream.load {width : Nat} {σ : Type} (stream : ZStream width σ)
    (input out : Span) : ZStream width σ :=
  { stream with
    nextIn := input.bytes
    availIn := uInt input.size
    nextOutNull := out.isNull
    availOut := uInt out.size }

/-- The ledger entry of an engine call on a loaded stream. -/
def ZCall.entry {width : Nat} {σ : Type} (call : ZCall width σ) (entry : Entry)
    (loaded : ZStream width σ) : EngineCall :=
  { entry := entry
    offered := loaded.availIn
    room := loaded.availOut
    taken := call.taken
    wrote := call.written.length
    ended := call.ret = .streamEnd }

structure ZlibSqueezer (Z : Zlib) where
  stream : ZStream Z.ulongBits Z.Deflate

structure ZlibSweller (Z : Zlib) where
  stream : ZStream Z.ulongBits Z.Inflate

variable {Z : Zlib}

namespace ZlibSqueezer

def make (Z : Zlib) (f : Format) (lvl : ZlibLevel) : ZlibSqueezer Z :=
  { stream := Z.deflateInit2 lvl.toInt (windowBitsFor f) }

def push (h : ZlibSqueezer Z) (input out : Span) :
    Reply (ZlibSqueezer Z) Progress :=
  let loaded := h.stream.load input out
  let call := Z.deflate loaded .finish
  let consumed := counted loaded.totalIn call.stream.totalIn
  let produced := counted loaded.totalOut call.stream.totalOut
  { result :=
      if call.ret ≠ .streamEnd ∧ call.ret ≠ .ok then
        .error { kind := .backendFailure, backend := .zlib, pos := 0,
                 note := "deflate" }
      else
        .ok { bytesIn := consumed, bytesOut := produced, done := call.ret =
          .streamEnd }
    handle := { stream := call.stream }
    written := call.written
    calls := [call.entry .deflate loaded] }

def pushMore (h : ZlibSqueezer Z) (input out : Span) :
    Reply (ZlibSqueezer Z) Progress :=
  let loaded := h.stream.load input out
  let call := Z.deflate loaded .noFlush
  let consumed := counted loaded.totalIn call.stream.totalIn
  let produced := counted loaded.totalOut call.stream.totalOut
  { result :=
      if call.ret ≠ .ok ∧ call.ret ≠ .bufError then
        .error { kind := .backendFailure, backend := .zlib, pos := 0,
                 note := "deflate" }
      else
        .ok { bytesIn := consumed, bytesOut := produced, done := false }
    handle := { stream := call.stream }
    written := call.written
    calls := [call.entry .deflate loaded] }

def flush (h : ZlibSqueezer Z) (out : Span) : Reply (ZlibSqueezer Z) Progress :=
  let loaded := h.stream.load .empty out
  let call := Z.deflate loaded .syncFlush
  let produced := counted loaded.totalOut call.stream.totalOut
  { result :=
      if call.ret ≠ .ok ∧ call.ret ≠ .bufError then
        .error
          { kind := .backendFailure, backend := .zlib, pos := 0,
            note := "deflate flush" }
      else
        .ok { bytesIn := 0, bytesOut := produced, done := false }
    handle := { stream := call.stream }
    written := call.written
    calls := [call.entry .deflate loaded] }

def finish (h : ZlibSqueezer Z) (out : Span) :
    Reply (ZlibSqueezer Z) Progress :=
  h.push .empty out

theorem push_served (h : ZlibSqueezer Z) (input out : Span)
    (served : (Z.deflate (h.stream.load input out) .finish).ret = .streamEnd ∨
      (Z.deflate (h.stream.load input out) .finish).ret = .ok) :
    (h.push input out).result = .ok
      { bytesIn := counted (h.stream.load input out).totalIn
          (Z.deflate (h.stream.load input out) .finish).stream.totalIn
        bytesOut := counted (h.stream.load input out).totalOut
          (Z.deflate (h.stream.load input out) .finish).stream.totalOut
        done := (Z.deflate (h.stream.load input out) .finish).ret =
          .streamEnd } := by
  have accepted :
      ¬ ((Z.deflate (h.stream.load input out) .finish).ret ≠ .streamEnd ∧
      (Z.deflate (h.stream.load input out) .finish).ret ≠ .ok) := by
    tauto
  exact if_neg accepted

theorem push_refused (h : ZlibSqueezer Z) (input out : Span)
    (notEnd : (Z.deflate (h.stream.load input out) .finish).ret ≠ .streamEnd)
    (notOk : (Z.deflate (h.stream.load input out) .finish).ret ≠ .ok) :
    (h.push input out).result = .error
      { kind := .backendFailure, backend := .zlib, pos := 0,
        note := "deflate" } :=
  if_pos ⟨notEnd, notOk⟩

theorem pushMore_served (h : ZlibSqueezer Z) (input out : Span)
    (served : (Z.deflate (h.stream.load input out) .noFlush).ret = .ok ∨
      (Z.deflate (h.stream.load input out) .noFlush).ret = .bufError) :
    (h.pushMore input out).result = .ok
      { bytesIn := counted (h.stream.load input out).totalIn
          (Z.deflate (h.stream.load input out) .noFlush).stream.totalIn
        bytesOut := counted (h.stream.load input out).totalOut
          (Z.deflate (h.stream.load input out) .noFlush).stream.totalOut
        done := false } := by
  have accepted : ¬ ((Z.deflate (h.stream.load input out) .noFlush).ret ≠ .ok ∧
      (Z.deflate (h.stream.load input out) .noFlush).ret ≠ .bufError) := by
    tauto
  exact if_neg accepted

theorem pushMore_refused (h : ZlibSqueezer Z) (input out : Span)
    (refused : (Z.deflate (h.stream.load input out) .noFlush).ret =
      .streamError) :
    (h.pushMore input out).result = .error
      { kind := .backendFailure, backend := .zlib, pos := 0,
        note := "deflate" } :=
  if_pos (by simp [refused])

theorem flush_served (h : ZlibSqueezer Z) (out : Span)
    (served : (Z.deflate (h.stream.load .empty out) .syncFlush).ret = .ok ∨
      (Z.deflate (h.stream.load .empty out) .syncFlush).ret = .bufError) :
    (h.flush out).result = .ok
      { bytesIn := 0
        bytesOut := counted (h.stream.load .empty out).totalOut
          (Z.deflate (h.stream.load .empty out) .syncFlush).stream.totalOut
        done := false } := by
  have accepted :
      ¬ ((Z.deflate (h.stream.load .empty out) .syncFlush).ret ≠ .ok ∧
      (Z.deflate (h.stream.load .empty out) .syncFlush).ret ≠ .bufError) := by
    tauto
  exact if_neg accepted

theorem flush_refused (h : ZlibSqueezer Z) (out : Span)
    (refused : (Z.deflate (h.stream.load .empty out) .syncFlush).ret =
      .streamError) :
    (h.flush out).result = .error
      { kind := .backendFailure, backend := .zlib, pos := 0,
        note := "deflate flush" } :=
  if_pos (by simp [refused])

end ZlibSqueezer

namespace ZlibSweller

def make (Z : Zlib) (f : Format) : ZlibSweller Z :=
  { stream := Z.inflateInit2 (windowBitsFor f) }

def push (h : ZlibSweller Z) (input out : Span) :
    Reply (ZlibSweller Z) Progress :=
  let loaded := h.stream.load input out
  let call := Z.inflate loaded .finish
  let consumed := counted loaded.totalIn call.stream.totalIn
  let produced := counted loaded.totalOut call.stream.totalOut
  { result :=
      if call.ret = .streamEnd then
        -- the stream ended; leftover input is extra data
        if consumed < input.size then
          .error
            { kind := .streamCorrupt, backend := .zlib,
              pos := call.stream.totalIn.toNat
              note := "extra data after end of stream" }
        else
          .ok { bytesIn := consumed, bytesOut := produced, done := true }
      else if call.ret = .ok ∨ call.ret = .bufError then
        -- the stream is not done; the output is taken to have filled first
        if consumed < input.size then
          .error { kind := .bufferTooSmall, backend := .zlib, pos := 0,
                   note := "" }
        else
          .ok { bytesIn := consumed, bytesOut := produced, done := false }
      else
        .error
          { kind := .streamCorrupt
            backend := .zlib
            pos := call.stream.totalIn.toNat
            note := "inflate" }
    handle := { stream := call.stream }
    written := call.written
    calls := [call.entry .inflate loaded] }

def pushMore (h : ZlibSweller Z) (input out : Span) :
    Reply (ZlibSweller Z) Progress :=
  let loaded := h.stream.load input out
  let call := Z.inflate loaded .noFlush
  let consumed := counted loaded.totalIn call.stream.totalIn
  let produced := counted loaded.totalOut call.stream.totalOut
  { result :=
      if call.ret = .streamEnd then
        .ok { bytesIn := consumed, bytesOut := produced, done := true }
      else if call.ret = .ok ∨ call.ret = .bufError then
        .ok { bytesIn := consumed, bytesOut := produced, done := false }
      else
        .error
          { kind := .streamCorrupt
            backend := .zlib
            pos := call.stream.totalIn.toNat
            note := "inflate" }
    handle := { stream := call.stream }
    written := call.written
    calls := [call.entry .inflate loaded] }

end ZlibSweller

namespace ZlibBackend

def formats : List Format := [.zlib, .gzip, .rawDeflate]

/-- `Z_MEM_ERROR`. -/
def memError : Int := -4

def bound (Z : Zlib) (_lvl : ZlibLevel) (inSize : Nat) : Nat :=
  let r := Z.compressBound (BitVec.ofNat Z.ulongBits inSize)
  if r.toInt = memError then 2 ^ 64 - 1 else r.toNat

end ZlibBackend

end Polliwog
