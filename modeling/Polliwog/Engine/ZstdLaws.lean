import Polliwog.Codec.Decoder
import Polliwog.Codec.Encoder
import Polliwog.Engine.Zstd

/-!
# What the backend may rely on in zstd

The one-shot functions, then the two streaming ones.  A compression context
whose frame has ended opens another frame at its next call, and its view starts
afresh.
-/

namespace Polliwog

open Codec

/-- How a decoding call is to be read. -/
def Zstd.signal (S : Zstd) (ret : Nat) : Signal :=
  if S.isError ret then .bad else if ret = 0 then .done else .more

/-- The input window of a streaming call. -/
def InBuffer.offered (input : InBuffer) : List UInt8 := input.src.drop input.pos

/-- The output window of a streaming call. -/
def OutBuffer.room (output : OutBuffer) : Nat := output.size - output.pos

/-- A streaming call advances both positions by what it used, inside the
buffers it was given. -/
structure ZstdStreamCall.Within {σ : Type} (call : ZstdStreamCall σ)
    (output : OutBuffer) (input : InBuffer) (taken : Nat) : Prop where
  taken_le : taken ≤ input.offered.length
  room_le : call.written.length ≤ output.room
  src : call.input.src = input.src
  inPos : call.input.pos = input.pos + taken
  size : call.output.size = output.size
  outPos : call.output.pos = output.pos + call.written.length

structure ZstdOneShotLaws (S : Zstd) (wire : Wire UInt8) where
  zero_ok : S.isError 0 = false
  /-- Nothing is stored past the capacity. -/
  compress_room : ∀ cap src lvl, (S.compress cap src lvl).written.length ≤ cap
  /-- A compression that succeeds stores one whole frame of its source, whose
  size is no error code. -/
  compress_ok : ∀ cap src lvl, S.isError (S.compress cap src lvl).ret = false →
    (S.compress cap src lvl).written.length = (S.compress cap src lvl).ret ∧
      wire.Complete (S.compress cap src lvl).written ∧
      wire.content (S.compress cap src lvl).written = src ∧
      S.isError src.length = false
  /-- The frame stored when the capacity is at least the bound. -/
  frame : Int → List UInt8 → List UInt8
  compress_roomy : ∀ cap src lvl,
    S.isError (S.compressBound src.length) = false →
    S.compressBound src.length ≤ cap →
    S.isError (S.compress cap src lvl).ret = false ∧
      (S.compress cap src lvl).written = frame lvl src
  frame_le : ∀ src lvl, S.isError (S.compressBound src.length) = false →
    (frame lvl src).length ≤ S.compressBound src.length
  decompress_frame : ∀ cap s, wire.Complete s → (wire.content s).length ≤ cap →
    S.isError (wire.content s).length = false →
    (S.decompress cap s).ret = (wire.content s).length ∧
      (S.decompress cap s).written = wire.content s
  decompress_truncated : ∀ cap p s, wire.Complete s → p <+: s → p ≠ s → p ≠ [] →
    S.isError (S.decompress cap p).ret = true
  decompress_nil : ∀ cap, (S.decompress cap []).ret = 0

/-- What one-shot decompression makes of what follows a frame, and of too
little room. -/
structure ZstdSeriesLaws (S : Zstd) (wire : Wire UInt8) where
  Skippable : List UInt8 → Prop
  /-- A series of frames is decoded as a whole. -/
  series : ∀ cap src c, wire.Series Skippable src c → c.length ≤ cap →
    (S.decompress cap src).ret = c.length
  /-- Anything else after a frame is an error. -/
  trailing : ∀ cap s t, wire.Complete s → (¬ ∃ c, wire.Series Skippable t c) →
    S.isError (S.decompress cap (s ++ t)).ret = true
  /-- So is a capacity less than the content. -/
  no_room : ∀ cap s, wire.Complete s → cap < (wire.content s).length →
    S.isError (S.decompress cap s).ret = true

structure ZstdCompressLaws (S : Zstd) (wire : Wire UInt8) where
  view : S.CCtx → Enc UInt8
  /-- Ending has begun: until it is over only ending calls are in order. -/
  finishing : S.CCtx → Prop
  sound : ∀ ctx, (view ctx).Sound wire
  open_view :
    ∀ lvl, (view (S.setCompressionLevel S.createCCtx lvl)).source = [] ∧
    (view (S.setCompressionLevel S.createCCtx lvl)).output = [] ∧
    ¬ (view (S.setCompressionLevel S.createCCtx lvl)).Ended ∧
    ¬ finishing (S.setCompressionLevel S.createCCtx lvl)
  taken : S.CCtx → OutBuffer → InBuffer → EndDirective → Nat
  within : ∀ ctx output input op,
    (S.compressStream2 ctx output input op).Within output input
      (taken ctx output input op)
  /-- A call that fails has stored nothing and changed nothing. -/
  failed_idle : ∀ ctx output input op,
    S.isError (S.compressStream2 ctx output input op).ret = true →
    (S.compressStream2 ctx output input op).written = [] ∧
      view (S.compressStream2 ctx output input op).ctx = view ctx ∧
      (finishing (S.compressStream2 ctx output input op).ctx → finishing ctx)
  absorbs : ∀ ctx output input op, op ≠ .end_ → ¬ (view ctx).Ended →
    ¬ finishing ctx →
    S.isError (S.compressStream2 ctx output input op).ret = false →
    (view ctx).Absorbs input.offered output.room (taken ctx output input op)
        (S.compressStream2 ctx output input op).written
        (view (S.compressStream2 ctx output input op).ctx) ∧
      ¬ finishing (S.compressStream2 ctx output input op).ctx
  /-- Only a full output buffer leaves a flush incomplete. -/
  synced : ∀ ctx output input, ¬ (view ctx).Ended → ¬ finishing ctx →
    input.offered = [] →
    S.isError (S.compressStream2 ctx output input .flush).ret = false →
    (S.compressStream2 ctx output input .flush).written.length < output.room →
    wire.content (view (S.compressStream2 ctx output input .flush).ctx).output =
      (view (S.compressStream2 ctx output input .flush).ctx).source
  /-- Ending an open frame appends its next pending bytes, and returns zero
  exactly when none are left. -/
  ends : ∀ ctx output input, ¬ (view ctx).Ended → input.offered = [] →
    S.isError (S.compressStream2 ctx output input .end_).ret = false ∧
      (view (S.compressStream2 ctx output input .end_).ctx).source =
        (view ctx).source ∧
      (view (S.compressStream2 ctx output input .end_).ctx).output =
        (view ctx).output ++
        (S.compressStream2 ctx output input .end_).written ∧
      (view ctx).rest = (S.compressStream2 ctx output input .end_).written ++
        (view (S.compressStream2 ctx output input .end_).ctx).rest ∧
      ((S.compressStream2 ctx output input .end_).ret = 0 ↔
        (view (S.compressStream2 ctx output input .end_).ctx).Ended)
  /-- Ending into some room stores something if anything is left after it. -/
  end_progress : ∀ ctx output input, ¬ (view ctx).Ended → input.offered = [] →
    0 < output.room → 0 < (S.compressStream2 ctx output input .end_).ret →
    (S.compressStream2 ctx output input .end_).written ≠ []
  /-- A context whose frame has ended behaves as one about to open a frame. -/
  reopened : S.CCtx → S.CCtx
  reopens : ∀ ctx, (view ctx).Ended →
    (¬ (view (reopened ctx)).Ended ∧ ¬ finishing (reopened ctx)) ∧
    ∀ output input op,
      S.compressStream2 ctx output input op =
        S.compressStream2 (reopened ctx) output input op

/-- Between its buffers compression does not stand still, and it holds back only
so much. -/
structure ZstdProgressLaws (S : Zstd) (wire : Wire UInt8)
    (laws : ZstdCompressLaws S wire) where
  backlog : S.CCtx → Nat
  progress : ∀ ctx output input, ¬ (laws.view ctx).Ended →
    ¬ laws.finishing ctx → input.offered ≠ [] → 0 < output.room →
    S.isError (S.compressStream2 ctx output input .continue_).ret = false →
    0 < laws.taken ctx output input .continue_ ∨
      (0 < (S.compressStream2 ctx output input .continue_).written.length ∧
        backlog (S.compressStream2 ctx output input .continue_).ctx +
            (S.compressStream2 ctx output input .continue_).written.length ≤
          backlog ctx)

/-- A context that opens another frame starts it afresh, and the frames that one
context made are decoded together. -/
structure ZstdReuseLaws (S : Zstd) (wire : Wire UInt8)
    (laws : ZstdCompressLaws S wire) (whole : ZstdSeriesLaws S wire) :
    Prop where
  fresh : ∀ ctx, (laws.view ctx).Ended →
    (laws.view (laws.reopened ctx)).source = [] ∧
    (laws.view (laws.reopened ctx)).output = []
  series_written : ∀ cap src c, wire.Series whole.Skippable src c →
    c.length ≤ cap →
    S.isError c.length = false → (S.decompress cap src).written = c

/-- What an ending call on a context does to the bytes that are still to come,
errors included.  Nothing is said about a context with none. -/
structure ZstdEndLaws (S : Zstd) where
  pending : S.CCtx → List UInt8
  within : ∀ ctx output, pending ctx ≠ [] →
    (S.compressStream2 ctx output { src := [], pos := 0 } .end_).Within output
      { src := [], pos := 0 } 0
  appends : ∀ ctx output, pending ctx ≠ [] →
    S.isError (S.compressStream2 ctx output { src := [], pos := 0 } .end_).ret =
      false →
    pending ctx =
      (S.compressStream2 ctx output { src := [], pos := 0 } .end_).written ++
        pending (S.compressStream2 ctx output
          { src := [], pos := 0 } .end_).ctx ∧
      ((S.compressStream2 ctx output { src := [], pos := 0 } .end_).ret = 0 ↔
        pending (S.compressStream2 ctx output
          { src := [], pos := 0 } .end_).ctx = [])
  progress : ∀ ctx output, pending ctx ≠ [] →
    S.isError (S.compressStream2 ctx output { src := [], pos := 0 } .end_).ret =
      false →
    0 < (S.compressStream2 ctx output { src := [], pos := 0 } .end_).ret →
    (S.compressStream2 ctx output { src := [], pos := 0 } .end_).output.pos <
      output.size →
    (S.compressStream2 ctx output { src := [], pos := 0 } .end_).written ≠ []

/-- The ending calls of a context, as its encoder sees them. -/
def ZstdCompressLaws.endLaws {S : Zstd} {wire : Wire UInt8}
    (laws : ZstdCompressLaws S wire) :
    ZstdEndLaws S where
  pending ctx := (laws.view ctx).rest
  within ctx output _ := by
    have buffers := laws.within ctx output { src := [], pos := 0 } .end_
    have nothing : laws.taken ctx output { src := [], pos := 0 } .end_ = 0 :=
      Nat.le_zero.mp buffers.taken_le
    rw [nothing] at buffers
    exact buffers
  appends ctx output opened _ := by
    obtain ⟨-, -, -, left, ended⟩ :=
      laws.ends ctx output { src := [], pos := 0 } opened rfl
    exact ⟨left, ended⟩
  progress ctx output opened _ more room := by
    apply laws.end_progress ctx output { src := [], pos := 0 } opened rfl _ more
    have moved := (laws.within ctx output { src := [], pos := 0 } .end_).outPos
    simp only [OutBuffer.room]
    omega

/-- The errors of zstd that are not about the bytes. -/
structure ZstdFaults where
  /-- `ZSTD_error_memory_allocation`. -/
  isMemory : Nat → Bool
  /-- `ZSTD_error_noForwardProgress_destFull` and `_inputEmpty`: too many calls
  in a row with nothing to read or no room. -/
  isIdle : Nat → Bool
  /-- `ZSTD_error_frameParameter_windowTooLarge`: a window beyond the limit of
  the context. -/
  isTooWide : Nat → Bool

def ZstdFaults.Foreign (faults : ZstdFaults) (ret : Nat) : Prop :=
  faults.isMemory ret = true ∨ faults.isIdle ret = true ∨
  faults.isTooWide ret = true

/-- A decoding call either reads on or, with an answer that is `Foreign`, fails
for a reason that is not in the bytes.  Nothing is said of what a context
delivers while it `Withholds` a byte that it has read. -/
structure ZstdDecompressLaws (S : Zstd) (wire : Wire UInt8)
    (Foreign : Nat → Prop) (Withholds : S.DCtx → Prop) where
  view : S.DCtx → Dec UInt8
  status : S.DCtx → Dec.Status
  open_view : view S.createDCtx = .fresh
  open_status : status S.createDCtx = .opened
  open_free : ¬ Withholds S.createDCtx
  taken : S.DCtx → OutBuffer → InBuffer → Nat
  within : ∀ ctx output input,
    (S.decompressStream ctx output input).Within output input
      (taken ctx output input)
  reads : ∀ ctx output input, status ctx = .opened → ¬ Withholds ctx →
    ¬ Withholds (S.decompressStream ctx output input).ctx →
    ¬ Foreign (S.decompressStream ctx output input).ret →
    (view ctx).Reads wire input.offered output.room (taken ctx output input)
      (S.decompressStream ctx output input).written
      (S.signal (S.decompressStream ctx output input).ret)
  advances : ∀ ctx output input, status ctx = .opened →
    S.signal (S.decompressStream ctx output input).ret ≠ .bad →
    view (S.decompressStream ctx output input).ctx =
        (view ctx).after (input.offered.take (taken ctx output input))
          (S.decompressStream ctx output input).written ∧
      status (S.decompressStream ctx output input).ctx =
        (S.signal (S.decompressStream ctx output input).ret).status

/-- While the content of a frame does not fit, its last byte is a hostage: it
has been read, and is reported as taken when all is delivered. -/
structure ZstdHostageLaws {S : Zstd} {wire : Wire UInt8} {Foreign : Nat → Prop}
    {Withholds : S.DCtx → Prop}
    (laws : ZstdDecompressLaws S wire Foreign Withholds) :
    Prop where
  begins : ∀ ctx output input, laws.status ctx = .opened → ¬ Withholds ctx →
    Withholds (S.decompressStream ctx output input).ctx →
    ¬ Foreign (S.decompressStream ctx output input).ret →
    S.signal (S.decompressStream ctx output input).ret = .more ∧
      ∃ last rest, input.offered.drop (laws.taken ctx output input) =
        last :: rest ∧ wire.Complete
          ((laws.view ctx).read ++
            input.offered.take (laws.taken ctx output input) ++ [last])
  ends : ∀ ctx output input, laws.status ctx = .opened → Withholds ctx →
    ¬ Foreign (S.decompressStream ctx output input).ret →
    (S.signal (S.decompressStream ctx output input).ret = .done ∧
        laws.taken ctx output input = 1) ∨
      (S.signal (S.decompressStream ctx output input).ret = .more ∧
        laws.taken ctx output input = 0 ∧
        Withholds (S.decompressStream ctx output input).ctx)

end Polliwog
