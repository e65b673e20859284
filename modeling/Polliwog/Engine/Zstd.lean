import Polliwog.Backend

/-!
# The entry points of zstd

Like zlib, zstd is a parameter of the model.  Its functions return a `size_t`
that is a byte count, a hint or an error code; `isError` tells which.  A
streaming call advances the positions of the two buffers it is given.
-/

namespace Polliwog

/-- `ZSTD_EndDirective`. -/
inductive EndDirective where
  | continue_
  | flush
  | end_
  deriving DecidableEq, Repr

/-- `ZSTD_inBuffer`. -/
structure InBuffer where
  src : List UInt8
  pos : Nat

def InBuffer.size (input : InBuffer) : Nat := input.src.length

/-- `ZSTD_outBuffer`.  What is stored behind `dst` is reported by the call. -/
structure OutBuffer where
  size : Nat
  pos : Nat

/-- The outcome of a one-shot call. -/
structure ZstdCall where
  ret : Nat
  written : List UInt8

/-- The outcome of a streaming call on a context. -/
structure ZstdStreamCall (σ : Type) where
  ret : Nat
  ctx : σ
  input : InBuffer
  output : OutBuffer
  written : List UInt8

structure Zstd where
  CCtx : Type
  DCtx : Type
  isError : Nat → Bool
  getErrorName : Nat → String
  minCLevel : Int
  maxCLevel : Int
  compressBound : Nat → Nat
  createCCtx : CCtx
  setCompressionLevel : CCtx → Int → CCtx
  compress : (dstCapacity : Nat) → (src : List UInt8) → (level : Int) → ZstdCall
  compressStream2 : CCtx → OutBuffer → InBuffer → EndDirective →
    ZstdStreamCall CCtx
  createDCtx : DCtx
  decompress : (dstCapacity : Nat) → (src : List UInt8) → ZstdCall
  decompressStream : DCtx → OutBuffer → InBuffer → ZstdStreamCall DCtx

end Polliwog
