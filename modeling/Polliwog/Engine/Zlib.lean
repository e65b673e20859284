import Polliwog.Backend

/-!
# The entry points of zlib

zlib is linked, not vendored, so it enters the model as a parameter: a type
for the private half of each stream and one function for each entry point the
backend calls.  The public half, `ZStream`, has the fields that the backend
reads and writes.
-/

namespace Polliwog

/-- Return codes of `deflate` and `inflate`. -/
inductive ZRet where
  | ok
  | streamEnd
  | needDict
  | errno
  | streamError
  | dataError
  | memError
  | bufError
  | versionError
  deriving DecidableEq, Repr

/-- The flush modes the backend asks for. -/
inductive ZFlush where
  | noFlush
  | syncFlush
  | finish
  deriving DecidableEq, Repr

/-- A `z_stream` on a platform whose `uLong` has `width` bits.  `nextIn` is
what can be read at `next_in`, nothing if the pointer is null; of `next_out`
only whether it is null matters, since an engine only writes there. -/
structure ZStream (width : Nat) (σ : Type) where
  nextIn : List UInt8
  availIn : Nat
  nextOutNull : Bool
  availOut : Nat
  totalIn : BitVec width
  totalOut : BitVec width
  state : σ

namespace ZStream

variable {width : Nat} {σ : Type}

/-- The input window of a call. -/
def offered (stream : ZStream width σ) : List UInt8 :=
  stream.nextIn.take stream.availIn

end ZStream

/-- The outcome of one call: how many bytes were taken from `next_in` and
which were stored at `next_out`. -/
structure ZCall (width : Nat) (σ : Type) where
  ret : ZRet
  stream : ZStream width σ
  taken : Nat
  written : List UInt8

structure Zlib where
  ulongBits : Nat
  ulong_width : ulongBits = 32 ∨ ulongBits = 64
  Deflate : Type
  Inflate : Type
  compressBound : BitVec ulongBits → BitVec ulongBits
  deflateInit2 : (level windowBits : Int) → ZStream ulongBits Deflate
  deflate : ZStream ulongBits Deflate → ZFlush → ZCall ulongBits Deflate
  inflateInit2 : (windowBits : Int) → ZStream ulongBits Inflate
  inflate : ZStream ulongBits Inflate → ZFlush → ZCall ulongBits Inflate

end Polliwog
