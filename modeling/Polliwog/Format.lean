import Mathlib.Algebra.Order.Ring.Nat
import Mathlib.Data.List.Basic

/-!
# Wire formats and typed levels

The enumeration lists every container on the roadmap, including one that no
engine serves yet.  A level is any `int`, and the range of an engine is checked,
if at all, by the layers above.
-/

namespace Polliwog

inductive Format where
  | zlib
  | gzip
  | rawDeflate
  | zstd
  | lz4Frame
  deriving DecidableEq, Repr

structure ZlibLevel where
  toInt : Int
  deriving DecidableEq, Repr

namespace ZlibLevel

def defaultLevel : ZlibLevel := ⟨6⟩

end ZlibLevel

structure ZstdLevel where
  toInt : Int
  deriving DecidableEq, Repr

namespace ZstdLevel

def defaultLevel : ZstdLevel := ⟨3⟩

end ZstdLevel

end Polliwog
