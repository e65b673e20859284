import Polliwog.OneShot.Squeezing
import Polliwog.Reference.Build

/-!
# The bound against the stream

One formula, made for the zlib wrapper, bounds three containers, and it is
evaluated in `uLong`.  The gzip wrapper is twelve bytes longer, and a 32-bit
`uLong` loses the upper half of a length.
-/

namespace Polliwog

open Codec

variable {B : Build}

/-- The complete stream that the engine of a format emits for an input. -/
def SizeLaws.stream (laws : SizeLaws B) (f : Format) (lvl : ZlibLevel)
    (u : List UInt8) :
    List UInt8 :=
  if f = .zstd then laws.oneShot.frame lvl.toInt u
    else laws.encode f lvl.toInt u

/-- The bound covers the stream, or gives up. -/
def HonestBound (laws : SizeLaws B) (f : Format) (lvl : ZlibLevel)
    (u : List UInt8) :
    Prop :=
  (laws.stream f lvl u).length ≤ bound B f lvl u.length ∨
    bound B f lvl u.length = 2 ^ 64 - 1

/-- Where the formula fits `uLong`, all but gzip are covered, and gzip is if
its body leaves eighteen bytes.  Where it does not fit, a 64-bit `uLong` gives
up and a narrower one has to cover the stream by what is left of the length.
The value that reads as an engine error gives up as well. -/
def BoundCovers (laws : SizeLaws B) (f : Format) (lvl : ZlibLevel)
    (u : List UInt8) :
    Prop :=
  let n := u.length
  let top := 2 ^ B.zlib.ulongBits - 1
  f = .zstd ∨
    compressSum (n % 2 ^ B.zlib.ulongBits) = 2 ^ B.zlib.ulongBits - 4 ∨
    (compressSum n < top ∧
      (f = .gzip → laws.sizes.body lvl.toInt u + 18 ≤ compressSum n)) ∨
    (top ≤ compressSum n ∧
      (B.zlib.ulongBits = 64 ∨
        wrapperLength f + laws.sizes.body lvl.toInt u ≤
          min (compressSum (n % 2 ^ B.zlib.ulongBits)) top))

theorem le_compressSum (n : Nat) : n + 13 ≤ compressSum n := by
  simp only [compressSum]
  omega

/-- `Z_MEM_ERROR` is what the fourth value from the top reads as. -/
theorem toInt_eq_memError_iff {width : Nat} (known : width = 32 ∨ width = 64)
    (r : BitVec width) :
    r.toInt = ZlibBackend.memError ↔ r.toNat = 2 ^ width - 4 := by
  have bounded := r.isLt
  rw [BitVec.toInt_eq_toNat_cond, ZlibBackend.memError]
  rcases known with rfl | rfl <;> omega

namespace SizeLaws

variable (laws : SizeLaws B)

include laws in
theorem zlibBound_eq (lvl : ZlibLevel) (n : Nat) :
    ZlibBackend.bound B.zlib lvl n =
      if compressSum (n % 2 ^ B.zlib.ulongBits) = 2 ^ B.zlib.ulongBits - 4
        then 2 ^ 64 - 1
      else min (compressSum (n % 2 ^ B.zlib.ulongBits))
        (2 ^ B.zlib.ulongBits - 1) := by
  have value := laws.sizes.bound_eq (BitVec.ofNat B.zlib.ulongBits n)
  rw [BitVec.toNat_ofNat] at value
  have wide := uInt_le_uLong B.zlib
  have reads : (B.zlib.compressBound (BitVec.ofNat B.zlib.ulongBits n)).toInt =
        ZlibBackend.memError ↔
      compressSum (n % 2 ^ B.zlib.ulongBits) = 2 ^ B.zlib.ulongBits - 4 := by
    rw [toInt_eq_memError_iff B.zlib.ulong_width, value]
    omega
  simp only [ZlibBackend.bound, value, reads]

variable {f : Format} {lvl : ZlibLevel} {u : List UInt8}

theorem length_stream (member : f ∈ ZlibBackend.formats)
    (accepted : Accepts f lvl) :
    (laws.stream f lvl u).length =
      wrapperLength f + laws.sizes.body lvl.toInt u := by
  rw [stream, if_neg (ne_zstd_of_mem member)]
  exact laws.sizes.encode_length u (deflateOpens member accepted)

/-- A zlib or raw stream is covered by the formula; only gzip can exceed it. -/
theorem length_stream_le_iff (member : f ∈ ZlibBackend.formats)
    (accepted : Accepts f lvl) :
    (laws.stream f lvl u).length ≤ compressSum u.length ↔
      (f = .gzip → laws.sizes.body lvl.toInt u + 18 ≤
        compressSum u.length) := by
  have body := laws.sizes.body_le lvl.toInt u
  rw [laws.length_stream member accepted]
  cases f with
  | gzip => simp [wrapperLength, Nat.add_comm]
  | zlib => simp [wrapperLength]; omega
  | rawDeflate => simp [wrapperLength]; omega
  | zstd => exact absurd member (by decide)
  | lz4Frame => exact absurd member (by decide)

theorem honest_zstd (has : B.hasZstd = true) :
    HonestBound laws .zstd lvl u := by
  rw [HonestBound, bound_of_zstd has]
  simp only [stream, ↓reduceIte, ZstdBackend.bound]
  cases failed : B.zstd.isError (B.zstd.compressBound u.length) with
  | true => simp
  | false => simp [laws.oneShot.frame_le u lvl.toInt failed]

end SizeLaws

/-- The bound is honest exactly where `BoundCovers` says so. -/
theorem bound_honest_iff (laws : SizeLaws B) {f : Format} {lvl : ZlibLevel}
    {u : List UInt8} (serves : B.Serves f) (accepted : Accepts f lvl)
    (sized : u.length < 2 ^ 64) :
    HonestBound laws f lvl u ↔ BoundCovers laws f lvl u := by
  rcases mem_formats_or_zstd serves with ⟨has, member⟩ | ⟨has, rfl⟩
  case inr => exact iff_of_true (laws.honest_zstd has) (.inl rfl)
  have notZstd : f ≠ .zstd := ne_zstd_of_mem member
  have sum := le_compressSum u.length
  have length := laws.length_stream (u := u) member accepted
  have covered := laws.length_stream_le_iff (u := u) member accepted
  simp only [HonestBound, BoundCovers, bound_of_zlib member has,
    laws.zlibBound_eq, notZstd, false_or]
  by_cases isError : compressSum (u.length % 2 ^ B.zlib.ulongBits) =
    2 ^ B.zlib.ulongBits - 4
  · simp [isError]
  simp only [isError, ↓reduceIte, false_or]
  rcases Nat.lt_or_ge (compressSum u.length) (2 ^ B.zlib.ulongBits - 1)
    with fits | above
  · have whole : u.length % 2 ^ B.zlib.ulongBits = u.length :=
      Nat.mod_eq_of_lt (by omega)
    have least : min (compressSum u.length) (2 ^ B.zlib.ulongBits - 1) =
        compressSum u.length := by
      omega
    have belowTop : compressSum u.length ≠ 2 ^ 64 - 1 := by
      rcases B.zlib.ulong_width with width | width <;> rw [width]
        at fits <;> omega
    rw [whole, least, or_iff_left belowTop, covered]
    simp [fits, Nat.not_le.mpr fits]
  · simp only [Nat.not_lt.mpr above, above, false_and, true_and, false_or]
    rw [length]
    rcases B.zlib.ulong_width with width | width
    · have narrow : min (compressSum (u.length % 2 ^ B.zlib.ulongBits))
          (2 ^ B.zlib.ulongBits - 1) ≠ 2 ^ 64 - 1 := by
        rw [width]
        omega
      rw [or_iff_left narrow]
      simp [width]
    · have whole : u.length % 2 ^ B.zlib.ulongBits = u.length := by
        rw [width]
        exact Nat.mod_eq_of_lt sized
      have saturated : min (compressSum (u.length % 2 ^ B.zlib.ulongBits))
          (2 ^ B.zlib.ulongBits - 1) = 2 ^ 64 - 1 := by
        rw [whole]
        rw [width] at above ⊢
        omega
      exact iff_of_true (.inr saturated) (.inl width)

theorem honest_zlib :
    HonestBound unixLaws.sizing .zlib ⟨0⟩ [1, 2, 3, 4, 5] := by
  apply (bound_honest_iff unixLaws.sizing (by decide) (by decide)
    (by decide)).mpr
  exact .inr (.inr (.inl ⟨by decide, nofun⟩))

/-- A gzip stream of five stored bytes is 28 bytes long, and its bound is 18. -/
theorem not_honest_gzip :
    unixBuild.Serves .gzip ∧ Accepts .gzip ⟨0⟩ ∧
      ¬ HonestBound unixLaws.sizing .gzip ⟨0⟩ [1, 2, 3, 4, 5] := by
  refine ⟨by decide, by decide, ?_⟩
  unfold HonestBound
  decide

end Polliwog
