import Polliwog.Engine.ZlibLaws
import Polliwog.Engine.ZstdLaws
import Polliwog.Stream

/-!
# The engines behind a build

Everything the results below assume of the linked engines, over one reading of
the wire formats.
-/

namespace Polliwog

open Codec

/-- The sizes that the two engines promise, over the streams that deflate makes
and the frames of zstd. -/
structure SizeLaws (B : Build) where
  encode : Format → Int → List UInt8 → List UInt8
  sizes : DeflateSizes B.zlib encode
  frames : Wire UInt8
  oneShot : ZstdOneShotLaws B.zstd frames

/-- The decoding engines of a build, any call of which may fail for a reason
that is not in the bytes. -/
structure DecodingLaws (B : Build) where
  wire : Format → Wire UInt8
  inflate : InflateLaws B.zlib wire fun ret => ret = .memError
  faults : ZstdFaults
  fault_isError : ∀ ret, faults.Foreign ret → B.zstd.isError ret = true
  Withholds : B.zstd.DCtx → Prop
  zstd : ZstdDecompressLaws B.zstd (wire .zstd) faults.Foreign Withholds
  hostage : ZstdHostageLaws zstd

/-- Without such a failure a frame is decompressed whole. -/
structure WholeFrameLaws {B : Build} (laws : DecodingLaws B) : Prop where
  decompress_frame : ∀ cap s, (laws.wire .zstd).Complete s →
    ((laws.wire .zstd).content s).length ≤ cap →
    ¬ laws.faults.Foreign (B.zstd.decompress cap s).ret →
    (B.zstd.decompress cap s).ret = ((laws.wire .zstd).content s).length

/-- The encoding engines of a build, and zstd over whole frames. -/
structure EncodingLaws (B : Build) where
  wire : Format → Wire UInt8
  deflate : DeflateLaws B.zlib wire
  sizes : DeflateSizes B.zlib deflate.encode
  oneShot : ZstdOneShotLaws B.zstd (wire .zstd)
  compress : ZstdCompressLaws B.zstd (wire .zstd)
  /-- The operating system named in a gzip header means nothing to a decoder. -/
  os_complete : ∀ s os, (wire .gzip).Complete s →
    (wire .gzip).Complete (s.set 9 os)
  os_content : ∀ s os, (wire .gzip).content (s.set 9 os) =
    (wire .gzip).content s

/-- With them an inflate that fails over nothing but the bytes. -/
structure SwellingLaws (B : Build) extends EncodingLaws B where
  inflate : InflateLaws B.zlib wire fun _ => False

/-- With them a streaming zstd decoder that fails over nothing but the bytes,
and withholds none of them. -/
structure EngineLaws (B : Build) extends SwellingLaws B where
  decompress : ZstdDecompressLaws B.zstd (wire .zstd) (fun _ => False) fun _ =>
    False

/-- The engines find damage as soon as they are shown it, in however little
room, so that how they are fed makes no difference to what they find. -/
structure PromptLaws {B : Build} (laws : EngineLaws B) : Prop where
  inflate : ∀ s flush, s.nextOutNull = false →
    laws.inflate.status s.state = .opened →
    (laws.inflate.view s.state).Prompt
      (laws.wire (laws.inflate.container s.state)) s.offered
      s.availOut (B.zlib.inflate s flush).ret.signal
  decompress : ∀ ctx output input, laws.decompress.status ctx = .opened →
    (laws.decompress.view ctx).Prompt
      (laws.wire .zstd) input.offered output.room
      (B.zstd.signal (B.zstd.decompressStream ctx output input).ret)

/-- What a build relies on for the sizes alone. -/
def EncodingLaws.sizing {B : Build} (laws : EncodingLaws B) : SizeLaws B :=
  ⟨laws.deflate.encode, laws.sizes, laws.wire .zstd, laws.oneShot⟩

/-- The levels that the one-shot layer lets through to an engine. -/
def Accepts (f : Format) (lvl : ZlibLevel) : Prop :=
  f ∈ ZlibBackend.formats → 0 ≤ lvl.toInt ∧ lvl.toInt ≤ 9

instance (f : Format) (lvl : ZlibLevel) : Decidable (Accepts f lvl) :=
  inferInstanceAs (Decidable (_ → _))

/-- What is left of a span in a 32-bit window. -/
def Span.window (span : Span) : List UInt8 := span.bytes.take (uInt span.size)

theorem uInt_lt (size : Nat) : uInt size < 2 ^ 32 := Nat.mod_lt _ (by decide)

theorem uInt_le (size : Nat) : uInt size ≤ size := Nat.mod_le _ _

theorem uInt_of_lt {size : Nat} (short : size < 2 ^ 32) : uInt size = size :=
  Nat.mod_eq_of_lt short

namespace Span

theorem length_window (span : Span) : span.window.length = uInt span.size := by
  have within := uInt_le span.size
  simp only [window, List.length_take, size] at within ⊢
  omega

theorem window_of_lt {span : Span} (short : span.size < 2 ^ 32) :
    span.window = span.bytes := by
  rw [window, uInt_of_lt short]
  exact List.take_length

theorem window_eq_iff (span : Span) :
    span.window = span.bytes ↔ span.size < 2 ^ 32 := by
  constructor
  · intro whole
    have same : uInt span.size = span.size := by
      rw [← length_window, whole, size]
    exact same ▸ uInt_lt span.size
  · exact window_of_lt

end Span

theorem windowContainer_windowBitsFor {f : Format}
    (member : f ∈ ZlibBackend.formats) :
    windowContainer (windowBitsFor f) = some f := by
  revert member
  cases f <;> decide

theorem deflateOpens {f : Format} {lvl : ZlibLevel}
    (member : f ∈ ZlibBackend.formats) (accepted : Accepts f lvl) :
    DeflateOpens lvl.toInt (windowBitsFor f) f :=
  ⟨windowContainer_windowBitsFor member, accepted member⟩

/-- The difference of two counter readings is what was counted in between, as
long as the counter did not wrap. -/
theorem counted_eq {width : Nat} (narrow : width ≤ 64) (before : BitVec width)
    (count : Nat) (fits : before.toNat + count < 2 ^ width) :
    counted before (before + BitVec.ofNat width count) = count := by
  have wider : 2 ^ width ≤ 2 ^ 64 := Nat.pow_le_pow_right (by decide) narrow
  simp only [counted, BitVec.toNat_sub, BitVec.toNat_setWidth, BitVec.toNat_add,
    BitVec.toNat_ofNat]
  rw [Nat.mod_eq_of_lt (a := count) (by omega), Nat.mod_eq_of_lt fits]
  omega

/-- A 64-bit counter may wrap: the difference wraps with it. -/
theorem counted_wide {width : Nat} (wide : width = 64) (before : BitVec width)
    (count : Nat) (fits : count < 2 ^ 64) :
    counted before (before + BitVec.ofNat width count) = count := by
  subst wide
  have bounded := before.isLt
  simp only [counted, BitVec.toNat_sub, BitVec.toNat_setWidth, BitVec.toNat_add,
    BitVec.toNat_ofNat]
  omega

theorem counted_call {width : Nat} (wide : width = 64) {σ : Type}
    {stream : ZStream width σ} {input out : Span} {call : ZCall width σ}
    (counts : call.stream.totalIn =
      (stream.load input out).totalIn + BitVec.ofNat width call.taken ∧
      call.stream.totalOut = (stream.load input out).totalOut +
      BitVec.ofNat width call.written.length)
    (windows : call.taken ≤ (stream.load input out).offered.length ∧
      call.written.length ≤ (stream.load input out).availOut) :
    counted (stream.load input out).totalIn call.stream.totalIn = call.taken ∧
      counted (stream.load input out).totalOut call.stream.totalOut =
        call.written.length := by
  obtain ⟨inCount, outCount⟩ := counts
  obtain ⟨takenLe, writtenLe⟩ := windows
  have window : (stream.load input out).offered.length = uInt input.size :=
    input.length_window
  have room : (stream.load input out).availOut = uInt out.size := rfl
  have shortIn := uInt_lt input.size
  have shortOut := uInt_lt out.size
  rw [inCount, outCount]
  exact ⟨counted_wide wide _ _ (by omega), counted_wide wide _ _ (by omega)⟩

theorem counted_zero {width : Nat} (before : BitVec width) :
    counted before (before + BitVec.ofNat width 0) = 0 := by
  simp [counted]

theorem uInt_le_uLong (Z : Zlib) : 2 ^ 32 ≤ 2 ^ Z.ulongBits := by
  apply Nat.pow_le_pow_right (by decide)
  rcases Z.ulong_width with width | width <;> omega

theorem counted_fresh (Z : Zlib) (count : Nat) (fits : count < 2 ^ 32) :
    counted (0 : BitVec Z.ulongBits) (0 + BitVec.ofNat Z.ulongBits count) =
      count := by
  have zero : (0 : BitVec Z.ulongBits).toNat = 0 := by simp
  have wide := uInt_le_uLong Z
  apply counted_eq
  · rcases Z.ulong_width with width | width <;> omega
  · omega

end Polliwog
