import Polliwog.Session
import Polliwog.OneShot.Squeezing

/-!
# Two platforms

A build moved to another platform keeps its engines but for `deflate`, which
there names another operating system at index 9 of a gzip stream.
-/

namespace Polliwog

open Codec

/-- The bytes of a stream of which `emitted` came before, with the operating
system at its place. -/
def markOs (f : Format) (os : UInt8) (emitted : Nat) (bytes : List UInt8) :
    List UInt8 :=
  if f = .gzip ∧ emitted ≤ 9 then bytes.set (9 - emitted) os else bytes

@[simp] theorem length_markOs (f : Format) (os : UInt8) (emitted : Nat)
    (bytes : List UInt8) :
    (markOs f os emitted bytes).length = bytes.length := by
  unfold markOs
  split <;> simp

theorem markOs_of_ne {f : Format} (notGzip : f ≠ .gzip) (os : UInt8)
    (emitted : Nat) (bytes : List UInt8) : markOs f os emitted bytes = bytes :=
  if_neg fun stamped => notGzip stamped.1

@[simp] theorem markOs_nil (f : Format) (os : UInt8) (emitted : Nat) :
    markOs f os emitted [] = [] := by
  simp [markOs]

theorem markOs_gzip (os : UInt8) (bytes : List UInt8) :
    markOs .gzip os 0 bytes = bytes.set 9 os := by
  simp [markOs]

theorem markOs_append (f : Format) (os : UInt8) (emitted : Nat)
    (first second : List UInt8) :
    markOs f os emitted (first ++ second) =
      markOs f os emitted first ++
      markOs f os (emitted + first.length) second := by
  by_cases isGzip : f = .gzip
  · subst isGzip
    simp only [markOs, true_and]
    rcases Nat.lt_or_ge 9 emitted with past | before
    · rw [if_neg (by omega), if_neg (by omega), if_neg (by omega)]
    · rw [if_pos before, if_pos before, List.set_append]
      rcases Nat.lt_or_ge (9 - emitted) first.length with inside | beyond
      · rw [if_pos inside, if_neg (by omega)]
      · rw [if_neg (by omega), if_pos (by omega),
          List.set_eq_of_length_le beyond, Nat.sub_add_eq]
  · simp only [markOs_of_ne isGzip]

theorem markOs_drop (f : Format) (os : UInt8) (bytes : List UInt8)
    (count : Nat) :
    (markOs f os 0 bytes).drop count =
      markOs f os count (bytes.drop count) := by
  by_cases isGzip : f = .gzip
  · subst isGzip
    rw [markOs_gzip, List.drop_set]
    rcases Nat.lt_or_ge 9 count with past | before
    · rw [if_pos past, markOs, if_neg (by omega)]
    · rw [if_neg (by omega), markOs, if_pos ⟨rfl, before⟩]
  · rw [markOs_of_ne isGzip, markOs_of_ne isGzip]

theorem markOs_take (f : Format) (os : UInt8) (emitted : Nat)
    (bytes : List UInt8) (count : Nat) :
    (markOs f os emitted bytes).take count =
      markOs f os emitted (bytes.take count) := by
  unfold markOs
  split
  · exact List.take_set
  · rfl

/-- The stamp of a squeeze hides the operating system. -/
@[simp] theorem stampOs_markOs (f : Format) (os : UInt8) (bytes : List UInt8) :
    stampOs f (markOs f os 0 bytes) = stampOs f bytes := by
  by_cases isGzip : f = .gzip
  · subst isGzip
    simp [markOs_gzip, stampOs]
  · rw [markOs_of_ne isGzip]

/-- Two streams with equal public halves. -/
structure ZStream.Alike {width : Nat} {σ τ : Type} (R : σ → τ → Prop)
    (stream : ZStream width σ) (stream' : ZStream width τ) : Prop where
  nextIn : stream'.nextIn = stream.nextIn
  availIn : stream'.availIn = stream.availIn
  nextOutNull : stream'.nextOutNull = stream.nextOutNull
  availOut : stream'.availOut = stream.availOut
  totalIn : stream'.totalIn = stream.totalIn
  totalOut : stream'.totalOut = stream.totalOut
  state : R stream.state stream'.state

theorem ZStream.Alike.load {width : Nat} {σ τ : Type} {R : σ → τ → Prop}
    {stream : ZStream width σ} {stream' : ZStream width τ}
    (alike : stream.Alike R stream') (input out : Span) :
    (stream.load input out).Alike R (stream'.load input out) :=
  ⟨rfl, rfl, rfl, rfl, alike.totalIn, alike.totalOut, alike.state⟩

/-- The `deflate` of another platform. -/
structure Deflater (Z : Zlib) where
  Deflate : Type
  deflateInit2 : (level windowBits : Int) → ZStream Z.ulongBits Deflate
  deflate : ZStream Z.ulongBits Deflate → ZFlush → ZCall Z.ulongBits Deflate

def Zlib.withDeflate (Z : Zlib) (other : Deflater Z) : Zlib :=
  { Z with
    Deflate := other.Deflate
    deflateInit2 := other.deflateInit2
    deflate := other.deflate }

/-- A build on another platform. -/
def Build.on (B : Build) (other : Deflater B.zlib) : Build :=
  { B with zlib := B.zlib.withDeflate other }

variable {B : Build}

/-- One `deflate` but for the operating system: what it does on the two
platforms differs in no more than that byte. -/
structure EncodingLaws.Twins (laws : EncodingLaws B) (other : Deflater B.zlib)
    (os os' : UInt8) where
  Alike : B.zlib.Deflate → other.Deflate → Prop
  emitted : B.zlib.Deflate → Nat
  opens : ∀ {lvl bits f}, DeflateOpens lvl bits f →
    (B.zlib.deflateInit2 lvl bits).Alike Alike (other.deflateInit2 lvl bits) ∧
      emitted (B.zlib.deflateInit2 lvl bits).state = 0
  deflates : ∀ {s s'} flush, s.Alike Alike s' →
    (other.deflate s' flush).ret = (B.zlib.deflate s flush).ret ∧
      (B.zlib.deflate s flush).stream.Alike Alike
        (other.deflate s' flush).stream ∧
      emitted (B.zlib.deflate s flush).stream.state =
        emitted s.state + (B.zlib.deflate s flush).written.length
  marks : ∀ {s s'} flush, s.Alike Alike s' →
    (B.zlib.deflate s flush).written =
      markOs (laws.deflate.container s.state) os
        (emitted s.state) (B.zlib.deflate s flush).written ∧
      (other.deflate s' flush).written =
        markOs (laws.deflate.container s.state) os'
        (emitted s.state) (B.zlib.deflate s flush).written

end Polliwog
