import Polliwog.Codec.Decoder
import Polliwog.Codec.Encoder
import Polliwog.Engine.Zlib

/-!
# What the backend may rely on in zlib

The documented behaviour of the entry points, over a private view of each
stream: what it has absorbed and emitted, or read and delivered, so far.
Nothing is said about the calls the manual leaves open.
-/

namespace Polliwog

open Codec

/-- The container that a window-bits argument selects. -/
def windowContainer (bits : Int) : Option Format :=
  if bits = 15 then some .zlib
  else if bits = 31 then some .gzip
  else if bits = -15 then some .rawDeflate
  else none

/-- The arguments of `deflateInit2` that open a stream of container `f`. -/
def DeflateOpens (lvl bits : Int) (f : Format) : Prop :=
  windowContainer bits = some f ∧ 0 ≤ lvl ∧ lvl ≤ 9

/-- How a decoding call is to be read. -/
def ZRet.signal : ZRet → Signal
  | .ok | .bufError => .more
  | .streamEnd => .done
  | _ => .bad

/-- The counters of a deflate stream advance by what was taken and written, at
their width. -/
structure DeflateCounters (Z : Zlib) : Prop where
  open_counts : ∀ {lvl bits f}, DeflateOpens lvl bits f →
    (Z.deflateInit2 lvl bits).totalIn = 0 ∧
    (Z.deflateInit2 lvl bits).totalOut = 0
  counts : ∀ s flush,
    (Z.deflate s flush).stream.totalIn =
        s.totalIn + BitVec.ofNat _ (Z.deflate s flush).taken ∧
      (Z.deflate s flush).stream.totalOut =
        s.totalOut + BitVec.ofNat _ (Z.deflate s flush).written.length
  windows : ∀ s flush,
    (Z.deflate s flush).taken ≤ s.offered.length ∧
      (Z.deflate s flush).written.length ≤ s.availOut

/-- So do those of an inflate stream. -/
structure InflateCounters (Z : Zlib) : Prop where
  open_counts : ∀ {bits f}, windowContainer bits = some f →
    (Z.inflateInit2 bits).totalIn = 0 ∧ (Z.inflateInit2 bits).totalOut = 0
  counts : ∀ s flush,
    (Z.inflate s flush).stream.totalIn =
        s.totalIn + BitVec.ofNat _ (Z.inflate s flush).taken ∧
      (Z.inflate s flush).stream.totalOut =
        s.totalOut + BitVec.ofNat _ (Z.inflate s flush).written.length
  windows : ∀ s flush,
    (Z.inflate s flush).taken ≤ s.offered.length ∧
      (Z.inflate s flush).written.length ≤ s.availOut

structure DeflateLaws (Z : Zlib) (wire : Format → Wire UInt8) extends
    DeflateCounters Z where
  container : Z.Deflate → Format
  view : Z.Deflate → Enc UInt8
  /-- The whole stream of an input compressed in one go. -/
  encode : Format → Int → List UInt8 → List UInt8
  sound : ∀ d, (view d).Sound (wire (container d))
  encode_complete : ∀ {lvl bits f} u, DeflateOpens lvl bits f →
    (wire f).Complete (encode f lvl u)
  encode_content : ∀ {lvl bits f} u, DeflateOpens lvl bits f →
    (wire f).content (encode f lvl u) = u
  open_container : ∀ {lvl bits f}, DeflateOpens lvl bits f →
    container (Z.deflateInit2 lvl bits).state = f
  open_view : ∀ {lvl bits f}, DeflateOpens lvl bits f →
    view (Z.deflateInit2 lvl bits).state = ⟨[], [], encode f lvl []⟩
  container_kept : ∀ s flush,
    container (Z.deflate s flush).stream.state = container s.state
  /-- A null output pointer is refused. -/
  null_refused : ∀ s flush, s.nextOutNull = true →
    (Z.deflate s flush).ret = .streamError
  /-- A refused call changes nothing. -/
  refused_idle : ∀ s flush, (Z.deflate s flush).ret = .streamError →
    (Z.deflate s flush).taken = 0 ∧ (Z.deflate s flush).written = [] ∧
      view (Z.deflate s flush).stream.state = view s.state
  absorbs : ∀ s flush, flush ≠ .finish → ¬ (view s.state).Ended →
    (Z.deflate s flush).ret = .ok ∨ (Z.deflate s flush).ret = .bufError →
    (view s.state).Absorbs s.offered s.availOut (Z.deflate s flush).taken
      (Z.deflate s flush).written (view (Z.deflate s flush).stream.state)
  /-- Only a full output window leaves a flush incomplete. -/
  synced : ∀ s, ¬ (view s.state).Ended → s.offered = [] →
    (Z.deflate s .syncFlush).ret = .ok ∨
    (Z.deflate s .syncFlush).ret = .bufError →
    (Z.deflate s .syncFlush).written.length < s.availOut →
    (wire (container s.state)).content
        (view (Z.deflate s .syncFlush).stream.state).output =
      (view (Z.deflate s .syncFlush).stream.state).source
  /-- Without `Z_FINISH` a call is served or refused. -/
  served_or_refused : ∀ s flush, flush ≠ .finish →
    (Z.deflate s flush).ret = .ok ∨ (Z.deflate s flush).ret = .bufError ∨
      (Z.deflate s flush).ret = .streamError
  finishes : ∀ s, s.nextOutNull = false → ¬ (view s.state).Ended →
    s.offered = [] → 0 < s.availOut →
    (view s.state).Finishes s.availOut (Z.deflate s .finish).written
        (view (Z.deflate s .finish).stream.state) ∧
      (Z.deflate s .finish).ret =
        if (view s.state).rest.length ≤ s.availOut then .streamEnd else .ok
  /-- Finishing into no room makes no progress. -/
  finish_no_room : ∀ s, s.nextOutNull = false → s.availOut = 0 →
    (Z.deflate s .finish).ret = .bufError ∧
      view (Z.deflate s .finish).stream.state = view s.state
  /-- After the end nothing more is emitted, and nothing more is accepted. -/
  ended_idle : ∀ s, (view s.state).Ended → (Z.deflate s .finish).written = [] ∧
    view (Z.deflate s .finish).stream.state = view s.state
  ended_done : ∀ s, s.nextOutNull = false → (view s.state).Ended →
    s.offered = [] → 0 < s.availOut → (Z.deflate s .finish).ret = .streamEnd
  ended_refused : ∀ s flush, flush ≠ .finish → (view s.state).Ended →
    (Z.deflate s flush).ret = .streamError
  /-- A fresh stream finished at once, into room for all of it. -/
  fresh_fits : ∀ {lvl bits f} s, DeflateOpens lvl bits f →
    s.nextOutNull = false → s.state = (Z.deflateInit2 lvl bits).state →
    (encode f lvl s.offered).length ≤ s.availOut →
    (Z.deflate s .finish).ret = .streamEnd ∧
      (Z.deflate s .finish).taken = s.offered.length ∧
      (Z.deflate s .finish).written = encode f lvl s.offered
  /-- A fresh stream finished at once, cut at the room. -/
  fresh_cut : ∀ {lvl bits f} s, DeflateOpens lvl bits f →
    s.nextOutNull = false →
    s.state = (Z.deflateInit2 lvl bits).state → 0 < s.availOut →
    s.availOut < (encode f lvl s.offered).length →
    (Z.deflate s .finish).ret = .ok ∧
      (Z.deflate s .finish).written = (encode f lvl s.offered).take s.availOut

/-- Between its windows deflate does not stand still, and it holds back only so
much. -/
structure DeflateProgressLaws (Z : Zlib) (wire : Format → Wire UInt8)
    (laws : DeflateLaws Z wire) where
  backlog : Z.Deflate → Nat
  progress : ∀ s, ¬ (laws.view s.state).Ended → s.offered ≠ [] →
    0 < s.availOut →
    (Z.deflate s .noFlush).ret = .ok ∨ (Z.deflate s .noFlush).ret = .bufError →
    0 < (Z.deflate s .noFlush).taken ∨
      (0 < (Z.deflate s .noFlush).written.length ∧
        backlog (Z.deflate s .noFlush).stream.state +
        (Z.deflate s .noFlush).written.length ≤
          backlog s.state)

/-- A decoding call either reads on or, with an answer that is `Foreign`, fails
for a reason that is not in the bytes. -/
structure InflateLaws (Z : Zlib) (wire : Format → Wire UInt8)
    (Foreign : ZRet → Prop) extends InflateCounters Z where
  container : Z.Inflate → Format
  view : Z.Inflate → Dec UInt8
  status : Z.Inflate → Dec.Status
  open_container : ∀ {bits f}, windowContainer bits = some f →
    container (Z.inflateInit2 bits).state = f
  open_view : ∀ {bits f}, windowContainer bits = some f →
    view (Z.inflateInit2 bits).state = .fresh
  open_status : ∀ {bits f}, windowContainer bits = some f →
    status (Z.inflateInit2 bits).state = .opened
  container_kept : ∀ s flush,
    container (Z.inflate s flush).stream.state = container s.state
  /-- A null output pointer is refused. -/
  null_refused : ∀ s flush, s.nextOutNull = true →
    (Z.inflate s flush).ret = .streamError
  reads : ∀ s flush, s.nextOutNull = false → status s.state = .opened →
    ¬ Foreign (Z.inflate s flush).ret →
    (view s.state).Reads (wire (container s.state)) s.offered s.availOut
      (Z.inflate s flush).taken (Z.inflate s flush).written
        (Z.inflate s flush).ret.signal
  advances : ∀ s flush, s.nextOutNull = false → status s.state = .opened →
    (Z.inflate s flush).ret.signal ≠ .bad →
    view (Z.inflate s flush).stream.state =
        (view s.state).after (s.offered.take (Z.inflate s flush).taken)
          (Z.inflate s flush).written ∧
      status (Z.inflate s flush).stream.state =
        (Z.inflate s flush).ret.signal.status

/-- What a call leaves alone that is refused, or comes after the end or after an
error. -/
structure InflateIdleLaws {Z : Zlib} {wire : Format → Wire UInt8}
    {Foreign : ZRet → Prop} (laws : InflateLaws Z wire Foreign) : Prop where
  null_idle : ∀ s flush, s.nextOutNull = true →
    (Z.inflate s flush).written = [] ∧
      laws.view (Z.inflate s flush).stream.state = laws.view s.state ∧
      laws.status (Z.inflate s flush).stream.state = laws.status s.state
  failed : ∀ s flush, s.nextOutNull = false → laws.status s.state = .opened →
    (Z.inflate s flush).ret.signal = .bad →
    laws.status (Z.inflate s flush).stream.state = .failed
  settled_idle : ∀ s flush, laws.status s.state ≠ .opened →
    (Z.inflate s flush).written = [] ∧
      laws.status (Z.inflate s flush).stream.state = laws.status s.state

/-- A check value is read after all content is out. -/
structure InflateTrailerLaws {Z : Zlib} {wire : Format → Wire UInt8}
    {Foreign : ZRet → Prop} (laws : InflateLaws Z wire Foreign) : Prop where
  trailer : ∀ s flush, s.nextOutNull = false → laws.status s.state = .opened →
    laws.container s.state = .zlib ∨ laws.container s.state = .gzip →
    (Z.inflate s flush).ret.signal = .more →
    ¬ (wire (laws.container s.state)).Complete
      ((laws.view s.state).read ++ s.offered.take (Z.inflate s flush).taken)

/-- A fresh raw stream that is offered whole and not read to its end. -/
structure CutShort (Z : Zlib) (wire : Format → Wire UInt8)
    (s : ZStream Z.ulongBits Z.Inflate) : Prop where
  fresh : s.state = (Z.inflateInit2 (-15)).state
  notNull : s.nextOutNull = false
  complete : (wire .rawDeflate).Complete s.offered
  more : (Z.inflate s .finish).ret.signal = .more

/-- How far inflate reads into a raw stream whose content has no room. -/
structure InflateRoomLaws (Z : Zlib) (wire : Format → Wire UInt8) : Prop where
  /-- No byte is read before all that can be decoded without it is out. -/
  frugal : ∀ s, CutShort Z wire s →
    ∀ p b, s.offered.take (Z.inflate s .finish).taken = p ++ [b] →
      ((wire .rawDeflate).content p).length ≤
        (Z.inflate s .finish).written.length
  /-- A byte of a stored block is read into some room. -/
  copied : ∀ s, CutShort Z wire s →
    ∀ p b, s.offered.take (Z.inflate s .finish).taken = p ++ [b] →
      (wire .rawDeflate).Copies p →
      ((wire .rawDeflate).content p).length <
        (Z.inflate s .finish).written.length
  /-- Any other byte is read as soon as nothing decodable is held back. -/
  eager : ∀ s, CutShort Z wire s →
    (Z.inflate s .finish).taken < s.offered.length →
    (Z.inflate s .finish).written =
      (wire .rawDeflate).content (s.offered.take (Z.inflate s .finish).taken) →
    (wire .rawDeflate).Copies (s.offered.take (Z.inflate s .finish).taken)

/-- The bytes a container adds around a deflate body. -/
def wrapperLength : Format → Nat
  | .zlib => 6
  | .gzip => 18
  | _ => 0

/-- The sum behind `compressBound`, before it saturates. -/
def compressSum (n : Nat) : Nat :=
  n + (n >>> 12) + (n >>> 14) + (n >>> 25) + 13

/-- The sizes of streams and of the bound on them. -/
structure DeflateSizes (Z : Zlib)
    (encode : Format → Int → List UInt8 → List UInt8) where
  bound_eq : ∀ m, (Z.compressBound m).toNat =
    min (compressSum m.toNat) (2 ^ Z.ulongBits - 1)
  /-- The length of the deflate body of an input at a level. -/
  body : Int → List UInt8 → Nat
  encode_length : ∀ {lvl bits f} u, DeflateOpens lvl bits f →
    (encode f lvl u).length = wrapperLength f + body lvl u
  body_pos : ∀ lvl u, 1 ≤ body lvl u
  body_le : ∀ lvl u, body lvl u + 6 ≤ compressSum u.length

end Polliwog
