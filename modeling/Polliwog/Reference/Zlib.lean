import Polliwog.Engine.ZlibLaws
import Polliwog.Reference.Stored

/-!
# A zlib that stores

The entry points of zlib over stored blocks, and the laws they keep.  At level
0 and on short inputs this is what zlib does.
-/

namespace Polliwog

open Codec

namespace StoredZlib

variable {width : Nat}

/-- The private half of a deflate stream on a system `os`. -/
structure Deflate (os : UInt8) where
  container : Format
  notZstd : container ≠ .zstd
  level : Int
  buffer : Buffer (storedFraming container level os)

/-- The private half of an inflate stream: all that it has read. -/
structure Inflate where
  container : Format
  notZstd : container ≠ .zstd
  read : List UInt8

/-- A stream that has not been pointed at anything. -/
def opened {σ : Type} (state : σ) : ZStream width σ :=
  { nextIn := []
    availIn := 0
    nextOutNull := true
    availOut := 0
    totalIn := 0
    totalOut := 0
    state := state }

/-- The public half after a call. -/
def advance {σ τ : Type} (s : ZStream width σ) (taken : Nat)
    (written : List UInt8) (state : τ) :
    ZStream width τ :=
  { nextIn := s.nextIn.drop taken
    availIn := s.availIn - taken
    nextOutNull := s.nextOutNull
    availOut := s.availOut - written.length
    totalIn := s.totalIn + BitVec.ofNat width taken
    totalOut := s.totalOut + BitVec.ofNat width written.length
    state := state }

/-- A call that did nothing. -/
def idle {σ : Type} (ret : ZRet) (s : ZStream width σ) : ZCall width σ :=
  { ret := ret, stream := advance s 0 [] s.state, taken := 0, written := [] }

def containerOf (bits : Int) : Format := (windowContainer bits).getD .rawDeflate

theorem containerOf_ne_zstd (bits : Int) : containerOf bits ≠ .zstd := by
  unfold containerOf windowContainer
  split_ifs <;> decide

def deflateInit2 (os : UInt8) (lvl bits : Int) : ZStream width (Deflate os) :=
  opened
    { container := containerOf bits
      notZstd := containerOf_ne_zstd bits
      level := lvl
      buffer := .fresh _ }

variable {os : UInt8}

/-- Take in what is offered, then commit to what the flush mode asks for. -/
def prepare (d : Deflate os) (offered : List UInt8) (flush : ZFlush) :
    Buffer (storedFraming d.container d.level os) :=
  match flush with
  | .noFlush => d.buffer.absorb offered
  | .syncFlush => (d.buffer.absorb offered).sync
  | .finish => (d.buffer.absorb offered).close

/-- A call that the manual rules out. -/
def Refuses (s : ZStream width (Deflate os)) (flush : ZFlush) : Prop :=
  s.nextOutNull = true ∨ (s.state.buffer.closing = true ∧ flush ≠ .finish)

/-- A call that cannot make progress. -/
def Stalls (s : ZStream width (Deflate os)) : Prop :=
  s.availOut = 0 ∨ (s.state.buffer.closing = true ∧ s.offered ≠ [])

instance (s : ZStream width (Deflate os)) (flush : ZFlush) :
    Decidable (Refuses s flush) :=
  inferInstanceAs (Decidable (_ ∨ _))

instance (s : ZStream width (Deflate os)) : Decidable (Stalls s) :=
  inferInstanceAs (Decidable (_ ∨ _))

def serve (s : ZStream width (Deflate os)) (flush : ZFlush) :
    ZCall width (Deflate os) :=
  let buffer := prepare s.state s.offered flush
  let written := buffer.written s.availOut
  let next := buffer.emit s.availOut
  { ret :=
      if flush = .finish then if next.view.rest = [] then .streamEnd else .ok
      else if s.offered = [] ∧ written = [] then .bufError
      else .ok
    stream := advance s s.offered.length written { s.state with buffer := next }
    taken := s.offered.length
    written := written }

def deflate (s : ZStream width (Deflate os)) (flush : ZFlush) :
    ZCall width (Deflate os) :=
  if Refuses s flush then idle .streamError s
  else if Stalls s then idle .bufError s
  else serve s flush

def inflateInit2 (bits : Int) : ZStream width Inflate :=
  opened
    { container := containerOf bits
      notZstd := containerOf_ne_zstd bits
      read := [] }

def Inflate.machine (i : Inflate) : Serial UInt8 (Grammar.State UInt8 Part) :=
  (storedGrammar i.container).machine

def Inflate.signal (i : Inflate) : Signal :=
  i.machine.signal (i.machine.state i.machine.start i.read)

def inflate (s : ZStream width Inflate) (flush : ZFlush) :
    ZCall width Inflate :=
  if s.nextOutNull = true then idle .streamError s
  else
    let machine := s.state.machine
    let drive :=
      machine.drive (machine.state machine.start s.state.read)
        s.offered s.availOut
    { ret :=
        match machine.signal drive.state with
        | .done => .streamEnd
        | .bad => .dataError
        | .more =>
            if flush = .finish ∨ (drive.taken = 0 ∧ drive.written = [])
              then .bufError else .ok
      stream := advance s drive.taken drive.written
        { s.state with read := s.state.read ++ s.offered.take drive.taken }
      taken := drive.taken
      written := drive.written }

/-- The sum behind `compressBound`, saturated. -/
def compressBound (m : BitVec width) : BitVec width :=
  BitVec.ofNat width (min (compressSum m.toNat) (2 ^ width - 1))

end StoredZlib

/-- A zlib on a platform whose `uLong` has `width` bits and whose system is
`os`. -/
def storedZlib (width : Nat) (wide : width = 32 ∨ width = 64) (os : UInt8) :
    Zlib where
  ulongBits := width
  ulong_width := wide
  Deflate := StoredZlib.Deflate os
  Inflate := StoredZlib.Inflate
  compressBound := StoredZlib.compressBound
  deflateInit2 := StoredZlib.deflateInit2 os
  deflate := StoredZlib.deflate
  inflateInit2 := StoredZlib.inflateInit2
  inflate := StoredZlib.inflate

namespace StoredZlib

variable {width : Nat} {os : UInt8}

theorem deflate_refused {s : ZStream width (Deflate os)} {flush : ZFlush}
    (refuses : Refuses s flush) : deflate s flush = idle .streamError s :=
  if_pos refuses

theorem deflate_stalled {s : ZStream width (Deflate os)} {flush : ZFlush}
    (accepts : ¬ Refuses s flush) (stalls : Stalls s) :
    deflate s flush = idle .bufError s :=
  (if_neg accepts).trans (if_pos stalls)

theorem deflate_served {s : ZStream width (Deflate os)} {flush : ZFlush}
    (accepts : ¬ Refuses s flush) (runs : ¬ Stalls s) :
    deflate s flush = serve s flush :=
  (if_neg accepts).trans (if_neg runs)

theorem deflate_cases (s : ZStream width (Deflate os)) (flush : ZFlush) :
    (Refuses s flush ∧ deflate s flush = idle .streamError s) ∨
      (¬ Refuses s flush ∧ Stalls s ∧ deflate s flush = idle .bufError s) ∨
      (¬ Refuses s flush ∧ ¬ Stalls s ∧ deflate s flush = serve s flush) := by
  by_cases refuses : Refuses s flush
  · exact .inl ⟨refuses, deflate_refused refuses⟩
  · by_cases stalls : Stalls s
    · exact .inr (.inl ⟨refuses, stalls, deflate_stalled refuses stalls⟩)
    · exact .inr (.inr ⟨refuses, stalls, deflate_served refuses stalls⟩)

/-- What is true of every call that did nothing and of every call that was
served is true of every call. -/
theorem deflate_induction (P : ZCall width (Deflate os) → Prop)
    {s : ZStream width (Deflate os)} {flush : ZFlush}
    (idles : ∀ ret, P (idle ret s)) (serves : P (serve s flush)) :
    P (deflate s flush) := by
  rcases deflate_cases s flush
    with ⟨-, same⟩ | ⟨-, -, same⟩ | ⟨-, -, same⟩ <;> rw [same]
  · exact idles _
  · exact idles _
  · exact serves

theorem deflate_takes {s : ZStream width (Deflate os)} (offers : s.offered ≠ [])
    (room : 0 < s.availOut)
    (served : (deflate s .noFlush).ret = .ok ∨
      (deflate s .noFlush).ret = .bufError) :
    0 < (deflate s .noFlush).taken := by
  rcases deflate_cases s .noFlush
    with ⟨-, same⟩ | ⟨accepts, stalls, -⟩ | ⟨-, -, same⟩
  · rw [same] at served
    rcases served with ret | ret <;> cases ret
  · rcases stalls with noRoom | ⟨closing, -⟩
    · exact absurd noRoom room.ne'
    · exact absurd (.inr ⟨closing, by decide⟩) accepts
  · rw [same]
    exact List.length_pos_iff.mpr offers

theorem counts (s : ZStream width (Deflate os)) (flush : ZFlush) :
    (deflate s flush).stream.totalIn =
        s.totalIn + BitVec.ofNat width (deflate s flush).taken ∧
      (deflate s flush).stream.totalOut =
        s.totalOut + BitVec.ofNat width (deflate s flush).written.length :=
  deflate_induction
    (fun call => call.stream.totalIn =
      s.totalIn + BitVec.ofNat width call.taken ∧
      call.stream.totalOut =
        s.totalOut + BitVec.ofNat width call.written.length)
    (fun _ => ⟨rfl, rfl⟩) ⟨rfl, rfl⟩

theorem windows (s : ZStream width (Deflate os)) (flush : ZFlush) :
    (deflate s flush).taken ≤ s.offered.length ∧
      (deflate s flush).written.length ≤ s.availOut :=
  deflate_induction
    (fun call => call.taken ≤ s.offered.length ∧
      call.written.length ≤ s.availOut)
    (fun _ => ⟨Nat.zero_le _, Nat.zero_le _⟩) ⟨le_rfl, Buffer.length_written _⟩

theorem container_kept (s : ZStream width (Deflate os)) (flush : ZFlush) :
    (deflate s flush).stream.state.container = s.state.container :=
  deflate_induction (fun call => call.stream.state.container =
    s.state.container) (fun _ => rfl) rfl

theorem closing_prepare (d : Deflate os) (offered : List UInt8) {flush : ZFlush}
    (notFinish : flush ≠ .finish) :
    (prepare d offered flush).closing = d.buffer.closing := by
  cases flush with
  | noFlush => exact Buffer.closing_absorb offered
  | syncFlush => exact Buffer.closing_sync.trans (Buffer.closing_absorb offered)
  | finish => exact absurd rfl notFinish

theorem view_prepare {d : Deflate os} (writing : d.buffer.closing = false)
    (offered : List UInt8) (flush : ZFlush) :
    (prepare d offered flush).view.source = d.buffer.view.source ++ offered ∧
      (prepare d offered flush).view.output = d.buffer.view.output := by
  obtain ⟨source, output⟩ := Buffer.view_absorb writing offered
  have still := (Buffer.closing_absorb offered).trans writing
  cases flush with
  | noFlush => exact ⟨source, output⟩
  | syncFlush =>
      obtain ⟨source', output'⟩ := Buffer.view_sync still
      exact ⟨source'.trans source, output'.trans output⟩
  | finish => exact ⟨source, output⟩

theorem closing_of_ended {d : Deflate os} (ended : d.buffer.view.Ended) :
    d.buffer.closing = true := by
  cases closing : d.buffer.closing with
  | true => rfl
  | false => exact absurd ended (Buffer.not_ended closing)

/-- Nothing changes when nothing is taken in. -/
theorem view_finish_nil (d : Deflate os) :
    (prepare d [] .finish).view = d.buffer.view := by
  cases closing : d.buffer.closing with
  | true =>
      have same : d.buffer.absorb [] = d.buffer := by
        simp [Buffer.absorb, closing]
      simp only [prepare, same, Buffer.view_close]
  | false =>
      obtain ⟨source, output⟩ := Buffer.view_absorb closing []
      have stream : (d.buffer.absorb []).stream = d.buffer.stream := by
        simp only [Buffer.absorb, closing, ↓reduceDIte, Buffer.stream,
          Buffer.commit]
        cases d.buffer.chunks with
        | none => simp [Framing.body, Framing.tail, storedFraming]
        | some chunks => simp [Framing.body, Framing.tail]
      have emitted : (d.buffer.absorb []).emitted = d.buffer.emitted := by
        simp [Buffer.absorb, closing, Buffer.commit]
      rw [List.append_nil] at source
      simp only [prepare, Buffer.view_close]
      simp only [Buffer.view, stream, emitted] at source output ⊢
      rw [source]

theorem view_finish_fresh {f : Format} (notZstd : f ≠ .zstd) (lvl : Int)
    (offered : List UInt8) :
    (prepare (⟨f, notZstd, lvl, .fresh _⟩ : Deflate os) offered .finish).view =
      ⟨offered, [], (storedFraming f lvl os).whole offered⟩ := by
  simp [prepare, Buffer.view, Buffer.close, Buffer.absorb, Buffer.fresh,
    Buffer.commit,
    Buffer.stream, Framing.body, Framing.tail, Framing.source, storedFraming]

theorem serve_finish (s : ZStream width (Deflate os)) :
    (prepare s.state s.offered .finish).view.Finishes s.availOut
      (serve s .finish).written
        (serve s .finish).stream.state.buffer.view ∧
      (serve s .finish).ret =
        if (prepare s.state s.offered .finish).view.rest.length ≤ s.availOut
          then .streamEnd
        else .ok := by
  have finishes :
      (prepare s.state s.offered .finish).view.Finishes s.availOut _ _ :=
    Buffer.finishes rfl s.availOut
  refine ⟨finishes, ?_⟩
  have ended :
      ((prepare s.state s.offered .finish).emit s.availOut).view.rest = [] ↔
      (prepare s.state s.offered .finish).view.rest.length ≤ s.availOut :=
        finishes.ended_iff
  simp only [serve, ↓reduceIte]
  by_cases fits :
    (prepare s.state s.offered .finish).view.rest.length ≤ s.availOut
  · rw [if_pos fits, if_pos (ended.mpr fits)]
  · rw [if_neg fits, if_neg fun nothing => fits (ended.mp nothing)]

theorem accepts_finish {s : ZStream width (Deflate os)}
    (notNull : s.nextOutNull = false) :
    ¬ Refuses s .finish := by
  simp [Refuses, notNull]

theorem runs_of_nil {s : ZStream width (Deflate os)} (nothing : s.offered = [])
    (room : 0 < s.availOut) : ¬ Stalls s := by
  simp [Stalls, nothing, Nat.ne_of_gt room]

theorem absorbs (s : ZStream width (Deflate os)) (flush : ZFlush)
    (notFinish : flush ≠ .finish) (opened : ¬ s.state.buffer.view.Ended)
    (served : (deflate s flush).ret = .ok ∨ (deflate s flush).ret = .bufError) :
    s.state.buffer.view.Absorbs s.offered s.availOut (deflate s flush).taken
      (deflate s flush).written (deflate s flush).stream.state.buffer.view := by
  rcases deflate_cases s flush
    with ⟨-, same⟩ | ⟨-, -, same⟩ | ⟨accepts, -, same⟩ <;>
    rw [same] at served ⊢
  · simp [idle] at served
  · exact ⟨Nat.zero_le _, Nat.zero_le _,
      by simp [idle, advance], by simp [idle, advance], opened⟩
  · have writing : s.state.buffer.closing = false := by
      simp only [Refuses, not_or, not_and, not_not] at accepts
      exact Bool.eq_false_iff.mpr fun closing => notFinish (accepts.2 closing)
    obtain ⟨source, output⟩ := view_prepare writing s.offered flush
    obtain ⟨source', output', -⟩ :=
      Buffer.view_emit (b := prepare s.state s.offered flush) s.availOut
    refine ⟨le_rfl, Buffer.length_written _, ?_, ?_, ?_⟩
    · change _ = s.state.buffer.view.source ++ s.offered.take s.offered.length
      rw [List.take_length, ← source]
      exact source'
    · rw [← output]
      exact output'
    · exact Buffer.not_ended ((closing_prepare _ _ notFinish).trans writing)

theorem synced (s : ZStream width (Deflate os)) (nothing : s.offered = [])
    (served : (deflate s .syncFlush).ret = .ok ∨
      (deflate s .syncFlush).ret = .bufError)
    (left : (deflate s .syncFlush).written.length < s.availOut) :
    (storedGrammar s.state.container).wire.content
        (deflate s .syncFlush).stream.state.buffer.view.output =
      (deflate s .syncFlush).stream.state.buffer.view.source := by
  rcases deflate_cases s .syncFlush with
    ⟨-, same⟩ | ⟨-, stalls, same⟩ | ⟨accepts, -, same⟩ <;> rw [same]
      at served left ⊢
  · simp [idle] at served
  · rcases stalls with noRoom | ⟨-, offers⟩
    · simp [idle, noRoom] at left
    · exact absurd nothing offers
  · have writing : s.state.buffer.closing = false := by
      simp only [Refuses, not_or, not_and, not_not] at accepts
      exact Bool.eq_false_iff.mpr fun closing =>
        absurd (accepts.2 closing) (by decide)
    exact Buffer.synced ((Buffer.closing_absorb s.offered).trans writing) left

theorem served_or_refused (s : ZStream width (Deflate os)) (flush : ZFlush)
    (notFinish : flush ≠ .finish) :
    (deflate s flush).ret = .ok ∨ (deflate s flush).ret = .bufError ∨
      (deflate s flush).ret = .streamError := by
  rcases deflate_cases s flush
    with ⟨-, same⟩ | ⟨-, -, same⟩ | ⟨-, -, same⟩ <;> rw [same]
  · exact .inr (.inr rfl)
  · exact .inr (.inl rfl)
  · simp only [serve, notFinish, ↓reduceIte]
    split
    · exact .inr (.inl rfl)
    · exact .inl rfl

theorem refused_idle (s : ZStream width (Deflate os)) (flush : ZFlush)
    (refused : (deflate s flush).ret = .streamError) :
    (deflate s flush).taken = 0 ∧ (deflate s flush).written = [] ∧
      (deflate s flush).stream.state.buffer.view = s.state.buffer.view := by
  rcases deflate_cases s flush with ⟨-, same⟩ | ⟨-, -, same⟩ | ⟨-, -, same⟩ <;>
    rw [same] at refused ⊢
  · exact ⟨rfl, rfl, rfl⟩
  · exact ⟨rfl, rfl, rfl⟩
  · simp only [serve] at refused
    split_ifs at refused

theorem ended_idle (s : ZStream width (Deflate os))
    (ended : s.state.buffer.view.Ended) :
    (deflate s .finish).written = [] ∧
      (deflate s .finish).stream.state.buffer.view = s.state.buffer.view := by
  rcases deflate_cases s .finish
    with ⟨-, same⟩ | ⟨-, -, same⟩ | ⟨-, runs, same⟩ <;> rw [same]
  · exact ⟨rfl, rfl⟩
  · exact ⟨rfl, rfl⟩
  · have nothing : s.offered = [] := by
      by_contra offers
      exact runs (.inr ⟨closing_of_ended ended, offers⟩)
    obtain ⟨finishes, -⟩ := serve_finish s
    rw [nothing, view_finish_nil] at finishes
    have blank : s.state.buffer.view.rest = [] := ended
    obtain ⟨written, ended'⟩ :=
      finishes.fits (by rw [blank]; exact Nat.zero_le _)
    refine ⟨written.trans blank, ?_⟩
    have source := finishes.source
    have output := finishes.output
    rw [written, blank, List.append_nil] at output
    exact Enc.ext source output ((show _ = [] from ended').trans blank.symm)

theorem finishes (s : ZStream width (Deflate os))
    (notNull : s.nextOutNull = false) (nothing : s.offered = [])
    (room : 0 < s.availOut) :
    s.state.buffer.view.Finishes s.availOut (deflate s .finish).written
        (deflate s .finish).stream.state.buffer.view ∧
      (deflate s .finish).ret =
        if s.state.buffer.view.rest.length ≤ s.availOut then .streamEnd
          else .ok := by
  have served := serve_finish s
  rw [nothing, view_finish_nil] at served
  rw [deflate_served (accepts_finish notNull) (runs_of_nil nothing room)]
  exact served

theorem finish_no_room (s : ZStream width (Deflate os))
    (notNull : s.nextOutNull = false) (noRoom : s.availOut = 0) :
    (deflate s .finish).ret = .bufError ∧
      (deflate s .finish).stream.state.buffer.view = s.state.buffer.view := by
  rw [deflate_stalled (accepts_finish notNull) (.inl noRoom)]
  exact ⟨rfl, rfl⟩

theorem containerOf_eq {lvl bits : Int} {f : Format}
    (opens : DeflateOpens lvl bits f) :
    containerOf bits = f := by
  rw [containerOf, opens.1]
  rfl

theorem ne_zstd_of_opens {lvl bits : Int} {f : Format}
    (opens : DeflateOpens lvl bits f) :
    f ≠ .zstd :=
  containerOf_eq opens ▸ containerOf_ne_zstd bits

theorem fresh_finish {lvl bits : Int} {f : Format}
    (s : ZStream width (Deflate os)) (opens : DeflateOpens lvl bits f)
    (notNull : s.nextOutNull = false)
    (isFresh : s.state = (deflateInit2 os lvl bits : ZStream width _).state)
    (room : 0 < s.availOut) :
    deflate s .finish = serve s .finish ∧
      (prepare s.state s.offered .finish).view =
        ⟨s.offered, [], (storedFraming f lvl os).whole s.offered⟩ := by
  obtain rfl := containerOf_eq opens
  have writing : s.state.buffer.closing = false := by
    rw [isFresh]
    rfl
  have runs : ¬ Stalls s := by
    simp [Stalls, writing, Nat.ne_of_gt room]
  refine ⟨deflate_served (accepts_finish notNull) runs, ?_⟩
  rw [isFresh]
  exact view_finish_fresh (containerOf_ne_zstd bits) lvl s.offered

theorem fresh_fits {lvl bits : Int} {f : Format}
    (s : ZStream width (Deflate os)) (opens : DeflateOpens lvl bits f)
    (notNull : s.nextOutNull = false)
    (isFresh : s.state = (deflateInit2 os lvl bits : ZStream width _).state)
    (fits : ((storedFraming f lvl os).whole s.offered).length ≤ s.availOut) :
    (deflate s .finish).ret = .streamEnd ∧
    (deflate s .finish).taken = s.offered.length ∧
      (deflate s .finish).written =
        (storedFraming f lvl os).whole s.offered := by
  have nonempty : 0 < ((storedFraming f lvl os).whole s.offered).length := by
    have complete := ((storedFraming f lvl os).whole_complete s.offered).1
    apply List.length_pos_iff.mpr
    intro blank
    rw [blank] at complete
    exact (storedGrammar f).wire.not_complete_nil complete
  obtain ⟨served, view⟩ :=
    fresh_finish s opens notNull isFresh (nonempty.trans_le fits)
  obtain ⟨finishes, ret⟩ := serve_finish s
  rw [view] at finishes ret
  rw [served]
  exact ⟨ret.trans (if_pos fits), rfl, (finishes.fits fits).1⟩

theorem fresh_cut {lvl bits : Int} {f : Format} (s : ZStream width (Deflate os))
    (opens : DeflateOpens lvl bits f) (notNull : s.nextOutNull = false)
    (isFresh : s.state = (deflateInit2 os lvl bits : ZStream width _).state)
    (room : 0 < s.availOut)
    (cut : s.availOut < ((storedFraming f lvl os).whole s.offered).length) :
    (deflate s .finish).ret = .ok ∧
      (deflate s .finish).written =
        ((storedFraming f lvl os).whole s.offered).take s.availOut := by
  obtain ⟨served, view⟩ := fresh_finish s opens notNull isFresh room
  obtain ⟨-, ret⟩ := serve_finish s
  have written : (serve s .finish).written =
      (prepare s.state s.offered .finish).view.rest.take s.availOut :=
    Buffer.written_closing rfl s.availOut
  rw [view] at ret written
  rw [served]
  exact ⟨ret.trans (if_neg (Nat.not_le.mpr cut)), written⟩

/-- What an inflate stream has read and delivered. -/
def Inflate.view (i : Inflate) : Dec UInt8 :=
  ⟨i.read, (storedGrammar i.container).wire.content i.read⟩

/-- The drive behind an inflate call. -/
def drive (s : ZStream width Inflate) :
    Serial.Drive UInt8 (Grammar.State UInt8 Part) :=
  s.state.machine.drive
    (s.state.machine.state s.state.machine.start s.state.read) s.offered
    s.availOut

theorem inflate_null {s : ZStream width Inflate} (flush : ZFlush)
    (null : s.nextOutNull = true) :
    inflate s flush = idle .streamError s :=
  if_pos null

theorem inflate_drive {s : ZStream width Inflate} (flush : ZFlush)
    (notNull : s.nextOutNull = false) :
    (inflate s flush).taken = (drive s).taken ∧
    (inflate s flush).written = (drive s).written ∧
      (inflate s flush).ret.signal = s.state.machine.signal (drive s).state ∧
      (inflate s flush).stream = advance s (drive s).taken (drive s).written
        { s.state with read := s.state.read ++
          s.offered.take (drive s).taken } := by
  have runs : inflate s flush = _ := if_neg (by simp [notNull])
  rw [runs]
  refine ⟨rfl, rfl, ?_, rfl⟩
  change ZRet.signal (match s.state.machine.signal (drive s).state with
    | .done => .streamEnd
    | .bad => .dataError
    | .more =>
        if flush = .finish ∨ ((drive s).taken = 0 ∧ (drive s).written = [])
          then .bufError
        else .ok) = _
  cases s.state.machine.signal (drive s).state with
  | done => rfl
  | bad => rfl
  | more =>
      dsimp only
      split <;> rfl

theorem inflate_counts (s : ZStream width Inflate) (flush : ZFlush) :
    (inflate s flush).stream.totalIn =
        s.totalIn + BitVec.ofNat width (inflate s flush).taken ∧
      (inflate s flush).stream.totalOut =
        s.totalOut + BitVec.ofNat width (inflate s flush).written.length := by
  cases null : s.nextOutNull with
  | true =>
      rw [inflate_null flush null]
      exact ⟨rfl, rfl⟩
  | false =>
      obtain ⟨taken, written, -, stream⟩ := inflate_drive flush null
      rw [stream, taken, written]
      exact ⟨rfl, rfl⟩

theorem inflate_windows (s : ZStream width Inflate) (flush : ZFlush) :
    (inflate s flush).taken ≤ s.offered.length ∧
      (inflate s flush).written.length ≤ s.availOut := by
  cases null : s.nextOutNull with
  | true =>
      rw [inflate_null flush null]
      exact ⟨Nat.zero_le _, Nat.zero_le _⟩
  | false =>
      obtain ⟨taken, written, -, -⟩ := inflate_drive flush null
      rw [taken, written]
      exact ⟨(Serial.drives_drive _ _ _).taken_le,
        (Serial.drives_drive _ _ _).room_le⟩

theorem inflate_container (s : ZStream width Inflate) (flush : ZFlush) :
    (inflate s flush).stream.state.container = s.state.container := by
  cases null : s.nextOutNull with
  | true => rw [inflate_null flush null, idle, advance]
  | false => rw [(inflate_drive flush null).2.2.2, advance]

theorem inflate_after {s : ZStream width Inflate} (flush : ZFlush)
    (notNull : s.nextOutNull = false) :
    (inflate s flush).stream.state.view =
        s.state.view.after (s.offered.take (inflate s flush).taken)
          (inflate s flush).written ∧
      (inflate s flush).stream.state.signal = (inflate s flush).ret.signal := by
  obtain ⟨taken, written, signal, stream⟩ := inflate_drive flush notNull
  have drives : s.state.machine.Drives _ s.offered s.availOut (drive s) :=
    Serial.drives_drive _ _ _
  obtain ⟨state, content⟩ := drives.after
  rw [taken, written, signal, stream]
  constructor
  · exact congrArg (Dec.mk _) content
  · exact congrArg s.state.machine.signal state

theorem inflate_reads {s : ZStream width Inflate} (flush : ZFlush)
    (notNull : s.nextOutNull = false) (more : s.state.signal = .more) :
    s.state.view.Reads (storedGrammar s.state.container).wire
      s.offered s.availOut
      (inflate s flush).taken (inflate s flush).written
        (inflate s flush).ret.signal := by
  obtain ⟨taken, written, signal, -⟩ := inflate_drive flush notNull
  rw [taken, written, signal]
  exact (Serial.drives_drive _ _ _).reads more

theorem inflate_prompt {s : ZStream width Inflate} (flush : ZFlush)
    (notNull : s.nextOutNull = false) (more : s.state.signal = .more) :
    s.state.view.Prompt (storedGrammar s.state.container).wire
      s.offered s.availOut (inflate s flush).ret.signal := by
  rw [(inflate_drive flush notNull).2.2.1]
  exact (Serial.drives_drive _ _ _).prompt more

theorem inflate_settled (s : ZStream width Inflate) (flush : ZFlush)
    (settled : s.state.signal ≠ .more) :
    (inflate s flush).written = [] ∧
    (inflate s flush).stream.state.signal = s.state.signal := by
  cases null : s.nextOutNull with
  | true =>
      rw [inflate_null flush null]
      exact ⟨rfl, rfl⟩
  | false =>
      obtain ⟨-, written, signal, -⟩ := inflate_drive flush null
      have same : drive s = ⟨_, 0, []⟩ :=
        Serial.drive_of_settled settled s.offered s.availOut
      rw [(inflate_after flush null).2, written, signal, same]
      exact ⟨rfl, rfl⟩

/-- A machine that decodes each byte as it reads it reads no end of a stream
before there was room for its content. -/
theorem inflate_more {s : ZStream width Inflate} (flush : ZFlush)
    (notNull : s.nextOutNull = false)
    (more : (inflate s flush).ret.signal = .more) :
    ¬ (storedGrammar s.state.container).wire.Complete
      (s.state.read ++ s.offered.take (inflate s flush).taken) := by
  obtain ⟨view, signal⟩ := inflate_after flush notNull
  have container := inflate_container s flush
  have read : (inflate s flush).stream.state.read =
      s.state.read ++ s.offered.take (inflate s flush).taken :=
    congrArg Dec.read view
  have still : (inflate s flush).stream.state.signal = .more :=
    signal.trans more
  rw [Inflate.signal, Inflate.machine, container, read] at still
  exact ((Serial.live_iff _).mpr still).not_complete List.prefix_rfl

theorem inflate_fresh_written {s : ZStream width Inflate} (flush : ZFlush)
    (notNull : s.nextOutNull = false) (isFresh : s.state.read = []) :
    (inflate s flush).written = (storedGrammar s.state.container).wire.content
      (s.offered.take (inflate s flush).taken) := by
  obtain ⟨view, -⟩ := inflate_after flush notNull
  have container := inflate_container s flush
  have fresh : s.state.view = .fresh := by
    rw [Inflate.view, isFresh]
    exact congrArg (Dec.mk []) (Wire.content_nil _)
  rw [fresh] at view
  have read : (inflate s flush).stream.state.read =
      s.offered.take (inflate s flush).taken := congrArg Dec.read view
  have delivered :
      (storedGrammar (inflate s flush).stream.state.container).wire.content
      (inflate s flush).stream.state.read = (inflate s flush).written :=
    congrArg Dec.delivered view
  rw [container, read] at delivered
  exact delivered.symm

/-- A byte that is left has no room, and is copied as it stands. -/
theorem inflate_fresh_copies {s : ZStream width Inflate} (flush : ZFlush)
    (notNull : s.nextOutNull = false) (isFresh : s.state.read = [])
    (more : (inflate s flush).ret.signal = .more)
    (left : (inflate s flush).taken < s.offered.length) :
    (storedGrammar s.state.container).wire.Copies
      (s.offered.take (inflate s flush).taken) := by
  obtain ⟨taken, -, signal, -⟩ := inflate_drive flush notNull
  have start : drive s =
      s.state.machine.drive s.state.machine.start s.offered s.availOut := by
    rw [drive, isFresh]
    rfl
  rw [taken, start] at left
  rw [signal, start] at more
  rw [taken, start]
  exact Grammar.copies_of_stopped more left

end StoredZlib

section Laws

variable {width : Nat} {wide : width = 32 ∨ width = 64} {os : UInt8}
  {wire : Format → Wire UInt8}
  (agrees : ∀ f, f ≠ .zstd → wire f = (storedGrammar f).wire)

open StoredZlib

def storedDeflateLaws : DeflateLaws (storedZlib width wide os) wire where
  container (d : Deflate os) := d.container
  view (d : Deflate os) := d.buffer.view
  encode f lvl u := (storedFraming f lvl os).whole u
  sound (d : Deflate os) := by
    rw [agrees d.container d.notZstd]
    exact d.buffer.sound
  encode_complete {lvl bits f} u opens := by
    rw [agrees f (ne_zstd_of_opens opens)]
    exact ((storedFraming f lvl os).whole_complete u).1
  encode_content {lvl bits f} u opens := by
    rw [agrees f (ne_zstd_of_opens opens)]
    exact ((storedFraming f lvl os).whole_complete u).2
  open_container opens := containerOf_eq opens
  open_view opens := by
    obtain rfl := containerOf_eq opens
    rfl
  open_counts _ := ⟨rfl, rfl⟩
  container_kept := container_kept
  counts := counts
  windows := windows
  null_refused s flush null := congrArg ZCall.ret (deflate_refused (.inl null))
  refused_idle := refused_idle
  absorbs := absorbs
  synced s opened nothing served left := by
    rw [agrees _ (ZStream.state s).notZstd]
    exact StoredZlib.synced s nothing served left
  served_or_refused := served_or_refused
  finishes s notNull _ nothing room :=
    StoredZlib.finishes s notNull nothing room
  finish_no_room := finish_no_room
  ended_idle := ended_idle
  ended_done s notNull ended nothing room := by
    have ret := (StoredZlib.finishes s notNull nothing room).2
    rw [show (ZStream.state s).buffer.view.rest = [] from ended] at ret
    exact ret
  ended_refused s flush notFinish ended :=
    congrArg ZCall.ret
      (deflate_refused (.inr ⟨closing_of_ended ended, notFinish⟩))
  fresh_fits s := fresh_fits s
  fresh_cut s := fresh_cut s

/-- A deflate that buffers takes all it is offered. -/
def storedProgressLaws :
    DeflateProgressLaws (storedZlib width wide os) wire
      (storedDeflateLaws agrees) where
  backlog _ := 0
  progress _ _ offers room served := .inl (deflate_takes offers room served)

def storedInflateLaws {Foreign : ZRet → Prop} :
    InflateLaws (storedZlib width wide os) wire Foreign where
  container (i : Inflate) := i.container
  view (i : Inflate) := i.view
  status (i : Inflate) := i.signal.status
  open_container selects := by
    change containerOf _ = _
    rw [containerOf, selects]
    rfl
  open_view _ := rfl
  open_status _ := rfl
  open_counts _ := ⟨rfl, rfl⟩
  container_kept := inflate_container
  counts := inflate_counts
  windows := inflate_windows
  null_refused s flush null := congrArg ZCall.ret (inflate_null flush null)
  reads s flush notNull opened _ := by
    rw [agrees _ (ZStream.state s).notZstd]
    exact inflate_reads flush notNull ((Signal.status_opened_iff _).mp opened)
  advances s flush notNull _ _ :=
    ⟨(inflate_after flush notNull).1,
      congrArg Signal.status (inflate_after flush notNull).2⟩

theorem storedIdleLaws {Foreign : ZRet → Prop} :
    InflateIdleLaws (storedInflateLaws agrees :
      InflateLaws (storedZlib width wide os) wire Foreign) where
  null_idle s flush null := by
    change (inflate s flush).written = _ ∧
        (inflate s flush).stream.state.view = _ ∧
      (inflate s flush).stream.state.signal.status = _
    rw [inflate_null flush null]
    exact ⟨rfl, rfl, rfl⟩
  failed s flush notNull _ bad := by
    change (inflate s flush).stream.state.signal.status = _
    rw [(inflate_after flush notNull).2]
    exact congrArg Signal.status bad
  settled_idle s flush settled := by
    obtain ⟨written, signal⟩ := inflate_settled s flush
      fun more => settled ((Signal.status_opened_iff _).mpr more)
    exact ⟨written, congrArg Signal.status signal⟩

theorem storedTrailerLaws {Foreign : ZRet → Prop} :
    InflateTrailerLaws (storedInflateLaws agrees :
      InflateLaws (storedZlib width wide os) wire Foreign) where
  trailer s flush notNull _ _ more := by
    change ¬ (wire (ZStream.state s).container).Complete _
    rw [agrees _ (ZStream.state s).notZstd]
    exact inflate_more flush notNull more

include agrees in
theorem stored_cut
    {s : ZStream (storedZlib width wide os).ulongBits
      (storedZlib width wide os).Inflate}
    (cut : CutShort (storedZlib width wide os) wire s) :
    ((storedZlib width wide os).inflate s .finish).written =
      (wire .rawDeflate).content
        (s.offered.take ((storedZlib width wide os).inflate s .finish).taken) ∧
      (((storedZlib width wide os).inflate s .finish).taken < s.offered.length →
        (wire .rawDeflate).Copies
          (s.offered.take
            ((storedZlib width wide os).inflate s .finish).taken)) := by
  have isFresh : Inflate.read s.state = [] := congrArg Inflate.read cut.fresh
  have container : Inflate.container s.state = .rawDeflate :=
    congrArg Inflate.container cut.fresh
  have written := inflate_fresh_written .finish cut.notNull isFresh
  have copies := inflate_fresh_copies .finish cut.notNull isFresh cut.more
  rw [container, ← agrees .rawDeflate (by decide)] at written copies
  exact ⟨written, copies⟩

include agrees in
theorem storedRoomLaws : InflateRoomLaws (storedZlib width wide os) wire where
  frugal s cut p b last := by
    rw [(stored_cut agrees cut).1, last]
    exact ((wire .rawDeflate).content_mono (List.prefix_append p [b])).length_le
  copied s cut p b last copies := by
    rw [(stored_cut agrees cut).1, last, copies b, List.length_append]
    exact Nat.lt_succ_self _
  eager s cut left _ := (stored_cut agrees cut).2 left

theorem storedBlocks_cost (u : List UInt8) :
    (storedBlocks true u).length + 6 ≤ compressSum u.length := by
  have most := (length_storedBlocks_le true u).2
  simp only [compressSum, Nat.shiftRight_eq_div_pow]
  omega

def storedDeflateSizes :
    DeflateSizes (storedZlib width wide os)
      (fun f lvl u => (storedFraming f lvl os).whole u) where
  bound_eq m := by
    have small : min (compressSum m.toNat) (2 ^ width - 1) < 2 ^ width := by
      have positive : 0 < 2 ^ width := Nat.two_pow_pos width
      omega
    exact Nat.mod_eq_of_lt small
  body _ u := (storedBlocks true u).length
  encode_length {lvl bits f} u opens := by
    have parts : ((storedFraming f lvl os).whole u).length =
        (header f lvl os).length + (storedBlocks true u).length +
        (trailer f u).length := by
      simp only [storedFraming, List.length_append]
    have around : (header f lvl os).length + (trailer f u).length =
        wrapperLength f := by
      cases f <;> simp [header, trailer, wrapperLength]
    change ((storedFraming f lvl os).whole u).length = _
    omega
  body_pos _ u := by
    have least := (length_storedBlocks_le true u).1
    omega
  body_le _ u := storedBlocks_cost u

end Laws

end Polliwog
