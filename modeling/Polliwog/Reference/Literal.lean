import Polliwog.Codec.Ahead
import Polliwog.Reference.Build

/-!
# A zlib that decodes literals

Raw streams of a single block in the fixed code, all symbols of which are
literals.  A literal takes eight or nine bits, so that the byte which ends one
may end the stream as well, and inflate looks at it whether or not there is
room.  The other containers hold stored blocks as before.
-/

namespace Polliwog

open Codec

namespace LiteralZlib

/-- How far into a block a reader is.  A code is told by the bits read of it
behind a leading one. -/
inductive Phase where
  | header
  | code (read : Fin 512)
  | ended
  | failed
  deriving DecidableEq

/-- The fixed code of literals and of the end of a block; what else is in it
copies earlier content, and is not decoded. -/
def Phase.bit : Phase → Nat → Phase × Option UInt8
  | .code read, b =>
      let read := 2 * read.val + b
      if read = 128 then (.ended, none)
      else if 128 < read ∧ read < 152 then (.failed, none)
      else if 256 ≤ read ∧ read < 448 then (.code 1, some (.ofNat (read - 304)))
      else if 448 ≤ read ∧ read < 456 then (.failed, none)
      else if 512 ≤ read then (.code 1, some (.ofNat (read - 768)))
      else (.code (Fin.ofNat 512 read), none)
  | phase, _ => (phase, none)

/-- Read bits one by one; no eight of them end two literals. -/
def Phase.bits (phase : Phase) : List Nat → Phase × Option UInt8
  | [] => (phase, none)
  | b :: bs =>
      let first := phase.bit b
      let rest := first.1.bits bs
      (rest.1, first.2 <|> rest.2)

/-- The bits of a byte, the lowest first. -/
def bitsOf (byte : UInt8) : List Nat :=
  (List.range 8).map fun i => byte.toNat / 2 ^ i % 2

/-- A block starts with the bit of a last block and the two bits of the fixed
code. -/
def step (phase : Phase) (byte : UInt8) : Phase × Option UInt8 :=
  match phase with
  | .header =>
      if (bitsOf byte).take 3 = [1, 1, 0] then
        (Phase.code 1).bits ((bitsOf byte).drop 3)
      else (.failed, none)
  | phase => phase.bits (bitsOf byte)

def machine : Serial UInt8 Phase where
  start := .header
  step := step
  signal
    | .header | .code _ => .more
    | .ended => .done
    | .failed => .bad
  signal_start := rfl

theorem not_output_both (phase : Phase) :
    ¬ (machine.output phase [0] = [0] ∧
      machine.output phase [255] = [255]) := by
  cases phase with
  | header => decide
  | code read =>
      revert read
      decide +kernel
  | ended => decide
  | failed => decide

/-- No byte of such a stream is content as it stands. -/
theorem not_copies (p : List UInt8) : ¬ machine.wire.Copies p := by
  intro copies
  have outputs (b : UInt8) :
      machine.output (machine.state machine.start p) [b] = [b] := by
    have longer := copies b
    change machine.output machine.start (p ++ [b]) =
      machine.output machine.start p ++ [b] at longer
    rw [Serial.output_append] at longer
    exact List.append_cancel_left longer
  exact not_output_both _ ⟨outputs 0, outputs 255⟩

variable {width : Nat}

/-- The private half of an inflate stream. -/
inductive Inflate where
  | raw (a : Serial.Ahead machine)
  | wrapped (i : StoredZlib.Inflate) (notRaw : i.container ≠ .rawDeflate)

def inflateInit2 (bits : Int) : ZStream width Inflate :=
  StoredZlib.opened <|
    if isRaw : StoredZlib.containerOf bits = .rawDeflate then
      .raw (.fresh machine)
    else
      .wrapped
        { container := StoredZlib.containerOf bits
          notZstd := StoredZlib.containerOf_ne_zstd bits
          read := [] }
        isRaw

/-- A stream with another private half. -/
def withState {σ τ : Type} (s : ZStream width σ) (state : τ) :
    ZStream width τ :=
  { nextIn := s.nextIn
    availIn := s.availIn
    nextOutNull := s.nextOutNull
    availOut := s.availOut
    totalIn := s.totalIn
    totalOut := s.totalOut
    state := state }

def inflateRaw (s : ZStream width Inflate) (a : Serial.Ahead machine)
    (flush : ZFlush) :
    ZCall width Inflate :=
  let call := a.call s.offered s.availOut
  { ret :=
      match call.next.signal with
      | .done => .streamEnd
      | .bad => .dataError
      | .more =>
          if flush = .finish ∨ (call.taken = 0 ∧ call.written = [])
            then .bufError else .ok
    stream := StoredZlib.advance s call.taken call.written (.raw call.next)
    taken := call.taken
    written := call.written }

def inflateWrapped (s : ZStream width StoredZlib.Inflate)
    (notRaw : s.state.container ≠ .rawDeflate) (flush : ZFlush) :
    ZCall width Inflate :=
  let call := StoredZlib.inflate s flush
  { ret := call.ret
    stream := withState call.stream <| .wrapped call.stream.state <|
      (StoredZlib.inflate_container s flush).trans_ne notRaw
    taken := call.taken
    written := call.written }

def inflate (s : ZStream width Inflate) (flush : ZFlush) :
    ZCall width Inflate :=
  match s.state with
  | .raw a =>
      if s.nextOutNull = true then StoredZlib.idle .streamError s
      else inflateRaw s a flush
  | .wrapped i notRaw => inflateWrapped (withState s i) notRaw flush

end LiteralZlib

/-- A zlib that stores, and decodes literals. -/
def literalZlib (width : Nat) (wide : width = 32 ∨ width = 64) (os : UInt8) :
    Zlib :=
  { storedZlib width wide os with
    Inflate := LiteralZlib.Inflate
    inflateInit2 := LiteralZlib.inflateInit2
    inflate := LiteralZlib.inflate }

namespace LiteralZlib

variable {width : Nat}

theorem inflate_raw {s : ZStream width Inflate} {a : Serial.Ahead machine}
    (state : s.state = .raw a) (notNull : s.nextOutNull = false)
    (flush : ZFlush) :
    inflate s flush = inflateRaw s a flush := by
  rw [inflate, state]
  exact if_neg (by simp [notNull])

theorem inflate_null {s : ZStream width Inflate} {a : Serial.Ahead machine}
    (state : s.state = .raw a) (null : s.nextOutNull = true) (flush : ZFlush) :
    inflate s flush = StoredZlib.idle .streamError s := by
  rw [inflate, state]
  exact if_pos null

theorem inflate_wrapped {s : ZStream width Inflate} {i : StoredZlib.Inflate}
    {notRaw : i.container ≠ .rawDeflate} (state : s.state = .wrapped i notRaw)
    (flush : ZFlush) :
    inflate s flush = inflateWrapped (withState s i) notRaw flush := by
  rw [inflate, state]

theorem signal_inflateRaw (s : ZStream width Inflate)
    (a : Serial.Ahead machine) (flush : ZFlush) :
    (inflateRaw s a flush).ret.signal =
      (a.call s.offered s.availOut).next.signal := by
  rw [inflateRaw]
  cases (a.call s.offered s.availOut).next.signal with
  | done => rfl
  | bad => rfl
  | more =>
      dsimp only
      split <;> rfl

/-- What is true of every way to serve a call is true of every call. -/
theorem inflate_induction (P : ZCall width Inflate → Prop)
    {s : ZStream width Inflate} {flush : ZFlush}
    (idle : P (StoredZlib.idle .streamError s))
    (raw : ∀ a, P (inflateRaw s a flush))
    (wrapped : ∀ i notRaw, P (inflateWrapped (withState s i) notRaw flush)) :
    P (inflate s flush) := by
  cases state : s.state with
  | wrapped i notRaw => rw [inflate_wrapped state]; exact wrapped i notRaw
  | raw a =>
      cases null : s.nextOutNull with
      | true => rw [inflate_null state null]; exact idle
      | false => rw [inflate_raw state null]; exact raw a

theorem inflate_counts (s : ZStream width Inflate) (flush : ZFlush) :
    (inflate s flush).stream.totalIn =
        s.totalIn + BitVec.ofNat width (inflate s flush).taken ∧
      (inflate s flush).stream.totalOut =
        s.totalOut + BitVec.ofNat width (inflate s flush).written.length :=
  inflate_induction
    (fun call => call.stream.totalIn =
      s.totalIn + BitVec.ofNat width call.taken ∧
      call.stream.totalOut =
        s.totalOut + BitVec.ofNat width call.written.length)
    ⟨rfl, rfl⟩ (fun _ => ⟨rfl, rfl⟩)
    fun i _ => StoredZlib.inflate_counts (withState s i) flush

theorem inflate_windows (s : ZStream width Inflate) (flush : ZFlush) :
    (inflate s flush).taken ≤ s.offered.length ∧
      (inflate s flush).written.length ≤ s.availOut :=
  inflate_induction
    (fun call => call.taken ≤ s.offered.length ∧
      call.written.length ≤ s.availOut)
    ⟨Nat.zero_le _, Nat.zero_le _⟩ (fun a => a.call_within _ _)
    fun i _ => StoredZlib.inflate_windows (withState s i) flush

def Inflate.container : Inflate → Format
  | .raw _ => .rawDeflate
  | .wrapped i _ => i.container

def Inflate.view : Inflate → Dec UInt8
  | .raw a => a.view
  | .wrapped i _ => i.view

def Inflate.signal : Inflate → Signal
  | .raw a => a.signal
  | .wrapped i _ => i.signal

theorem inflate_container (s : ZStream width Inflate) (flush : ZFlush) :
    (inflate s flush).stream.state.container = s.state.container := by
  cases state : s.state with
  | wrapped i notRaw =>
      rw [inflate_wrapped state]
      exact StoredZlib.inflate_container (withState s i) flush
  | raw a =>
      cases null : s.nextOutNull with
      | true =>
          rw [inflate_null state null]
          exact congrArg Inflate.container state
      | false => rw [inflate_raw state null]; rfl

theorem inflate_refused {s : ZStream width Inflate} (flush : ZFlush)
    (null : s.nextOutNull = true) : (inflate s flush).ret = .streamError := by
  cases state : s.state with
  | wrapped i notRaw =>
      rw [inflate_wrapped state]
      exact congrArg ZCall.ret (StoredZlib.inflate_null (s := withState s i)
        flush null)
  | raw a => rw [inflate_null state null]; rfl

end LiteralZlib

/-- The wire formats of that zlib. -/
def literalWire : Format → Wire UInt8
  | .rawDeflate => LiteralZlib.machine.wire
  | f => storedWire f

theorem literalWire_of_ne {f : Format} (notRaw : f ≠ .rawDeflate) :
    literalWire f = storedWire f := by
  revert notRaw
  cases f <;> simp [literalWire]

namespace LiteralZlib

theorem inflate_reads {s : ZStream width Inflate} (flush : ZFlush)
    (notNull : s.nextOutNull = false) (more : s.state.signal = .more) :
    s.state.view.Reads (literalWire s.state.container) s.offered s.availOut
      (inflate s flush).taken (inflate s flush).written
        (inflate s flush).ret.signal := by
  cases state : s.state with
  | raw a =>
      rw [state] at more
      rw [inflate_raw state notNull, signal_inflateRaw]
      exact Serial.Ahead.call_reads more s.offered s.availOut
  | wrapped i notRaw =>
      rw [state] at more
      rw [inflate_wrapped state]
      change i.view.Reads (literalWire i.container) _ _ _ _ _
      rw [literalWire_of_ne notRaw, storedWire_of_ne i.notZstd]
      exact StoredZlib.inflate_reads (s := withState s i) flush notNull more

theorem inflate_after {s : ZStream width Inflate} (flush : ZFlush)
    (notNull : s.nextOutNull = false) :
    (inflate s flush).stream.state.view =
        s.state.view.after (s.offered.take (inflate s flush).taken)
          (inflate s flush).written ∧
      (inflate s flush).stream.state.signal = (inflate s flush).ret.signal := by
  cases state : s.state with
  | raw a =>
      rw [inflate_raw state notNull, signal_inflateRaw]
      exact ⟨a.call_view s.offered s.availOut, rfl⟩
  | wrapped i notRaw =>
      rw [inflate_wrapped state]
      exact StoredZlib.inflate_after (s := withState s i) flush notNull

end LiteralZlib

section Laws

variable {width : Nat} {wide : width = 32 ∨ width = 64} {os : UInt8}

open LiteralZlib

theorem container_inflateInit2 {bits : Int} {f : Format}
    (selects : windowContainer bits = some f) :
    (inflateInit2 bits : ZStream width _).state.container = f ∧
      (inflateInit2 bits : ZStream width _).state.view = .fresh ∧
      (inflateInit2 bits : ZStream width _).state.signal = .more := by
  have container : StoredZlib.containerOf bits = f := by
    rw [StoredZlib.containerOf, selects]
    rfl
  unfold inflateInit2 StoredZlib.opened
  by_cases isRaw : StoredZlib.containerOf bits = .rawDeflate
  · rw [dif_pos isRaw]
    exact ⟨isRaw.symm.trans container, rfl, rfl⟩
  · rw [dif_neg isRaw]
    exact ⟨container, rfl, rfl⟩

def literalInflateLaws {Foreign : ZRet → Prop} :
    InflateLaws (literalZlib width wide os) literalWire Foreign where
  container := Inflate.container
  view := Inflate.view
  status i := (Inflate.signal i).status
  open_container selects := (container_inflateInit2 selects).1
  open_view selects := (container_inflateInit2 selects).2.1
  open_status selects :=
    congrArg Signal.status (container_inflateInit2 selects).2.2
  open_counts _ := ⟨rfl, rfl⟩
  container_kept := inflate_container
  counts := inflate_counts
  windows := inflate_windows
  null_refused _ flush null := inflate_refused flush null
  reads _ flush notNull opened _ :=
    inflate_reads flush notNull ((Signal.status_opened_iff _).mp opened)
  advances _ flush notNull _ _ :=
    ⟨(inflate_after flush notNull).1,
      congrArg Signal.status (inflate_after flush notNull).2⟩

theorem literalTrailerLaws {Foreign : ZRet → Prop} :
    InflateTrailerLaws (literalInflateLaws :
      InflateLaws (literalZlib width wide os) literalWire Foreign) where
  trailer s flush notNull _ contained more := by
    change Inflate.container (ZStream.state s) = .zlib ∨
      Inflate.container (ZStream.state s) = .gzip at contained
    change (inflate s flush).ret.signal = .more at more
    change ¬ (literalWire (Inflate.container (ZStream.state s))).Complete
      ((Inflate.view (ZStream.state s)).read ++
        s.offered.take (inflate s flush).taken)
    cases state : ZStream.state s with
    | raw a =>
        rw [state] at contained
        exact absurd contained (by simp [Inflate.container])
    | wrapped i notRaw =>
        rw [inflate_wrapped state] at more ⊢
        rw [Inflate.container, literalWire_of_ne notRaw,
          storedWire_of_ne i.notZstd]
        exact StoredZlib.inflate_more (s := withState s i) flush notNull more

theorem literal_cut
    {s : ZStream (literalZlib width wide os).ulongBits
      (literalZlib width wide os).Inflate}
    (cut : CutShort (literalZlib width wide os) literalWire s) :
    (literalZlib width wide os).inflate s .finish =
      inflateRaw s (.fresh machine) .finish :=
  inflate_raw cut.fresh cut.notNull .finish

theorem literalRoomLaws :
    InflateRoomLaws (literalZlib width wide os) literalWire where
  frugal s cut p b last := by
    rw [literal_cut cut] at last ⊢
    exact Serial.Ahead.call_fresh_frugal last
  copied _ _ p _ _ copies := absurd copies (not_copies p)
  eager s cut left whole := by
    have more := cut.more
    rw [literal_cut cut] at left whole more
    have same := signal_inflateRaw s (.fresh machine) .finish
    exact absurd (Serial.Ahead.call_fresh_eager (same.symm.trans more) whole)
      left.ne

end Laws

/-- A build with that zlib, on a Unix with a 64-bit `uLong`. -/
def literalBuild : Build :=
  { unixBuild with zlib := literalZlib 64 unix_wide 3 }

def literalSeries : ZstdSeriesLaws literalBuild.zstd (literalWire .zstd) :=
  rawSeriesLaws rfl

/-- Six literals of nine bits each. -/
def sixLiterals : List UInt8 := [59, 113, 242, 212, 233, 51, 103, 1]

theorem complete_sixLiterals :
    (literalWire .rawDeflate).Complete sixLiterals :=
  Serial.complete_of_last (M := LiteralZlib.machine)
    (p := [59, 113, 242, 212, 233, 51, 103]) (b := 1) (by decide) (by decide)

end Polliwog
