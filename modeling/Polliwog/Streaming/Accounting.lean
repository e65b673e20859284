import Polliwog.Streaming.Decompressing
import Polliwog.Reference.Build

/-!
# Progress accounting over long streams

A call reports the difference of two readings of a `uLong` counter, taken in 64
bits.  The counter itself wraps at the width of `uLong`, so that the report is
exact as long as the totals pass no multiple of that within a call.
-/

namespace Polliwog

open Codec

variable {B : Build}

/-- A call reports what the engine took and stored, and stays in its spans. -/
def Exact {σ : Type} (input out : Span) (reply : Reply σ StreamResult) : Prop :=
  ∀ r, reply.result = .ok r →
    (r.bytesConsumed = reply.taken ∧ r.bytesProduced = reply.written.length) ∧
      r.bytesConsumed ≤ input.size ∧ r.bytesProduced ≤ out.size

/-- What comes after a total of `before` does not carry it past a multiple of
2^32. -/
def Fits (before count : Nat) : Prop := before % 2 ^ 32 + count < 2 ^ 32

/-- No call that returns a value carries either of its totals. -/
def NeverCarries {ι σ : Type} (trace : List (ι × Reply σ StreamResult)) :
    Prop :=
  ∀ before entry after, trace = before ++ entry :: after →
    (∃ r, entry.2.result = .ok r) →
    Fits (takenBy before) entry.2.taken ∧
      Fits (written before).length entry.2.written.length

/-- The 64-bit difference of two readings of a 32-bit counter is off by all but
the low half once the counter has wrapped. -/
theorem counted_iff {width : Nat} (known : width = 32 ∨ width = 64)
    (before : BitVec width) (count : Nat) (short : count < 2 ^ 32) :
    counted before (before + BitVec.ofNat width count) = count ↔
      width = 64 ∨ before.toNat + count < 2 ^ width := by
  rcases known with rfl | rfl
  · have bounded := before.isLt
    simp only [counted, BitVec.toNat_sub, BitVec.toNat_setWidth,
      BitVec.toNat_add, BitVec.toNat_ofNat]
    omega
  · exact iff_of_true (counted_wide rfl before count (by omega)) (.inl rfl)

/-- A counter that moved never seems to have stood still. -/
theorem counted_pos {width : Nat} (known : width = 32 ∨ width = 64)
    (before : BitVec width) {count : Nat} (short : count < 2 ^ 32)
    (positive : 0 < count) :
    0 < counted before (before + BitVec.ofNat width count) := by
  have bounded := before.isLt
  simp only [counted, BitVec.toNat_sub, BitVec.toNat_setWidth, BitVec.toNat_add,
    BitVec.toNat_ofNat]
  rcases known with rfl | rfl <;> omega

/-- One call, as its two counters tell it. -/
structure Accounts {σ : Type} {width : Nat}
    (inBefore outBefore inAfter outAfter : BitVec width) (input out : Span)
    (reply : Reply σ StreamResult) : Prop where
  totalIn : inAfter = inBefore + BitVec.ofNat width reply.taken
  totalOut : outAfter = outBefore + BitVec.ofNat width reply.written.length
  taken_le : reply.taken ≤ uInt input.size
  written_le : reply.written.length ≤ uInt out.size
  reported : ∀ r, reply.result = .ok r →
    r.bytesConsumed = counted inBefore inAfter ∧
    r.bytesProduced = counted outBefore outAfter

/-- The report is exact if and only if neither counter wraps. -/
theorem Accounts.exact_iff {σ : Type} {width : Nat}
    (known : width = 32 ∨ width = 64)
    {inBefore outBefore inAfter outAfter : BitVec width} {input out : Span}
    {reply : Reply σ StreamResult}
    (accounts : Accounts inBefore outBefore inAfter outAfter input out reply) :
    Exact input out reply ↔
      ((∃ r, reply.result = .ok r) → width = 64 ∨
        (inBefore.toNat + reply.taken < 2 ^ width ∧
          outBefore.toNat + reply.written.length < 2 ^ width)) := by
  obtain ⟨totalIn, totalOut, takenLe, writtenLe, reported⟩ := accounts
  have shortIn := uInt_lt input.size
  have shortOut := uInt_lt out.size
  have countIn := counted_iff known inBefore reply.taken (by omega)
  have countOut := counted_iff known outBefore reply.written.length (by omega)
  rw [← totalIn] at countIn
  rw [← totalOut] at countOut
  constructor
  · rintro exact ⟨r, ok⟩
    obtain ⟨⟨consumed, produced⟩, -⟩ := exact r ok
    obtain ⟨inCount, outCount⟩ := reported r ok
    rw [or_and_left]
    exact ⟨countIn.mp (inCount ▸ consumed), countOut.mp (outCount ▸ produced)⟩
  · intro fits r ok
    obtain ⟨inCount, outCount⟩ := reported r ok
    have within := fits ⟨r, ok⟩
    rw [or_and_left] at within
    have consumed : r.bytesConsumed = reply.taken :=
      inCount.trans (countIn.mpr within.1)
    have produced : r.bytesProduced = reply.written.length :=
      outCount.trans (countOut.mpr within.2)
    refine ⟨⟨consumed, produced⟩, ?_, ?_⟩
    · rw [consumed]
      exact takenLe.trans (uInt_le _)
    · rw [produced]
      exact writtenLe.trans (uInt_le _)

theorem Accounts.moved {σ : Type} {width : Nat}
    (known : width = 32 ∨ width = 64)
    {inBefore outBefore inAfter outAfter : BitVec width} {input out : Span}
    {reply : Reply σ StreamResult}
    (accounts : Accounts inBefore outBefore inAfter outAfter input out reply)
    {r : StreamResult} (ok : reply.result = .ok r) :
    (0 < r.bytesConsumed ↔ 0 < reply.taken) ∧
      (0 < reply.written.length → 0 < r.bytesProduced) := by
  obtain ⟨totalIn, totalOut, takenLe, writtenLe, reported⟩ := accounts
  obtain ⟨inCount, outCount⟩ := reported r ok
  have shortIn := takenLe.trans_lt (uInt_lt input.size)
  have shortOut := writtenLe.trans_lt (uInt_lt out.size)
  rw [inCount, outCount, totalIn, totalOut]
  refine ⟨⟨?_, counted_pos known inBefore shortIn⟩,
    counted_pos known outBefore shortOut⟩
  intro consumed
  by_contra none
  rw [Nat.eq_zero_of_not_pos none, counted_zero] at consumed
  exact Nat.lt_irrefl 0 consumed

/-- The counters of a state read the totals of what led to it, up to their
width. -/
structure CountersRead {ι σ : Type} {width : Nat}
    (totalIn totalOut : σ → BitVec width)
    (past : List (ι × Reply σ StreamResult)) (state : σ) : Prop where
  totalIn : (totalIn state).toNat = takenBy past % 2 ^ width
  totalOut : (totalOut state).toNat = (written past).length % 2 ^ width

section Counters

variable {ι σ : Type} {width : Nat}
  {step : σ → ι → Reply σ StreamResult → σ → Prop} (input out : ι → Span)
  (totalIn totalOut : σ → BitVec width) (Inv : σ → Prop)
  (accounts : ∀ state request reply next, Inv state →
    step state request reply next → Inv next ∧
    Accounts (totalIn state) (totalOut state) (totalIn next) (totalOut next)
      (input request) (out request) reply)
  {start last : σ} {trace : List (ι × Reply σ StreamResult)}

include accounts

theorem counters_read (holds : Inv start) (zeroIn : totalIn start = 0)
    (zeroOut : totalOut start = 0) (run : Run step start trace last) :
    Inv last ∧ CountersRead totalIn totalOut trace last := by
  let State (past : List (ι × Reply σ StreamResult)) (state : σ) : Prop :=
    Inv state ∧ CountersRead totalIn totalOut past state
  have fresh : State [] start := by
    refine ⟨holds, ?_, ?_⟩
    · simp [zeroIn]
    · simp [zeroOut]
  have kept {past : List (ι × Reply σ StreamResult)} {state next : σ}
      {request : ι} {reply : Reply σ StreamResult} (reads : State past state)
      (exchange : step state request reply next) :
        State (past ++ [(request, reply)]) next := by
    obtain ⟨holds, readIn, readOut⟩ := reads
    obtain ⟨kept, account⟩ := accounts _ _ _ _ holds exchange
    refine ⟨kept, ?_, ?_⟩
    · rw [account.totalIn, BitVec.toNat_add, BitVec.toNat_ofNat, readIn,
        takenBy_concat, ← Nat.add_mod]
    · rw [account.totalOut, BitVec.toNat_add, BitVec.toNat_ofNat, readOut,
        written_append, List.length_append, ← Nat.add_mod]
      simp
  have after : State ([] ++ trace) last := run.history State kept fresh
  exact after

theorem exact_iff_neverCarries (known : width = 32 ∨ width = 64)
    (holds : Inv start) (zeroIn : totalIn start = 0)
    (zeroOut : totalOut start = 0) (run : Run step start trace last) :
    (∀ entry ∈ trace, Exact (input entry.1) (out entry.1) entry.2) ↔
      width = 64 ∨ NeverCarries trace := by
  have here (before : List (ι × Reply σ StreamResult))
      (entry : ι × Reply σ StreamResult)
      (after : List (ι × Reply σ StreamResult)) (parts : trace =
        before ++ entry :: after) :
      Exact (input entry.1) (out entry.1) entry.2 ↔
        ((∃ r, entry.2.result = .ok r) → width = 64 ∨
          (Fits (takenBy before) entry.2.taken ∧
            Fits (written before).length entry.2.written.length)) := by
    subst parts
    obtain ⟨mid, first, second⟩ := run.split
    obtain ⟨reached, readIn, readOut⟩ :=
      counters_read input out totalIn totalOut Inv accounts holds zeroIn
        zeroOut first
    cases second with
    | cons exchange _ =>
        obtain ⟨-, account⟩ := accounts _ _ _ _ reached exchange
        rw [account.exact_iff known, readIn, readOut]
        rcases known with rfl | rfl
        · rfl
        · simp
  constructor
  · intro exact
    rw [or_iff_not_imp_left]
    intro narrow before entry after parts returns
    have listed : entry ∈ trace := by simp [parts]
    exact ((here before entry after parts).mp
      (exact entry listed) returns).resolve_left narrow
  · intro fits entry listed
    obtain ⟨before, after, parts⟩ := List.append_of_mem listed
    rw [here before entry after parts]
    intro returns
    exact fits.imp_right fun carries => carries before entry after parts returns

end Counters

/-- The counters of the engine behind a compressor, zero if it is not zlib. -/
def compressorTotals (c : Compressor B) :
    BitVec B.zlib.ulongBits × BitVec B.zlib.ulongBits :=
  match c.handle with
  | .zlibSqueezer h => (h.stream.totalIn, h.stream.totalOut)
  | _ => (0, 0)

def decompressorTotals (d : Decompressor B) :
    BitVec B.zlib.ulongBits × BitVec B.zlib.ulongBits :=
  match d.handle with
  | .zlibSweller h => (h.stream.totalIn, h.stream.totalOut)
  | _ => (0, 0)

namespace DeflateCounters

variable (counters : DeflateCounters B.zlib)

include counters

theorem compressor_accounts {c c' : Compressor B} {request : Compressor.Request}
    {reply : Reply (Compressor B) StreamResult}
    (isZlib : ∃ h, c = ⟨.zlibSqueezer h⟩) (step : c.Step request reply c') :
    (∃ h, c' = ⟨.zlibSqueezer h⟩) ∧
      Accounts (compressorTotals c).1 (compressorTotals c).2
        (compressorTotals c').1
        (compressorTotals c').2 request.input request.out reply := by
  obtain ⟨h, rfl⟩ := isZlib
  let loaded := h.stream.load request.input request.out
  obtain ⟨totalIn, totalOut⟩ := counters.counts loaded request.mode
  obtain ⟨takenLe, writtenLe⟩ := counters.windows loaded request.mode
  have window : loaded.offered.length = uInt request.input.size :=
    request.input.length_window
  rw [window] at takenLe
  obtain ⟨returned, rfl⟩ := step
  cases request with
  | push input out =>
      cases returned
      refine ⟨⟨_, rfl⟩, totalIn, totalOut, takenLe, writtenLe, ?_⟩
      intro r ok
      simp only [Compressor.push, SqueezerVariant.pushVisitor, Reply.map,
        ZlibSqueezer.pushMore] at ok
      split at ok <;> cases ok
      exact ⟨rfl, rfl⟩
  | flush out =>
      have nothing : (B.zlib.deflate loaded .syncFlush).taken = 0 :=
        Nat.le_zero.mp takenLe
      cases returned
      refine ⟨⟨_, rfl⟩, totalIn, totalOut, takenLe, writtenLe, ?_⟩
      intro r ok
      simp only [Compressor.flush, SqueezerVariant.flushVisitor, Reply.map,
        ZlibSqueezer.flush] at ok
      split at ok <;> cases ok
      refine ⟨?_, rfl⟩
      have still := totalIn
      simp only [Compressor.Request.mode, nothing] at still
      exact (counted_zero _).symm.trans (congrArg _ still.symm)
  | finish out =>
      have nothing : (B.zlib.deflate loaded .finish).taken = 0 :=
        Nat.le_zero.mp takenLe
      cases returned
      refine ⟨⟨_, rfl⟩, totalIn, totalOut, takenLe, writtenLe, ?_⟩
      intro r ok
      simp only [Reply.map, ZlibSqueezer.finish, ZlibSqueezer.push] at ok
      split at ok <;> cases ok
      refine ⟨?_, rfl⟩
      have still := totalIn
      simp only [Compressor.Request.mode, nothing] at still
      exact (counted_zero _).symm.trans (congrArg _ still.symm)

theorem compressor_exact_iff {f : Format} {lvl : ZlibLevel}
    (member : f ∈ ZlibBackend.formats) (has : B.hasZlib = true)
    (accepted : Accepts f lvl) {trace : Compressor.Trace B} {c : Compressor B}
    (run : Run Compressor.Step (.of B f lvl) trace c) :
    (∀ entry ∈ trace, Exact entry.1.input entry.1.out entry.2) ↔
      B.zlib.ulongBits = 64 ∨ NeverCarries trace := by
  have handle : Compressor.of B f lvl = ⟨.zlibSqueezer (.make B.zlib f lvl)⟩ :=
    congrArg Compressor.mk (makeSqueezer_of_zlib member has)
  obtain ⟨zeroIn, zeroOut⟩ :=
    counters.open_counts (deflateOpens member accepted)
  rw [handle] at run
  exact exact_iff_neverCarries Compressor.Request.input Compressor.Request.out
    (fun c => (compressorTotals c).1) (fun c => (compressorTotals c).2)
    (fun c => ∃ h, c = ⟨.zlibSqueezer h⟩)
      (fun _ _ _ _ => counters.compressor_accounts)
    B.zlib.ulong_width ⟨_, rfl⟩ zeroIn zeroOut run

end DeflateCounters

namespace InflateCounters

variable (counters : InflateCounters B.zlib)

include counters

theorem decompressor_accounts {d d' : Decompressor B}
    {request : Decompressor.Request}
    {reply : Reply (Decompressor B) StreamResult}
    (isZlib : ∃ h, d = ⟨.zlibSweller h⟩) (step : d.Step request reply d') :
    (∃ h, d' = ⟨.zlibSweller h⟩) ∧
      Accounts (decompressorTotals d).1 (decompressorTotals d).2
        (decompressorTotals d').1
        (decompressorTotals d').2 request.input request.out reply := by
  obtain ⟨h, rfl⟩ := isZlib
  let loaded := h.stream.load request.input request.out
  obtain ⟨totalIn, totalOut⟩ := counters.counts loaded .noFlush
  obtain ⟨takenLe, writtenLe⟩ := counters.windows loaded .noFlush
  have window : loaded.offered.length = uInt request.input.size :=
    request.input.length_window
  rw [window] at takenLe
  obtain ⟨rfl, rfl⟩ := step
  refine ⟨⟨_, rfl⟩, totalIn, totalOut, takenLe, writtenLe, ?_⟩
  intro r ok
  simp only [Decompressor.push, SwellerVariant.pushVisitor, Reply.map,
    ZlibSweller.pushMore] at ok
  split at ok
  · cases ok
    exact ⟨rfl, rfl⟩
  · split at ok <;> cases ok
    exact ⟨rfl, rfl⟩

theorem decompressor_exact_iff {f : Format} (member : f ∈ ZlibBackend.formats)
    (has : B.hasZlib = true) {trace : Decompressor.Trace B} {d : Decompressor B}
    (run : Run Decompressor.Step (.construct B f) trace d) :
    (∀ entry ∈ trace, Exact entry.1.input entry.1.out entry.2) ↔
      B.zlib.ulongBits = 64 ∨ NeverCarries trace := by
  have handle : Decompressor.construct B f = ⟨.zlibSweller (.make B.zlib f)⟩ :=
    congrArg Decompressor.mk (makeSweller_of_zlib member has)
  obtain ⟨zeroIn, zeroOut⟩ :=
    counters.open_counts (windowContainer_windowBitsFor member)
  rw [handle] at run
  exact exact_iff_neverCarries Decompressor.Request.input
    Decompressor.Request.out
    (fun d => (decompressorTotals d).1) (fun d => (decompressorTotals d).2)
    (fun d => ∃ h, d = ⟨.zlibSweller h⟩)
      (fun _ _ _ _ => counters.decompressor_accounts)
    B.zlib.ulong_width ⟨_, rfl⟩ zeroIn zeroOut run

end InflateCounters

/-- In every run the reports of a zlib object are exact if and only if `uLong`
has 64 bits or no call carries a total past a multiple of 2^32. -/
theorem progress_exact_iff (deflate : DeflateCounters B.zlib)
    (inflate : InflateCounters B.zlib) {f : Format} {lvl : ZlibLevel}
    (member : f ∈ ZlibBackend.formats) (has : B.hasZlib = true)
    (accepted : Accepts f lvl) :
    (∀ trace c, Run Compressor.Step (.of B f lvl) trace c →
      ((∀ entry ∈ trace, Exact entry.1.input entry.1.out entry.2) ↔
        B.zlib.ulongBits = 64 ∨ NeverCarries trace)) ∧
    (∀ trace d, Run Decompressor.Step (.construct B f) trace d →
      ((∀ entry ∈ trace, Exact entry.1.input entry.1.out entry.2) ↔
        B.zlib.ulongBits = 64 ∨ NeverCarries trace)) :=
  ⟨fun _ _ run => deflate.compressor_exact_iff member has accepted run,
    fun _ _ run => inflate.decompressor_exact_iff member has run⟩

theorem storedPush_takes {width : Nat} {wide : width = 32 ∨ width = 64}
    {os : UInt8} {h : ZlibSqueezer (storedZlib width wide os)}
    (writing : (h.stream.state : StoredZlib.Deflate os).buffer.closing = false)
    (input : Span) {out : Span} (room : 0 < uInt out.size) :
    (h.pushMore input out).taken = uInt input.size ∧
      (∃ r, (h.pushMore input out).result = .ok r) ∧
      ((h.pushMore input out).handle.stream.state :
        StoredZlib.Deflate os).buffer.closing = false := by
  have notNull : out.isNull = false :=
    Span.notNull_of_size_pos (room.trans_le (uInt_le _))
  let loaded : ZStream width (StoredZlib.Deflate os) := h.stream.load input out
  have accepts : ¬ StoredZlib.Refuses loaded .noFlush := by
    simp [StoredZlib.Refuses, loaded, ZStream.load, notNull, writing]
  have runs : ¬ StoredZlib.Stalls loaded := by
    simp [StoredZlib.Stalls, loaded, ZStream.load, writing, room.ne']
  have served :
      (storedZlib width wide os).deflate (h.stream.load input out) .noFlush =
      StoredZlib.serve loaded .noFlush :=
    StoredZlib.deflate_served accepts runs
  have ret : (StoredZlib.serve loaded .noFlush).ret = .ok ∨
      (StoredZlib.serve loaded .noFlush).ret = .bufError := by
    have either (p : Prop) [Decidable p] :
        (if p then ZRet.bufError else .ok) = .ok ∨
        (if p then ZRet.bufError else .ok) = .bufError := by
      split <;> simp
    exact either _
  have window : loaded.offered.length = uInt input.size := input.length_window
  refine ⟨?_, ⟨_, h.pushMore_served input out (served.symm ▸ ret)⟩, ?_⟩
  · simp only [Reply.taken, ZlibSqueezer.pushMore, served]
    exact (Nat.add_zero _).trans window
  · have notFinish : ZFlush.noFlush ≠ .finish := by decide
    change (StoredZlib.deflate loaded .noFlush).stream.state.buffer.closing =
        false
    rw [StoredZlib.deflate_served accepts runs]
    exact (StoredZlib.closing_prepare loaded.state loaded.offered
      notFinish).trans writing

theorem neverCarries_one {ι σ : Type} {request : ι}
    {reply : Reply σ StreamResult} (taken : reply.taken < 2 ^ 32)
    (written : reply.written.length < 2 ^ 32) :
    NeverCarries [(request, reply)] := by
  intro before entry after parts _
  cases before with
  | nil =>
      cases parts
      exact ⟨(Nat.zero_add _).trans_lt taken, (Nat.zero_add _).trans_lt written⟩
  | cons first before => simp at parts

/-- One push with counters of 64 bits, and one with counters of 32 that do not
carry. -/
theorem progress_exact_gzip :
    Exact fiveBytes (.zeros 32 (by decide))
        ((Compressor.of unixBuild .gzip ⟨0⟩).push fiveBytes
          (.zeros 32 (by decide))) ∧
      Exact fiveBytes (.zeros 32 (by decide))
        ((Compressor.of windowsBuild .gzip ⟨0⟩).push fiveBytes
          (.zeros 32 (by decide))) := by
  have member : Format.gzip ∈ ZlibBackend.formats := by decide
  have accepted : Accepts .gzip ⟨0⟩ := by decide
  let out : Span := .zeros 32 (by decide)
  let wide := (Compressor.of unixBuild .gzip ⟨0⟩).push fiveBytes out
  let narrow := (Compressor.of windowsBuild .gzip ⟨0⟩).push fiveBytes out
  have run : Run Compressor.Step
      (.of unixBuild .gzip ⟨0⟩) [(.push fiveBytes out, wide)] _ :=
    .one ⟨rfl, rfl⟩
  have run' : Run Compressor.Step (.of windowsBuild .gzip ⟨0⟩)
      [(.push fiveBytes out, narrow)] _ :=
    .one ⟨rfl, rfl⟩
  have carries :
      NeverCarries [(Compressor.Request.push fiveBytes out, narrow)] :=
    neverCarries_one (by decide) (by decide)
  exact ⟨((progress_exact_iff unixLaws.deflate.toDeflateCounters
      unixLaws.inflate.toInflateCounters member rfl accepted).1 _ _ run).mpr
        (.inl rfl) _ (List.mem_singleton.mpr rfl),
    ((progress_exact_iff windowsLaws.deflate.toDeflateCounters
      windowsLaws.inflate.toInflateCounters member rfl accepted).1 _ _ run').mpr
        (.inr carries) _ (List.mem_singleton.mpr rfl)⟩

/-- The second 2^31 bytes are not reported as so many. -/
theorem not_exact_after {long out : Span} (size : long.size = 2 ^ 31)
    (room : 0 < uInt out.size) :
    ∃ trace c, Run Compressor.Step (.of windowsBuild .zlib ⟨0⟩) trace c ∧
      ¬ ∀ entry ∈ trace, Exact entry.1.input entry.1.out entry.2 := by
  let h : ZlibSqueezer windowsBuild.zlib := .make windowsBuild.zlib .zlib ⟨0⟩
  let c : Compressor windowsBuild := ⟨.zlibSqueezer h⟩
  let first := c.push long out
  let second := first.handle.push long out
  have writing : (h.stream.state : StoredZlib.Deflate 10).buffer.closing =
      false := rfl
  obtain ⟨firstTaken, -, still⟩ := storedPush_takes writing long room
  obtain ⟨secondTaken, ⟨r, ok⟩, -⟩ := storedPush_takes still long room
  have run : Run Compressor.Step c
      [(.push long out, first), (.push long out, second)] second.handle :=
    .cons ⟨rfl, rfl⟩ (.one ⟨rfl, rfl⟩)
  refine ⟨_, _, run, ?_⟩
  intro exact
  have counters :=
    exact_iff_neverCarries Compressor.Request.input Compressor.Request.out
    (fun c => (compressorTotals c).1) (fun c => (compressorTotals c).2)
    (fun c => ∃ h, c = ⟨.zlibSqueezer h⟩)
    (fun _ _ _ _ => windowsLaws.deflate.compressor_accounts)
    windows_wide ⟨h, rfl⟩ rfl rfl run
  rcases counters.mp exact with wide | carries
  · cases wide
  · have fits := (carries [(.push long out, first)] _ [] rfl
      ⟨_, Reply.map_ok (Reply.map_ok ok)⟩).1
    have before : takenBy [(Compressor.Request.push long out, first)] =
        uInt long.size :=
      (Nat.add_zero _).trans firstTaken
    have after : second.taken = uInt long.size := secondTaken
    rw [Fits, before, after, size] at fits
    revert fits
    decide

/-- Two pushes of 2^31 bytes each, with room for what they are stored as. -/
theorem not_progress_exact :
    Format.zlib ∈ ZlibBackend.formats ∧ windowsBuild.hasZlib = true ∧
    Accepts .zlib ⟨0⟩ ∧
      ∃ trace c, Run Compressor.Step (.of windowsBuild .zlib ⟨0⟩) trace c ∧
        ¬ ∀ entry ∈ trace, Exact entry.1.input entry.1.out entry.2 := by
  let long : Span := .zeros (2 ^ 31) (by decide)
  let out : Span := .zeros (2 ^ 31 + 2 ^ 20) (by decide)
  have size : long.size = 2 ^ 31 := List.length_replicate
  have size' : out.size = 2 ^ 31 + 2 ^ 20 := List.length_replicate
  have room : 0 < uInt out.size := by
    rw [size']
    decide
  exact ⟨by decide, rfl, by decide, not_exact_after size room⟩

end Polliwog
