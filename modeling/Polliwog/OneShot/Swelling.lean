import Polliwog.OneShot.Squeezing

/-!
# What a one-shot swell does

A zlib swell is one decoding call on a fresh stream, and its verdict is read
off the signal of that call and off how much of the input it took.  The signal
does not tell an input that ran out from an output that did.
-/

namespace Polliwog

open Codec

variable {B : Build}

/-- The verdict of a zlib swell on what its decoding call did. -/
structure SwellVerdict (input : Span) (taken : Nat) (written : List UInt8)
    (signal : Signal) (result : Except Error Progress) : Prop where
  whole : signal ≠ .bad → taken = input.size →
    result = .ok
      { bytesIn := taken, bytesOut := written.length, done := signal = .done }
  short : signal = .more → taken < input.size →
    result = .error
      { kind := .bufferTooSmall, backend := .zlib, pos := 0, note := "" }
  extra : signal = .done → taken < input.size →
    FailsWith .streamCorrupt result
  spoiled : signal = .bad → FailsWith .streamCorrupt result

/-- A swell that succeeds met no damage and took its whole input. -/
theorem SwellVerdict.taken_of_ok {input : Span} {taken : Nat}
    {written : List UInt8} {signal : Signal} {result : Except Error Progress}
    {r : Progress} (verdict : SwellVerdict input taken written signal result)
    (within : taken ≤ input.size) (ok : result = .ok r) :
    taken = input.size ∧ r.bytesOut = written.length := by
  have notBad : signal ≠ .bad := by
    intro bad
    obtain ⟨e, failed, -⟩ := verdict.spoiled bad
    rw [ok] at failed
    cases failed
  have all : taken = input.size := by
    by_contra cut
    have less : taken < input.size := lt_of_le_of_ne within cut
    cases signal with
    | bad => exact notBad rfl
    | done =>
        obtain ⟨e, failed, -⟩ := verdict.extra rfl less
        rw [ok] at failed
        cases failed
    | more =>
        have failed := verdict.short rfl less
        rw [ok] at failed
        cases failed
  have served := verdict.whole notBad all
  rw [ok] at served
  cases served
  exact ⟨all, rfl⟩

theorem ZRet.signal_done_iff (ret : ZRet) :
    ret.signal = .done ↔ ret = .streamEnd := by
  cases ret <;> decide

theorem ZRet.signal_more_iff (ret : ZRet) :
    ret.signal = .more ↔ ret ≠ .streamEnd ∧ (ret = .ok ∨ ret = .bufError) := by
  cases ret <;> decide

theorem ZRet.signal_bad_iff (ret : ZRet) :
    ret.signal = .bad ↔ ret ≠ .streamEnd ∧ ¬ (ret = .ok ∨ ret = .bufError) := by
  cases ret <;> decide

theorem ZlibSweller.push_verdict {Z : Zlib} (h : ZlibSweller Z)
    (input out : Span) {taken : Nat} {written : List UInt8}
    (consumed : counted (h.stream.load input out).totalIn
      (Z.inflate (h.stream.load input out) .finish).stream.totalIn = taken)
    (produced : counted (h.stream.load input out).totalOut
      (Z.inflate (h.stream.load input out) .finish).stream.totalOut =
        written.length) :
    SwellVerdict input taken written
      (Z.inflate (h.stream.load input out) .finish).ret.signal
        (h.push input out).result where
  whole := by
    intro notBad all
    simp only [push, consumed, produced, all, lt_irrefl, ↓reduceIte]
    cases signal : (Z.inflate (h.stream.load input out) .finish).ret.signal with
    | bad => exact absurd signal notBad
    | done =>
        have ret := (ZRet.signal_done_iff _).mp signal
        simp [ret]
    | more =>
        obtain ⟨notEnd, ret⟩ := (ZRet.signal_more_iff _).mp signal
        simp only [notEnd, ret, ↓reduceIte]
        rfl
  short := by
    intro more cut
    obtain ⟨notEnd, ret⟩ := (ZRet.signal_more_iff _).mp more
    simp only [push, consumed, notEnd, ret, cut, ↓reduceIte]
  extra := by
    intro done cut
    have ret := (ZRet.signal_done_iff _).mp done
    simp only [push, consumed, ret, cut, ↓reduceIte]
    exact ⟨_, rfl, rfl⟩
  spoiled := by
    intro bad
    obtain ⟨notEnd, notMore⟩ := (ZRet.signal_bad_iff _).mp bad
    simp only [push, notEnd, notMore, ↓reduceIte]
    exact ⟨_, rfl, rfl⟩

theorem InflateCounters.sweller_verdict {Z : Zlib} (laws : InflateCounters Z)
    {f : Format} (member : f ∈ ZlibBackend.formats) (input out : Span) :
    let call := Z.inflate ((ZlibSweller.make Z f).stream.load input out) .finish
    SwellVerdict input call.taken call.written call.ret.signal
      ((ZlibSweller.make Z f).push input out).result := by
  have selects := windowContainer_windowBitsFor member
  let loaded := (ZlibSweller.make Z f).stream.load input out
  let call := Z.inflate loaded .finish
  obtain ⟨inCount, outCount⟩ := laws.counts loaded .finish
  obtain ⟨takenLe, writtenLe⟩ := laws.windows loaded .finish
  have zeroIn : loaded.totalIn = 0 := (laws.open_counts selects).1
  have zeroOut : loaded.totalOut = 0 := (laws.open_counts selects).2
  have takenShort : call.taken < 2 ^ 32 := by
    have window : loaded.offered.length = uInt input.size := input.length_window
    exact lt_of_le_of_lt (window ▸ takenLe) (uInt_lt _)
  have writtenShort : call.written.length < 2 ^ 32 :=
    lt_of_le_of_lt writtenLe (uInt_lt _)
  apply ZlibSweller.push_verdict
  · rw [inCount, zeroIn]
    exact counted_fresh Z _ takenShort
  · rw [outCount, zeroOut]
    exact counted_fresh Z _ writtenShort

namespace InflateLaws

variable {Z : Zlib} {wire : Format → Wire UInt8} {Foreign : ZRet → Prop}
  (laws : InflateLaws Z wire Foreign) {f : Format}

include laws

theorem sweller_reads (member : f ∈ ZlibBackend.formats) (input : Span)
    {out : Span} (notNull : out.isNull = false)
    (own : ¬ Foreign
      (Z.inflate ((ZlibSweller.make Z f).stream.load input out) .finish).ret) :
    let call := Z.inflate ((ZlibSweller.make Z f).stream.load input out) .finish
    Dec.fresh.Reads (wire f) input.window
      (uInt out.size) call.taken call.written call.ret.signal := by
  have selects := windowContainer_windowBitsFor member
  let loaded := (ZlibSweller.make Z f).stream.load input out
  have status : laws.status loaded.state = .opened := laws.open_status selects
  have view : laws.view loaded.state = .fresh := laws.open_view selects
  have container : laws.container loaded.state = f :=
    laws.open_container selects
  have reads := laws.reads loaded .finish notNull status own
  rw [view, container] at reads
  exact reads

theorem sweller_push_null {input out : Span} (null : out.isNull = true) :
    FailsWith .streamCorrupt
      ((ZlibSweller.make Z f).push input out).result := by
  have ret :=
    laws.null_refused ((ZlibSweller.make Z f).stream.load input out)
      .finish null
  simp only [ZlibSweller.push, ret]
  exact ⟨_, rfl, rfl⟩

end InflateLaws

namespace SwellingLaws

variable (laws : SwellingLaws B) {f : Format} {input out : Span}

/-- A swell into memory is one decoding call on a fresh stream. -/
theorem sweller_push (member : f ∈ ZlibBackend.formats)
    (notNull : out.isNull = false) :
    ∃ taken signal,
      Dec.fresh.Reads (laws.wire f) input.window (uInt out.size) taken
        ((ZlibSweller.make B.zlib f).push input out).written signal ∧
      SwellVerdict input taken
        ((ZlibSweller.make B.zlib f).push input out).written signal
        ((ZlibSweller.make B.zlib f).push input out).result :=
  ⟨_, _, laws.inflate.sweller_reads member input notNull not_false,
    laws.inflate.sweller_verdict member input out⟩

end SwellingLaws

end Polliwog
