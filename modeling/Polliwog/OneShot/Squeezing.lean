import Polliwog.Laws

/-!
# What a one-shot squeeze does

The engine sees 32-bit windows of both spans.  Whatever it makes of the input
window either fits the output window or is cut there, and both outcomes are
reported as success.
-/

namespace Polliwog

open Codec

variable {B : Build}

/-- The whole stream that deflate has for what it is offered of `input`. -/
def EncodingLaws.packed (laws : EncodingLaws B) (f : Format) (lvl : ZlibLevel)
    (input : Span) : List UInt8 :=
  laws.deflate.encode f lvl.toInt input.window

/-- A gzip stream with the operating system unset. -/
def stampOs (f : Format) (s : List UInt8) : List UInt8 :=
  if f = .gzip then s.set 9 0xff else s

@[simp] theorem length_stampOs (f : Format) (s : List UInt8) :
    (stampOs f s).length = s.length := by
  unfold stampOs
  split <;> simp

theorem stampOs_take (f : Format) (s : List UInt8) (count : Nat) :
    (stampOs f s).take count = stampOs f (s.take count) := by
  unfold stampOs
  split
  · exact List.take_set
  · rfl

theorem stampOs_isPrefix {f : Format} {p s : List UInt8} (isPrefix : p <+: s) :
    stampOs f p <+: stampOs f s := by
  rw [List.prefix_iff_eq_take.mp isPrefix, ← stampOs_take]
  exact List.take_prefix _ _

namespace EncodingLaws

variable (laws : EncodingLaws B) {f : Format}

theorem complete_stampOs {s : List UInt8}
    (complete : (laws.wire f).Complete s) :
    (laws.wire f).Complete (stampOs f s) := by
  unfold stampOs
  split
  case isTrue isGzip =>
    subst isGzip
    exact laws.os_complete s 0xff complete
  case isFalse => exact complete

@[simp] theorem content_stampOs (s : List UInt8) :
    (laws.wire f).content (stampOs f s) = (laws.wire f).content s := by
  unfold stampOs
  split
  case isTrue isGzip =>
    subst isGzip
    exact laws.os_content s 0xff
  case isFalse => rfl

variable {lvl : ZlibLevel} {input out : Span} (member : f ∈ ZlibBackend.formats)
  (accepted : Accepts f lvl)

include member accepted

theorem complete_packed : (laws.wire f).Complete (laws.packed f lvl input) :=
  laws.deflate.encode_complete _ (deflateOpens member accepted)

theorem content_packed :
    (laws.wire f).content (laws.packed f lvl input) = input.window :=
  laws.deflate.encode_content _ (deflateOpens member accepted)

theorem packed_ne_nil : laws.packed f lvl input ≠ [] := by
  intro blank
  have complete : (laws.wire f).Complete (laws.packed f lvl input) :=
    laws.complete_packed member accepted
  rw [blank] at complete
  exact (laws.wire f).not_complete_nil complete

/-- The stream fits the window: the engine reaches its end. -/
theorem push_fits (notNull : out.isNull = false)
    (fits : (laws.packed f lvl input).length ≤ uInt out.size) :
    let reply := (ZlibSqueezer.make B.zlib f lvl).push input out
    reply.result = .ok
        { bytesIn := uInt input.size
          bytesOut := (laws.packed f lvl input).length
          done := true } ∧
      reply.written = laws.packed f lvl input ∧
      reply.calls =
        [{ entry := .deflate, offered := uInt input.size, room := uInt out.size
           taken := uInt input.size, wrote := (laws.packed f lvl input).length
           ended := true }] := by
  have opens := deflateOpens member accepted
  let h := ZlibSqueezer.make B.zlib f lvl
  obtain ⟨ret, taken, written⟩ :=
    laws.deflate.fresh_fits (h.stream.load input out) opens notNull rfl fits
  obtain ⟨inCount, outCount⟩ :=
    laws.deflate.counts (h.stream.load input out) .finish
  have zeroIn : (h.stream.load input out).totalIn = 0 :=
    (laws.deflate.open_counts opens).1
  have zeroOut : (h.stream.load input out).totalOut = 0 :=
    (laws.deflate.open_counts opens).2
  have takenAll : (B.zlib.deflate (h.stream.load input out) .finish).taken =
      uInt input.size :=
    taken.trans input.length_window
  have writtenAll : (B.zlib.deflate (h.stream.load input out) .finish).written =
      laws.packed f lvl input :=
    written
  have short := uInt_lt out.size
  have consumed : counted (h.stream.load input out).totalIn
      (B.zlib.deflate (h.stream.load input out) .finish).stream.totalIn =
        uInt input.size := by
    rw [inCount, takenAll, zeroIn]
    exact counted_fresh B.zlib _ (uInt_lt _)
  have produced : counted (h.stream.load input out).totalOut
      (B.zlib.deflate (h.stream.load input out) .finish).stream.totalOut =
        (laws.packed f lvl input).length := by
    rw [outCount, writtenAll, zeroOut]
    exact counted_fresh B.zlib _ (lt_of_le_of_lt fits short)
  refine ⟨?_, writtenAll, ?_⟩
  · rw [h.push_served input out (.inl ret), consumed, produced, ret]
    rfl
  · change [(B.zlib.deflate (h.stream.load input out) .finish).entry .deflate
      (h.stream.load input out)] = _
    simp only [ZCall.entry, ret, takenAll, writtenAll, decide_true]
    rfl

/-- The stream does not fit: the window is filled, and still this is success. -/
theorem push_cut (notNull : out.isNull = false) (room_pos : 0 < uInt out.size)
    (cut : uInt out.size < (laws.packed f lvl input).length) :
    let reply := (ZlibSqueezer.make B.zlib f lvl).push input out
    (∃ consumed, reply.result = .ok
        { bytesIn := consumed, bytesOut := uInt out.size, done := false }) ∧
      reply.written = (laws.packed f lvl input).take (uInt out.size) ∧
      ∃ call, reply.calls = [call] ∧ call.ended = false := by
  have opens := deflateOpens member accepted
  let h := ZlibSqueezer.make B.zlib f lvl
  obtain ⟨ret, written⟩ :=
    laws.deflate.fresh_cut
      (h.stream.load input out) opens notNull rfl room_pos cut
  obtain ⟨-, outCount⟩ := laws.deflate.counts (h.stream.load input out) .finish
  have zeroOut : (h.stream.load input out).totalOut = 0 :=
    (laws.deflate.open_counts opens).2
  have writtenCut : (B.zlib.deflate (h.stream.load input out) .finish).written =
      (laws.packed f lvl input).take (uInt out.size) :=
    written
  have filled :
      (B.zlib.deflate (h.stream.load input out) .finish).written.length =
      uInt out.size := by
    rw [writtenCut, List.length_take]
    omega
  have produced : counted (h.stream.load input out).totalOut
      (B.zlib.deflate (h.stream.load input out) .finish).stream.totalOut =
        uInt out.size := by
    rw [outCount, filled, zeroOut]
    exact counted_fresh B.zlib _ (uInt_lt _)
  have result := h.push_served input out (.inr ret)
  rw [produced, ret] at result
  refine ⟨⟨_, result⟩, writtenCut,
    (B.zlib.deflate (h.stream.load input out) .finish).entry .deflate
      (h.stream.load input out), rfl, ?_⟩
  simp [ZCall.entry, ret]

include laws in
omit member accepted in
/-- The window is empty: the engine refuses to finish into it. -/
theorem push_refused (notNull : out.isNull = false)
    (noRoom : uInt out.size = 0) :
    ((ZlibSqueezer.make B.zlib f lvl).push input out).result =
      .error { kind := .backendFailure, backend := .zlib, pos := 0,
               note := "deflate" } := by
  let h := ZlibSqueezer.make B.zlib f lvl
  have ret :=
    (laws.deflate.finish_no_room (h.stream.load input out) notNull noRoom).1
  apply h.push_refused input out <;> simp [ret]

end EncodingLaws

theorem DeflateCounters.fresh_push_counts (counters : DeflateCounters B.zlib)
    {f : Format} {lvl : ZlibLevel} {input out : Span}
    (member : f ∈ ZlibBackend.formats) (accepted : Accepts f lvl) {r : Progress}
    (ok : ((ZlibSqueezer.make B.zlib f lvl).push input out).result = .ok r) :
    r.bytesOut =
      ((ZlibSqueezer.make B.zlib f lvl).push input out).written.length := by
  have opens := deflateOpens member accepted
  let loaded := (ZlibSqueezer.make B.zlib f lvl).stream.load input out
  obtain ⟨-, outCount⟩ := counters.counts loaded .finish
  obtain ⟨-, writtenLe⟩ := counters.windows loaded .finish
  have short : loaded.availOut < 2 ^ 32 := uInt_lt out.size
  have zeroOut : loaded.totalOut = 0 := (counters.open_counts opens).2
  have produced :
      counted loaded.totalOut (B.zlib.deflate loaded .finish).stream.totalOut =
      (B.zlib.deflate loaded .finish).written.length := by
    rw [outCount, zeroOut]
    exact counted_fresh B.zlib _ (lt_of_le_of_lt writtenLe short)
  simp only [ZlibSqueezer.push] at ok
  split at ok
  · cases ok
  · cases ok
    exact produced

theorem SizeLaws.zlibBound_pos (sizing : SizeLaws B) (lvl : ZlibLevel)
    (inSize : Nat) :
    0 < ZlibBackend.bound B.zlib lvl inSize := by
  have sum := sizing.sizes.bound_eq (BitVec.ofNat B.zlib.ulongBits inSize)
  have wide := uInt_le_uLong B.zlib
  simp only [ZlibBackend.bound]
  split
  · decide
  · rw [sum]
    unfold compressSum
    omega

/-- The patch changes neither the verdict nor the count, and stamps exactly
what was reported written. -/
theorem patchOs_ofReply {σ : Type} (f : Format) (opened : Entry) (out : Span)
    {reply : Reply σ Progress} {r : Progress}
    (ok : reply.result = .ok r) (exact : r.bytesOut = reply.written.length) :
    (patchOs f (.ofReply opened reply out)).result = .ok ⟨r.bytesOut⟩ ∧
      (patchOs f (.ofReply opened reply out)).out.take r.bytesOut =
        stampOs f reply.written ∧
      (patchOs f (.ofReply opened reply out)).calls =
        { entry := opened } :: reply.calls := by
  have result : (OneShot.ofReply opened reply out).result = .ok ⟨r.bytesOut⟩ :=
    OneShot.result_of_ok ok
  have stored : (out.overwrite reply.written).take r.bytesOut =
      reply.written := by
    rw [exact, Span.take_overwrite]
  unfold patchOs
  rw [result]
  by_cases stamped : f = .gzip ∧ 10 ≤ r.bytesOut
  · refine ⟨?_, ?_, ?_⟩
    · simp [stamped]
    · simp only [stamped, and_self, ↓reduceIte, OneShot.ofReply,
        List.take_set, stored, stampOs]
    · simp [stamped, OneShot.ofReply]
  · refine ⟨?_, ?_, ?_⟩
    · simp only [stamped, ↓reduceIte, result]
    · simp only [stamped, ↓reduceIte, OneShot.ofReply, stored, stampOs]
      by_cases isGzip : f = .gzip
      · have short : reply.written.length ≤ 9 := by
          have notLong : ¬ 10 ≤ r.bytesOut := fun long => stamped ⟨isGzip, long⟩
          omega
        simp [isGzip, List.set_eq_of_length_le short]
      · simp [isGzip]
    · simp only [stamped, ↓reduceIte, OneShot.ofReply]

theorem patchOs_error {f : Format} {call : OneShot} {e : Error}
    (failed : call.result = .error e) : patchOs f call = call := by
  simp [patchOs, failed]

namespace SizeLaws

variable (sizing : SizeLaws B) {f : Format} {lvl : ZlibLevel} {input out : Span}
  (member : f ∈ ZlibBackend.formats) (has : B.hasZlib = true)
  (roomy : bound B f lvl input.size ≤ out.size)

include sizing member has roomy

theorem squeeze_roomy (accepted : Accepts f lvl) :
    squeeze B f lvl input out = patchOs f
      (.ofReply .deflateInit2
        ((ZlibSqueezer.make B.zlib f lvl).push input out) out) := by
  have inRange := accepted member
  have positive : 0 < bound B f lvl input.size := by
    rw [bound_of_zlib member has]
    exact sizing.zlibBound_pos lvl input.size
  rw [squeeze_of_zlib member has, if_neg (by omega), if_neg (by omega),
    if_neg (by omega)]

theorem out_notNull : out.isNull = false := by
  have positive : 0 < bound B f lvl input.size := by
    rw [bound_of_zlib member has]
    exact sizing.zlibBound_pos lvl input.size
  exact Span.notNull_of_size_pos (by omega)

end SizeLaws

namespace EncodingLaws

variable (laws : EncodingLaws B) {f : Format} {lvl : ZlibLevel}
  {input out : Span} (member : f ∈ ZlibBackend.formats)
  (accepted : Accepts f lvl) (has : B.hasZlib = true)
  (roomy : bound B f lvl input.size ≤ out.size)

include laws member accepted has roomy

theorem squeeze_fits (fits : (laws.packed f lvl input).length ≤ uInt out.size) :
    (squeeze B f lvl input out).result =
      .ok ⟨(laws.packed f lvl input).length⟩ ∧
      (squeeze B f lvl input out).out.take (laws.packed f lvl input).length =
        stampOs f (laws.packed f lvl input) ∧
      (squeeze B f lvl input out).calls =
        [{ entry := .deflateInit2 },
          { entry := .deflate, offered := uInt input.size, room := uInt out.size
            taken := uInt input.size, wrote := (laws.packed f lvl input).length
            ended := true }] := by
  have notNull := laws.sizing.out_notNull member has roomy
  obtain ⟨result, written, calls⟩ := laws.push_fits member accepted notNull fits
  have exact : (laws.packed f lvl input).length =
      ((ZlibSqueezer.make B.zlib f lvl).push input out).written.length := by
    rw [written]
  obtain ⟨verdict, stamped, ledger⟩ :=
    patchOs_ofReply f .deflateInit2 out result exact
  rw [laws.sizing.squeeze_roomy member has roomy accepted]
  refine ⟨verdict, ?_, ?_⟩
  · rw [written] at stamped
    exact stamped
  · rw [ledger, calls]

theorem squeeze_cut (room_pos : 0 < uInt out.size)
    (cut : uInt out.size < (laws.packed f lvl input).length) :
    (squeeze B f lvl input out).result = .ok ⟨uInt out.size⟩ ∧
      (squeeze B f lvl input out).out.take (uInt out.size) =
        stampOs f ((laws.packed f lvl input).take (uInt out.size)) ∧
      ∀ call ∈ (squeeze B f lvl input out).calls, call.ended = false := by
  have notNull := laws.sizing.out_notNull member has roomy
  obtain ⟨⟨consumed, result⟩, written, call, calls, unended⟩ :=
    laws.push_cut member accepted notNull room_pos cut
  have exact : uInt out.size =
      ((ZlibSqueezer.make B.zlib f lvl).push input out).written.length := by
    rw [written, List.length_take]
    omega
  obtain ⟨verdict, stamped, ledger⟩ :=
    patchOs_ofReply f .deflateInit2 out result exact
  rw [laws.sizing.squeeze_roomy member has roomy accepted]
  refine ⟨verdict, ?_, ?_⟩
  · rw [written] at stamped
    exact stamped
  · intro entry listed
    rw [ledger, calls] at listed
    rcases List.mem_cons.mp listed with opening | pushed
    · rw [opening]
    · rw [List.mem_singleton.mp pushed]
      exact unended

/-- A squeeze into a window of some room succeeds: its bytes are the stream of
the input window as far as the output window reaches. -/
theorem squeeze_ok (room_pos : 0 < uInt out.size) :
    (squeeze B f lvl input out).result =
        .ok ⟨min (uInt out.size) (laws.packed f lvl input).length⟩ ∧
      (squeeze B f lvl input out).out.take
          (min (uInt out.size) (laws.packed f lvl input).length) =
        stampOs f ((laws.packed f lvl input).take (uInt out.size)) := by
  rcases Nat.lt_or_ge (uInt out.size) (laws.packed f lvl input).length
    with cut | fits
  · obtain ⟨result, stored, -⟩ :=
      laws.squeeze_cut member accepted has roomy room_pos cut
    rw [Nat.min_eq_left cut.le]
    exact ⟨result, stored⟩
  · obtain ⟨result, stored, -⟩ :=
      laws.squeeze_fits member accepted has roomy fits
    rw [Nat.min_eq_right fits, List.take_of_length_le fits]
    exact ⟨result, stored⟩

theorem squeeze_no_room (noRoom : uInt out.size = 0) :
    (squeeze B f lvl input out).result =
      .error { kind := .backendFailure, backend := .zlib, pos := 0,
               note := "deflate" } := by
  have notNull := laws.sizing.out_notNull member has roomy
  have refused :
      ((ZlibSqueezer.make B.zlib f lvl).push input out).result = .error
      { kind := .backendFailure, backend := .zlib, pos := 0,
        note := "deflate" } :=
    laws.push_refused notNull noRoom
  have failed : (OneShot.ofReply .deflateInit2
      ((ZlibSqueezer.make B.zlib f lvl).push input out) out).result = .error
        { kind := .backendFailure, backend := .zlib, pos := 0,
          note := "deflate" } :=
    OneShot.result_of_error refused
  rw [laws.sizing.squeeze_roomy member has roomy accepted,
    patchOs_error failed, failed]

end EncodingLaws

theorem EncodingLaws.squeeze_zstd_ok (laws : EncodingLaws B) {lvl : ZlibLevel}
    {input out : Span} (has : B.hasZstd = true)
    (roomy : bound B .zstd lvl input.size ≤ out.size)
    {n : Nat} (ok : (squeeze B .zstd lvl input out).result = .ok ⟨n⟩) :
    (laws.wire .zstd).Complete ((squeeze B .zstd lvl input out).out.take n) ∧
      (laws.wire .zstd).content ((squeeze B .zstd lvl input out).out.take n) =
        input.bytes ∧
      (∃ call ∈ (squeeze B .zstd lvl input out).calls,
        call.taken = input.size ∧ call.ended = true) ∧
      B.zstd.isError input.size = false := by
  have positive : 0 < bound B .zstd lvl input.size := by
    by_contra zero
    rw [squeeze_of_zstd has, if_pos (by omega)] at ok
    cases ok
  have served : squeeze B .zstd lvl input out = _ := squeeze_of_zstd has
  rw [if_neg (by omega), if_neg (by omega)] at served
  rw [served] at ok ⊢
  let call := B.zstd.compress out.size input.bytes lvl.toInt
  cases failed : B.zstd.isError call.ret with
  | true =>
      have isError :
          B.zstd.isError (B.zstd.compress out.size input.bytes lvl.toInt).ret =
        true := failed
      simp [OneShot.ofReply, ZstdSqueezer.push, ZstdSqueezer.make, isError,
        Except.map] at ok
  | false =>
      have isOk :
          B.zstd.isError (B.zstd.compress out.size input.bytes lvl.toInt).ret =
        false := failed
      obtain ⟨stored, complete, content, sized⟩ :=
        laws.oneShot.compress_ok out.size input.bytes lvl.toInt failed
      have count : n = call.written.length := by
        rw [stored]
        simpa [OneShot.ofReply, ZstdSqueezer.push, ZstdSqueezer.make,
          isOk, Except.map] using ok.symm
      have taken : (out.overwrite call.written).take n = call.written := by
        rw [count, Span.take_overwrite]
      refine ⟨?_, ?_, ?_, sized⟩
      · exact taken.symm ▸ complete
      · exact (congrArg _ taken).trans content
      · refine ⟨_, List.mem_cons_of_mem _ (List.mem_singleton.mpr rfl), rfl, ?_⟩
        simp [ZstdSqueezer.make, isOk]

end Polliwog
