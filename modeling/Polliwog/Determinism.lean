import Polliwog.Platform
import Polliwog.Streaming.Compressing
import Polliwog.Reference.Build

/-!
# The same bytes on two platforms

The one-shot layer hides the operating system, so what is left to differ there
is how much of the stream each output window holds.  The streaming layer hides
nothing.
-/

namespace Polliwog

open Codec

variable {B : Build}

/-- Two squeezes of one input return the same and store the same bytes. -/
def SameSqueeze (left right : OneShot) : Prop :=
  left.result = right.result ∧
    ∀ n, left.result = .ok ⟨n⟩ → left.out.take n = right.out.take n

namespace SameSqueeze

variable {left mid right : OneShot}

theorem symm (same : SameSqueeze left right) : SameSqueeze right left := by
  refine ⟨same.1.symm, ?_⟩
  intro n ok
  exact (same.2 n (same.1.trans ok)).symm

theorem trans (first : SameSqueeze left mid) (second : SameSqueeze mid right) :
    SameSqueeze left right := by
  refine ⟨first.1.trans second.1, ?_⟩
  intro n ok
  exact (first.2 n ok).trans (second.2 n (first.1.symm.trans ok))

theorem of_ok {n : Nat} (ok : left.result = .ok ⟨n⟩)
    (ok' : right.result = .ok ⟨n⟩) (same : left.out.take n = right.out.take n) :
    SameSqueeze left right := by
  refine ⟨ok.trans ok'.symm, ?_⟩
  intro n' again
  rw [ok, Except.ok.injEq, SqueezeResult.mk.injEq] at again
  exact again ▸ same

theorem of_error {e : Error} (failed : left.result = .error e)
    (failed' : right.result = .error e) : SameSqueeze left right := by
  refine ⟨failed.trans failed'.symm, ?_⟩
  intro n ok
  rw [failed] at ok
  cases ok

theorem ofReply {σ τ : Type} {opened : Entry} {reply : Reply σ Progress}
    {reply' : Reply τ Progress} {out out' : Span}
    (result : reply.result = reply'.result)
    (written : reply.written = reply'.written)
    (exact : ∀ r, reply.result = .ok r → r.bytesOut = reply.written.length) :
    SameSqueeze (.ofReply opened reply out) (.ofReply opened reply' out') := by
  cases verdict : reply.result with
  | error e =>
      exact .of_error (OneShot.result_of_error verdict)
        (OneShot.result_of_error (result.symm.trans verdict))
  | ok r =>
      apply SameSqueeze.of_ok (OneShot.result_of_ok verdict)
        (OneShot.result_of_ok (result.symm.trans verdict))
      simp only [OneShot.ofReply, exact r verdict, ← written,
        Span.take_overwrite]

theorem patched {σ τ : Type} {f : Format} {opened : Entry}
    {reply : Reply σ Progress} {reply' : Reply τ Progress} {out out' : Span}
    (result : reply.result = reply'.result)
    (length : reply.written.length = reply'.written.length)
    (stamped : stampOs f reply.written = stampOs f reply'.written)
    (exact : ∀ r, reply.result = .ok r → r.bytesOut = reply.written.length) :
    SameSqueeze (patchOs f (.ofReply opened reply out))
      (patchOs f (.ofReply opened reply' out')) := by
  cases verdict : reply.result with
  | error e =>
      have failed : (patchOs f (.ofReply opened reply out)).result = .error e :=
        (patchOs_result _ _).trans (OneShot.result_of_error verdict)
      have failed' :
          (patchOs f (.ofReply opened reply' out')).result = .error e :=
        (patchOs_result _ _).trans
          (OneShot.result_of_error (result.symm.trans verdict))
      exact .of_error failed failed'
  | ok r =>
      obtain ⟨ok, stored, -⟩ :=
        patchOs_ofReply f opened out verdict (exact r verdict)
      obtain ⟨ok', stored', -⟩ :=
        patchOs_ofReply f opened out' (result.symm.trans verdict)
        ((exact r verdict).trans length)
      exact .of_ok ok ok' (by rw [stored, stored', stamped])

end SameSqueeze

namespace EncodingLaws

variable {laws : EncodingLaws B} {f : Format} {lvl : ZlibLevel}
  {input out out' : Span}

section OneShot

variable (member : f ∈ ZlibBackend.formats) (accepted : Accepts f lvl)
  (has : B.hasZlib = true) (roomy : bound B f lvl input.size ≤ out.size)

include member accepted has roomy

/-- On one platform only the sizes of the output windows can show. -/
theorem same_squeeze_iff (laws : EncodingLaws B)
    (roomy' : bound B f lvl input.size ≤ out'.size) :
    SameSqueeze (squeeze B f lvl input out) (squeeze B f lvl input out') ↔
      min (uInt out.size) (laws.packed f lvl input).length =
        min (uInt out'.size) (laws.packed f lvl input).length := by
  have stream : 0 < (laws.packed f lvl input).length :=
    List.length_pos_iff.mpr (laws.packed_ne_nil member accepted)
  rcases Nat.eq_zero_or_pos (uInt out.size) with none | some
  · have failed := laws.squeeze_no_room member accepted has roomy none
    rcases Nat.eq_zero_or_pos (uInt out'.size) with none' | some'
    · have failed' := laws.squeeze_no_room member accepted has roomy' none'
      exact iff_of_true (.of_error failed failed') (by rw [none, none'])
    · obtain ⟨ok', -⟩ := laws.squeeze_ok member accepted has roomy' some'
      apply iff_of_false
      · intro alike
        obtain ⟨same, -⟩ := alike
        rw [failed, ok'] at same
        cases same
      · omega
  · obtain ⟨ok, stored⟩ := laws.squeeze_ok member accepted has roomy some
    rcases Nat.eq_zero_or_pos (uInt out'.size) with none' | some'
    · have failed' := laws.squeeze_no_room member accepted has roomy' none'
      apply iff_of_false
      · intro alike
        obtain ⟨same, -⟩ := alike
        rw [ok, failed'] at same
        cases same
      · omega
    · obtain ⟨ok', stored'⟩ := laws.squeeze_ok member accepted has roomy' some'
      constructor
      · intro alike
        obtain ⟨same, -⟩ := alike
        rw [ok, ok', Except.ok.injEq, SqueezeResult.mk.injEq] at same
        exact same
      · intro same
        have cut : (laws.packed f lvl input).take (uInt out.size) =
            (laws.packed f lvl input).take (uInt out'.size) :=
          List.take_eq_take_iff.mpr same
        rw [← same] at ok' stored'
        exact .of_ok ok ok' (by rw [stored, stored', cut])

end OneShot

theorem compress_same (laws : EncodingLaws B) (has : B.hasZstd = true)
    (roomy : bound B .zstd lvl input.size ≤ out.size)
    (roomy' : bound B .zstd lvl input.size ≤ out'.size) :
    (B.zstd.compress out.size input.bytes lvl.toInt).ret =
        (B.zstd.compress out'.size input.bytes lvl.toInt).ret ∧
      (B.zstd.compress out.size input.bytes lvl.toInt).written =
        (B.zstd.compress out'.size input.bytes lvl.toInt).written := by
  rw [bound_of_zstd has, ZstdBackend.bound] at roomy roomy'
  cases failed : B.zstd.isError (B.zstd.compressBound input.size) with
  | true =>
      simp only [failed, ↓reduceIte] at roomy roomy'
      have limit := out.size_lt
      have limit' := out'.size_lt
      have sameSize : out.size = out'.size := by
        simp only [Span.size] at roomy roomy' ⊢
        omega
      rw [sameSize]
      exact ⟨rfl, rfl⟩
  | false =>
      simp only [failed, Bool.false_eq_true, ↓reduceIte] at roomy roomy'
      obtain ⟨isOk, frame⟩ :=
        laws.oneShot.compress_roomy out.size input.bytes lvl.toInt failed roomy
      obtain ⟨isOk', frame'⟩ :=
        laws.oneShot.compress_roomy out'.size input.bytes lvl.toInt
          failed roomy'
      obtain ⟨count, -⟩ :=
        laws.oneShot.compress_ok out.size input.bytes lvl.toInt isOk
      obtain ⟨count', -⟩ :=
        laws.oneShot.compress_ok out'.size input.bytes lvl.toInt isOk'
      exact ⟨by rw [← count, ← count', frame, frame'], frame.trans frame'.symm⟩

theorem same_squeeze_zstd (laws : EncodingLaws B) (has : B.hasZstd = true)
    (roomy : bound B .zstd lvl input.size ≤ out.size)
    (roomy' : bound B .zstd lvl input.size ≤ out'.size) :
    SameSqueeze (squeeze B .zstd lvl input out)
      (squeeze B .zstd lvl input out') := by
  obtain ⟨sameRet, sameWritten⟩ := laws.compress_same has roomy roomy'
  rw [squeeze_of_zstd has, squeeze_of_zstd has]
  rcases Nat.eq_zero_or_pos (bound B .zstd lvl input.size) with none | some
  · rw [if_pos none, if_pos none]
    exact .of_error rfl rfl
  · rw [if_neg (by omega), if_neg (by omega), if_neg (by omega),
      if_neg (by omega)]
    apply SameSqueeze.ofReply
    · simp only [ZstdSqueezer.push, ZstdSqueezer.make, sameRet]
      rfl
    · exact sameWritten
    · intro r ok
      cases failed :
        B.zstd.isError (B.zstd.compress out.size input.bytes lvl.toInt).ret with
      | true => simp [ZstdSqueezer.push, ZstdSqueezer.make, failed] at ok
      | false =>
          obtain ⟨count, -⟩ :=
            laws.oneShot.compress_ok out.size input.bytes lvl.toInt failed
          simp only [ZstdSqueezer.push, ZstdSqueezer.make, failed,
            Bool.false_eq_true, ↓reduceIte, Except.ok.injEq] at ok
          rw [← ok]
          exact count.symm

namespace Twins

variable {other : Deflater B.zlib} {os os' : UInt8}
  (twins : laws.Twins other os os')

theorem push_result {h : ZlibSqueezer B.zlib}
    {h' : ZlibSqueezer (B.on other).zlib}
    (alike : h.stream.Alike twins.Alike h'.stream) (input out : Span) :
    (h'.push input out).result = (h.push input out).result := by
  have loaded := alike.load input out
  obtain ⟨ret, kept, -⟩ := twins.deflates .finish loaded
  have sameRet :
      ((B.on other).zlib.deflate (h'.stream.load input out) .finish).ret =
      (B.zlib.deflate (h.stream.load input out) .finish).ret := ret
  have consumed : counted (h'.stream.load input out).totalIn
      ((B.on other).zlib.deflate
        (h'.stream.load input out) .finish).stream.totalIn =
      counted (h.stream.load input out).totalIn
        (B.zlib.deflate (h.stream.load input out) .finish).stream.totalIn :=
    congrArg₂ counted loaded.totalIn kept.totalIn
  have produced : counted (h'.stream.load input out).totalOut
      ((B.on other).zlib.deflate
        (h'.stream.load input out) .finish).stream.totalOut =
      counted (h.stream.load input out).totalOut
        (B.zlib.deflate (h.stream.load input out) .finish).stream.totalOut :=
    congrArg₂ counted loaded.totalOut kept.totalOut
  simp only [ZlibSqueezer.push, sameRet, consumed, produced]

include twins in
theorem same_squeeze_on (serves : B.Serves f) (accepted : Accepts f lvl)
    (roomy : bound B f lvl input.size ≤ out.size) :
    SameSqueeze (squeeze B f lvl input out)
      (squeeze (B.on other) f lvl input out) := by
  rcases mem_formats_or_zstd serves with ⟨has, member⟩ | ⟨has, rfl⟩
  · have opens := deflateOpens member accepted
    obtain ⟨alike, fresh⟩ := twins.opens opens
    let h := ZlibSqueezer.make B.zlib f lvl
    let h' := ZlibSqueezer.make (B.on other).zlib f lvl
    have sameBound : bound (B.on other) f lvl input.size =
        bound B f lvl input.size := rfl
    have written : (h'.push input out).written =
        markOs f os' 0 (h.push input out).written := by
      have container :
          laws.deflate.container (h.stream.load input out).state = f :=
        laws.deflate.open_container opens
      have start : twins.emitted (h.stream.load input out).state = 0 := fresh
      rw [← container, ← start]
      exact (twins.marks .finish (alike.load input out)).2
    have patched : squeeze (B.on other) f lvl input out =
        patchOs f (.ofReply .deflateInit2 (h'.push input out) out) := by
      have positive := laws.sizing.zlibBound_pos lvl input.size
      rw [← bound_of_zlib member has] at positive
      have inRange := accepted member
      have has' : (B.on other).hasZlib = true := has
      rw [squeeze_of_zlib member has', sameBound, if_neg (by omega),
        if_neg (by omega), if_neg (by omega)]
    rw [laws.sizing.squeeze_roomy member has roomy accepted, patched]
    apply SameSqueeze.patched
    · exact (twins.push_result alike input out).symm
    · rw [written, length_markOs]
    · rw [written, stampOs_markOs]
    · exact fun r ok => laws.deflate.fresh_push_counts member accepted ok
  · have same : squeeze (B.on other) .zstd lvl input out =
        squeeze B .zstd lvl input out := rfl
    rw [same]
    exact ⟨rfl, fun _ _ => rfl⟩

/-- Two compressors at the same place of one session, `past` behind them. -/
def Together (f : Format) (past : List UInt8) (c : Compressor B)
    (c' : Compressor (B.on other)) : Prop :=
  match c.handle, c'.handle with
  | .zlibSqueezer h, .zlibSqueezer h' =>
      h.stream.Alike twins.Alike h'.stream ∧
        laws.deflate.container h.stream.state = f ∧
        twins.emitted h.stream.state = past.length
  | .zstdSqueezer h, .zstdSqueezer h' => h = h' ∧ f = .zstd
  | _, _ => False

theorem together_of (serves : B.Serves f) (accepted : Accepts f lvl) :
    twins.Together f [] (.of B f lvl) (.of (B.on other) f lvl) := by
  rcases mem_formats_or_zstd serves with ⟨has, member⟩ | ⟨has, rfl⟩
  · have opens := deflateOpens member accepted
    obtain ⟨alike, fresh⟩ := twins.opens opens
    have has' : (B.on other).hasZlib = true := has
    simp only [Compressor.of, makeSqueezer_of_zlib member has,
      makeSqueezer_of_zlib member has', Together]
    exact ⟨alike, laws.deflate.open_container opens, fresh⟩
  · have has' : (B.on other).hasZstd = true := has
    simp only [Compressor.of, makeSqueezer_of_zstd has,
      makeSqueezer_of_zstd has', Together]
    exact ⟨rfl, trivial⟩

theorem step_together {past : List UInt8} {c c₁ : Compressor B}
    {c' c₁' : Compressor (B.on other)} (together : twins.Together f past c c')
    {request : Compressor.Request} {reply : Reply (Compressor B) StreamResult}
    {reply' : Reply (Compressor (B.on other)) StreamResult}
    (step : c.Step request reply c₁) (step' : c'.Step request reply' c₁') :
    twins.Together f (past ++ reply.written) c₁ c₁' ∧
      reply.written = markOs f os past.length reply.written ∧
      reply'.written = markOs f os' past.length reply.written := by
  obtain ⟨handle⟩ := c
  obtain ⟨handle'⟩ := c'
  cases handle with
  | zlibStubSqueezer => exact together.elim
  | zstdStubSqueezer => exact together.elim
  | zlibSqueezer h =>
      cases handle' with
      | zlibStubSqueezer => exact together.elim
      | zstdStubSqueezer => exact together.elim
      | zstdSqueezer h' => exact together.elim
      | zlibSqueezer h' =>
          obtain ⟨alike, container, position⟩ := together
          have loaded := alike.load request.input request.out
          obtain ⟨written, rfl, -⟩ := Compressor.step_zlib step
          obtain ⟨written', rfl, -⟩ := Compressor.step_zlib step'
          obtain ⟨-, kept, emitted⟩ := twins.deflates request.mode loaded
          obtain ⟨marked, marked'⟩ := twins.marks request.mode loaded
          have sameContainer : laws.deflate.container
              (h.stream.load request.input request.out).state = f := container
          have samePosition : twins.emitted
              (h.stream.load request.input request.out).state = past.length :=
                position
          rw [sameContainer, samePosition] at marked marked'
          rw [written, written']
          refine ⟨⟨kept, ?_, ?_⟩, marked, marked'⟩
          · exact (laws.deflate.container_kept _ _).trans container
          · rw [List.length_append, ← samePosition]
            exact emitted
  | zstdSqueezer h =>
      cases handle' with
      | zlibStubSqueezer => exact together.elim
      | zstdStubSqueezer => exact together.elim
      | zlibSqueezer h' => exact together.elim
      | zstdSqueezer h' =>
          obtain ⟨rfl, rfl⟩ := together
          obtain ⟨inner, returned, written, rfl⟩ := Compressor.step_zstd step
          obtain ⟨inner', returned', written', rfl⟩ :=
            Compressor.step_zstd step'
          have same : inner' = inner :=
            Option.some.inj (returned'.symm.trans returned)
          subst same
          simp only [markOs_of_ne (show Format.zstd ≠ .gzip by decide),
            true_and]
          exact ⟨⟨rfl, rfl⟩, written'.trans written.symm⟩

include twins in
/-- Over a whole schedule the bytes differ in no more than the mark. -/
theorem run_together (serves : B.Serves f) (accepted : Accepts f lvl)
    {trace : Compressor.Trace B} {c : Compressor B}
    {trace' : Compressor.Trace (B.on other)} {c' : Compressor (B.on other)}
    (run : Run Compressor.Step (.of B f lvl) trace c)
    (run' : Run Compressor.Step (.of (B.on other) f lvl) trace' c')
    (same : trace.map Prod.fst = trace'.map Prod.fst) :
    written trace = markOs f os 0 (written trace) ∧
      written trace' = markOs f os' 0 (written trace) := by
  have start : markOs f os 0 [] = [] ∧ markOs f os' 0 [] = [] := by
    simp [markOs]
  refine (run.lockstep
    (fun past past' c c' => twins.Together f (written past) c c' ∧
      written past = markOs f os 0 (written past) ∧
      written past' = markOs f os' 0 (written past))
    ?_ ⟨twins.together_of serves accepted, start.1.symm,
      start.2.symm⟩ run' same).2
  intro past past' c c' request reply reply' c₁ c₁' related step step'
  obtain ⟨together, marked, marked'⟩ := related
  obtain ⟨next, mark, mark'⟩ := twins.step_together together step step'
  simp only [written_append, written_cons, written_nil, List.append_nil]
  refine ⟨next, ?_, ?_⟩
  · rw [markOs_append, ← marked, Nat.zero_add, ← mark]
  · rw [markOs_append, ← marked', Nat.zero_add, ← mark']

end Twins

end EncodingLaws

/-- One schedule of calls on a compressor stores the same bytes on two
platforms. -/
def SameStreams (B B' : Build) (f : Format) (lvl : ZlibLevel) : Prop :=
  ∀ (trace : Compressor.Trace B) (c : Compressor B)
    (trace' : Compressor.Trace B') (c' : Compressor B'),
    Run Compressor.Step (.of B f lvl) trace c →
    Run Compressor.Step (.of B' f lvl) trace' c' →
    trace.map Prod.fst = trace'.map Prod.fst → written trace = written trace'

namespace EncodingLaws

variable {laws : EncodingLaws B} {f : Format} {lvl : ZlibLevel}

theorem length_encode_nil (laws : EncodingLaws B)
    (accepted : Accepts .gzip lvl) :
    9 < (laws.deflate.encode .gzip lvl.toInt []).length ∧
      (laws.deflate.encode .gzip lvl.toInt []).length ≤ 25 := by
  have opens :=
    deflateOpens (show Format.gzip ∈ ZlibBackend.formats by decide) accepted
  have least := laws.sizes.body_pos lvl.toInt []
  have most := laws.sizes.body_le lvl.toInt []
  rw [show compressSum [].length = 13 from rfl] at most
  rw [laws.sizes.encode_length [] opens, wrapperLength]
  omega

/-- One finish with room for the stream of no input shows the mark. -/
theorem Twins.not_sameStreams {other : Deflater B.zlib} {os os' : UInt8}
    (twins : laws.Twins other os os') (serves : B.Serves .gzip)
    (accepted : Accepts .gzip lvl) (different : os ≠ os') :
    ¬ SameStreams B (B.on other) .gzip lvl := by
  intro same
  have member : Format.gzip ∈ ZlibBackend.formats := by decide
  have has : B.hasZlib = true := by
    simpa [Build.Serves, member, ZstdBackend.formats] using serves
  have has' : (B.on other).hasZlib = true := has
  have opens := deflateOpens member accepted
  obtain ⟨long, short⟩ := laws.length_encode_nil accepted
  obtain ⟨holds, -, -, opened, -⟩ := laws.compresses_of lvl serves accepted
  have rest : (laws.encoder (.of B .gzip lvl)).rest =
      laws.deflate.encode .gzip lvl.toInt [] := by
    simp [Compressor.of, makeSqueezer, has, encoder, ZlibSqueezer.make,
      laws.deflate.open_view opens]
  let out : Span := .ofBytes (List.replicate 25 0) (by decide)
  have room : reach .gzip out.size = 25 := by decide
  obtain ⟨reply, returned, -, finish⟩ := laws.finish_spec holds opened out
  have served : laws.Finishes .gzip (.of B .gzip lvl) out reply := by
    rcases finish with ⟨-, noRoom⟩ | served
    · omega
    · exact served
  have emitted : reply.written = laws.deflate.encode .gzip lvl.toInt [] := by
    have fits : (laws.encoder (.of B .gzip lvl)).rest.length ≤
        reach .gzip out.size := by
      rw [rest, room]
      exact short
    rw [(served.encoder.fits fits).1, rest]
  obtain ⟨reply', returned'⟩ :
      ∃ reply', (Compressor.of (B.on other) .gzip lvl).finish out =
        some reply' := by
    simp [Compressor.of, makeSqueezer, has', Compressor.finish,
      SqueezerVariant.finishVisitor]
  have run : Run Compressor.Step
      (.of B .gzip lvl) [(.finish out, reply)] reply.handle :=
    .one ⟨returned, rfl⟩
  have run' :
      Run Compressor.Step (.of (B.on other) .gzip lvl) [(.finish out, reply')]
      reply'.handle :=
    .one ⟨returned', rfl⟩
  have equal := same _ _ _ _ run run' rfl
  obtain ⟨marked, marked'⟩ := twins.run_together serves accepted run run' rfl
  simp only [written_cons, written_nil, List.append_nil, emitted, markOs_gzip]
    at equal marked marked'
  have osAt := congrArg (fun bytes => bytes[9]?) marked
  have osAt' := congrArg (fun bytes => bytes[9]?) (equal.trans marked')
  simp only [List.getElem?_set_self long] at osAt osAt'
  exact different (Option.some.inj (osAt.symm.trans osAt'))

end EncodingLaws

/-- A squeeze gives the same bytes on both platforms exactly when both output
windows hold the stream or are cut at one length, and a compressor gives the
same bytes on both exactly when no gzip header tells the platforms apart. -/
theorem deterministic_iff (laws : EncodingLaws B) {other : Deflater B.zlib}
    {os os' : UInt8} (twins : laws.Twins other os os') {f : Format}
    {lvl : ZlibLevel} (serves : B.Serves f) (accepted : Accepts f lvl)
    {input out out' : Span} (roomy : bound B f lvl input.size ≤ out.size)
    (roomy' : bound (B.on other) f lvl input.size ≤ out'.size) :
    (SameSqueeze (squeeze B f lvl input out)
      (squeeze (B.on other) f lvl input out') ↔
      f = .zstd ∨ min (uInt out.size) (laws.packed f lvl input).length =
        min (uInt out'.size) (laws.packed f lvl input).length) ∧
    (SameStreams B (B.on other) f lvl ↔ f ≠ .gzip ∨ os = os') := by
  constructor
  · have sameBytes : SameSqueeze (squeeze B f lvl input out')
        (squeeze (B.on other) f lvl input out') :=
      twins.same_squeeze_on serves accepted roomy'
    have onOne : SameSqueeze (squeeze B f lvl input out)
          (squeeze (B.on other) f lvl input out') ↔
        SameSqueeze (squeeze B f lvl input out) (squeeze B f lvl input out') :=
      ⟨fun same => same.trans sameBytes.symm, fun same => same.trans sameBytes⟩
    rw [onOne]
    rcases mem_formats_or_zstd serves with ⟨has, member⟩ | ⟨has, rfl⟩
    · rw [EncodingLaws.same_squeeze_iff member accepted has roomy laws roomy',
        or_iff_right (ne_zstd_of_mem member)]
    · exact iff_of_true (laws.same_squeeze_zstd has roomy roomy') (.inl rfl)
  · constructor
    · intro same
      by_contra distinct
      rw [not_or, not_not] at distinct
      obtain ⟨rfl, different⟩ := distinct
      exact twins.not_sameStreams serves accepted different same
    · intro alike trace c trace' c' run run' schedule
      obtain ⟨marked, marked'⟩ :=
        twins.run_together serves accepted run run' schedule
      rcases alike with notGzip | rfl
      · rw [marked', markOs_of_ne notGzip]
      · rw [marked', ← marked]

/-- The Unix build moved to Darwin. -/
abbrev darwinBuild : Build := unixBuild.on (storedDeflater 64 unix_wide 3 19)

theorem deterministic_zlib :
    SameSqueeze (squeeze unixBuild .zlib ⟨0⟩ fiveBytes (.zeros 18 (by decide)))
        (squeeze darwinBuild .zlib ⟨0⟩ fiveBytes (.zeros 20 (by decide))) ∧
      SameStreams unixBuild darwinBuild .zlib ⟨0⟩ := by
  have roomy : bound unixBuild .zlib ⟨0⟩ fiveBytes.size ≤
      (Span.zeros 18 (by decide)).size := by
    decide
  have roomy' : bound darwinBuild .zlib ⟨0⟩ fiveBytes.size ≤
      (Span.zeros 20 (by decide)).size := by
    decide
  obtain ⟨same, streams⟩ :=
    deterministic_iff unixEncoding (storedTwins 64 unix_wide 3 19)
    (by decide) (by decide) roomy roomy'
  exact ⟨same.mpr (.inr (by decide)), streams.mpr (.inl (by decide))⟩

/-- Of gzip the size of the room shows in a squeeze, and the system in a
stream. -/
theorem not_deterministic_gzip :
    unixBuild.Serves .gzip ∧ Accepts .gzip ⟨0⟩ ∧
      bound unixBuild .gzip ⟨0⟩ fiveBytes.size ≤
        (Span.zeros 18 (by decide)).size ∧
      bound darwinBuild .gzip ⟨0⟩ fiveBytes.size ≤
        (Span.zeros 28 (by decide)).size ∧
      ¬ SameSqueeze
        (squeeze unixBuild .gzip ⟨0⟩ fiveBytes (.zeros 18 (by decide)))
        (squeeze darwinBuild .gzip ⟨0⟩ fiveBytes (.zeros 28 (by decide))) ∧
      ¬ SameStreams unixBuild darwinBuild .gzip ⟨0⟩ := by
  refine ⟨by decide, by decide, by decide, by decide, ?_, ?_⟩
  · intro alike
    obtain ⟨same, -⟩ := alike
    revert same
    decide
  · intro same
    let out : Span := .zeros 32 (by decide)
    let reply := (Compressor.of unixBuild .gzip ⟨0⟩).push fiveBytes out
    let reply' := (Compressor.of darwinBuild .gzip ⟨0⟩).push fiveBytes out
    have run : Run Compressor.Step
        (.of unixBuild .gzip ⟨0⟩) [(.push fiveBytes out, reply)] reply.handle :=
      .one ⟨rfl, rfl⟩
    have run' : Run Compressor.Step
        (.of darwinBuild .gzip ⟨0⟩) [(.push fiveBytes out, reply')]
        reply'.handle :=
      .one ⟨rfl, rfl⟩
    have header : written [(Compressor.Request.push fiveBytes out, reply)] =
        written [(Compressor.Request.push fiveBytes out, reply')] :=
      same _ _ _ _ run run' rfl
    revert header
    decide

end Polliwog
