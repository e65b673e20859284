import Polliwog.Streaming.Chunked

/-!
# The round trip of the benchmark

The benchmark writes into one buffer and reads back into one that is exactly as
long as the source: at each push the room is what is left of the buffer, and at
the end there is none.  The loops are those of the tests, but for the room.
-/

namespace Polliwog

open Codec

variable {B : Build}

/-- A round of the reading loop into what is left of one buffer. -/
def fillOnce (chunk : Nat) (buffer : Span) (p : ReadLoop B) :
    Except Error (List UInt8) ⊕ ReadLoop B :=
  readOnce chunk (buffer.subspan p.decompressed.length) p

namespace EngineLaws

variable (laws : EngineLaws B) {f : Format}

/-- The reading loop is along a whole stream, with all delivered that there is.
-/
structure Fills (f : Format) (s : List UInt8) (p : ReadLoop B) : Prop where
  holds : laws.Decompresses f p.d
  opened : laws.status p.d = .opened
  whole : (laws.decoder p.d).read ++ p.left.bytes = s
  delivered : (laws.decoder p.d).delivered = p.decompressed
  caughtUp : p.decompressed = (laws.wire f).content (laws.decoder p.d).read

variable {laws} {s : List UInt8} {chunk : Nat} {buffer : Span} {p : ReadLoop B}

theorem fills_start (serves : B.Serves f) {packed : Span} :
    laws.Fills f packed.bytes ⟨.construct B f, packed, []⟩ := by
  obtain ⟨holds, fresh, opened⟩ := laws.decompresses_construct serves
  refine ⟨holds, opened, ?_, congrArg Dec.delivered fresh, ?_⟩
  · rw [fresh]
    rfl
  · rw [fresh]
    exact (laws.wire f).content_nil.symm

/-- A round pushes the next chunk into room for all that is left to deliver. -/
theorem Fills.reads (fills : laws.Fills f s p) (memory : buffer.isNull = false)
    (roomy : ((laws.wire f).content s).length ≤ buffer.size)
    (buffer_lt : buffer.size < 2 ^ 32) (chunk_lt : chunk < 2 ^ 32) :
    let input := p.left.first chunk
    let out := buffer.subspan p.decompressed.length
    (laws.decoder p.d).read ++ input.bytes <+: s ∧
      ((laws.wire f).content ((laws.decoder p.d).read ++ input.bytes)).length ≤
        (laws.decoder p.d).delivered.length + reach f out.size ∧
      input.shown f = input.bytes ∧
      ∃ taken signal,
      laws.Reads f p.d input out (p.d.push input out) taken signal := by
  let input := p.left.first chunk
  let out := buffer.subspan p.decompressed.length
  have inside : (laws.decoder p.d).read ++ input.bytes <+: s := by
    rw [← fills.whole]
    exact (List.prefix_append_right_inj _).mpr (List.take_prefix _ _)
  have outSize : out.size = buffer.size - p.decompressed.length :=
    Span.size_subspan _ _
  have inputSize : input.size = min chunk p.left.size := List.length_take
  have before : p.decompressed.length ≤ ((laws.wire f).content s).length := by
    rw [fills.caughtUp]
    refine ((laws.wire f).content_mono ?_).length_le
    rw [← fills.whole]
    exact List.prefix_append _ _
  refine ⟨inside, ?_, Span.shown_of_lt f (show input.size < 2 ^ 32 by omega),
    laws.push_reads fills.holds fills.opened input (.inr memory)⟩
  have within := ((laws.wire f).content_mono inside).length_le
  have reached : reach f out.size = out.size := reach_of_lt f (by omega)
  rw [fills.delivered]
  change ((laws.wire f).content
      ((laws.decoder p.d).read ++ input.bytes)).length ≤
    _ + reach f out.size
  omega

/-- A round with more to come takes its whole chunk. -/
theorem Fills.goesOn (fills : laws.Fills f s p) (exact : CountsExact B f)
    (complete : (laws.wire f).Complete s) (memory : buffer.isNull = false)
    (roomy : ((laws.wire f).content s).length ≤ buffer.size)
    (buffer_lt : buffer.size < 2 ^ 32) (chunk_lt : chunk < 2 ^ 32)
    (more : chunk < p.left.size) :
    ∃ next, fillOnce chunk buffer p = .inr next ∧ laws.Fills f s next ∧
      next.left.size + chunk = p.left.size := by
  obtain ⟨inside, fits, shown, taken, signal, reads⟩ :=
    fills.reads memory roomy buffer_lt chunk_lt
  let input := p.left.first chunk
  let out := buffer.subspan p.decompressed.length
  have inputSize : input.size = chunk :=
    (List.length_take).trans (Nat.min_eq_left more.le)
  have strict : (laws.decoder p.d).read ++ input.bytes ≠ s := by
    intro all
    have long := congrArg List.length (all.trans fills.whole.symm)
    rw [List.length_append, List.length_append] at long
    change _ + input.size = _ + p.left.size at long
    omega
  have decoder := reads.decoder
  have advances := reads.advances
  rw [shown] at decoder advances
  obtain ⟨rfl, all, delivered⟩ :=
    decoder.starves (complete.live_of_strict inside strict) fits
  obtain ⟨r, ok, done, counts⟩ := reads.verdict.served (by decide) (by simp)
  obtain ⟨consumed, produced⟩ := counts exact
  have short : r.done = false := by
    cases told : r.done with
    | false => rfl
    | true => exact absurd (done.mp told) (by decide)
  have went : fillOnce chunk buffer p = _ :=
    readOnce_of_ok (Nat.ne_of_gt (Nat.zero_lt_of_lt more)) ok
  rw [short] at went
  have advanced := advances (by decide)
  rw [Dec.Reads.take_all all] at advanced
  have stored :
      (out.overwrite (p.d.push input out).written).take r.bytesProduced =
      (p.d.push input out).written := by
    rw [produced, Span.take_overwrite]
  have took : r.bytesConsumed = chunk := (consumed.trans all).trans inputSize
  refine ⟨_, went, ⟨reads.holds, reads.status (by decide), ?_, ?_, ?_⟩, ?_⟩
  · rw [advanced, took]
    change ((laws.decoder p.d).read ++ p.left.bytes.take chunk) ++
        p.left.bytes.drop chunk = s
    rw [List.append_assoc, List.take_append_drop]
    exact fills.whole
  · rw [advanced]
    change (laws.decoder p.d).delivered ++ _ =
        p.decompressed ++ List.take r.bytesProduced _
    rw [stored, fills.delivered]
  · rw [advanced]
    change p.decompressed ++ List.take r.bytesProduced _ = _
    rw [stored, ← fills.delivered]
    exact delivered
  · rw [took, Span.size_subspan]
    omega

/-- A round on the last chunk is told of the end, with the buffer filled. -/
theorem Fills.returns (fills : laws.Fills f s p) (exact : CountsExact B f)
    (complete : (laws.wire f).Complete s) (memory : buffer.isNull = false)
    (roomy : ((laws.wire f).content s).length ≤ buffer.size)
    (buffer_lt : buffer.size < 2 ^ 32) (chunk_lt : chunk < 2 ^ 32)
    (some : 0 < p.left.size) (last : p.left.size ≤ chunk) :
    fillOnce chunk buffer p = .inl (.ok ((laws.wire f).content s)) := by
  obtain ⟨inside, fits, shown, taken, signal, reads⟩ :=
    fills.reads memory roomy buffer_lt chunk_lt
  let input := p.left.first chunk
  let out := buffer.subspan p.decompressed.length
  have inputBytes : input.bytes = p.left.bytes := List.take_of_length_le last
  have whole : (laws.decoder p.d).read ++ input.bytes = s := by
    rw [inputBytes]
    exact fills.whole
  have decoder := reads.decoder
  rw [shown] at decoder
  rw [whole] at fits
  obtain ⟨rfl, -, -⟩ := decoder.ends complete (whole ▸ List.prefix_rfl) fits
  obtain ⟨all, -, delivered⟩ := decoder.done_inside rfl complete inside
  have notExtra : ¬ (Signal.done = .done ∧ f = .zstd ∧ taken < input.size) :=
    fun extra => extra.2.2.ne all
  obtain ⟨r, ok, done, counts⟩ := reads.verdict.served (by decide) notExtra
  obtain ⟨-, produced⟩ := counts exact
  have stored :
      (out.overwrite (p.d.push input out).written).take r.bytesProduced =
      (p.d.push input out).written := by
    rw [produced, Span.take_overwrite]
  have returned : fillOnce chunk buffer p = _ := readOnce_of_ok some.ne' ok
  rw [done.mpr rfl, stored, ← fills.delivered, delivered] at returned
  exact returned

theorem fills_back (exact : CountsExact B f) (serves : B.Serves f)
    {packed : Span} (complete : (laws.wire f).Complete packed.bytes)
    (memory : buffer.isNull = false)
    (roomy : ((laws.wire f).content packed.bytes).length ≤ buffer.size)
    (buffer_lt : buffer.size < 2 ^ 32) (chunk_pos : 0 < chunk)
    (chunk_lt : chunk < 2 ^ 32) (fuel : Nat) :
    loop (fillOnce chunk buffer) fuel ⟨.construct B f, packed, []⟩ =
      if chunks packed.size chunk ≤ fuel
        then some (.ok ((laws.wire f).content packed.bytes))
      else none := by
  have nonempty : 0 < packed.size := by
    apply List.length_pos_iff.mpr
    intro nothing
    rw [nothing] at complete
    exact (laws.wire f).not_complete_nil complete
  exact loop_by_chunks (laws.Fills f packed.bytes)
    (fun p => p.left.size) chunk_pos
    (fun fills more => fills.goesOn exact complete memory roomy buffer_lt
      chunk_lt more)
    (fun fills some last =>
      fills.returns exact complete memory roomy buffer_lt chunk_lt some last)
    (fills_start serves) nonempty fuel

end EngineLaws

/-- Into one buffer that has room for its content, the reading loop returns all
of any whole stream after exactly as many rounds as the stream has chunks: the
end is told by the push of the last, even if no room is left by then. -/
theorem filling_loop_returns (laws : EngineLaws B) {f : Format}
    (exact : CountsExact B f) (serves : B.Serves f) {packed buffer : Span}
    {chunk : Nat} (complete : (laws.wire f).Complete packed.bytes)
    (memory : buffer.isNull = false)
    (roomy : ((laws.wire f).content packed.bytes).length ≤ buffer.size)
    (buffer_lt : buffer.size < 2 ^ 32) (chunk_pos : 0 < chunk)
    (chunk_lt : chunk < 2 ^ 32) :
    (∀ fuel < chunks packed.size chunk,
        loop (fillOnce chunk buffer) fuel ⟨.construct B f, packed, []⟩ = none) ∧
      ∀ fuel ≥ chunks packed.size chunk,
        loop (fillOnce chunk buffer) fuel ⟨.construct B f, packed, []⟩ =
          some (.ok ((laws.wire f).content packed.bytes)) := by
  have rounds :=
    EngineLaws.fills_back exact serves complete memory roomy buffer_lt chunk_pos
    chunk_lt
  constructor
  · intro fuel fewer
    rw [rounds, if_neg (Nat.not_le.mpr fewer)]
  · intro fuel enough
    rw [rounds, if_pos enough]

theorem filling_loop_returns_five :
    loop (fillOnce 4 fiveSink) 3 ⟨.construct unixBuild .rawDeflate,
      fiveRaw, []⟩ = some (.ok fiveBytes.bytes) := by
  have complete : (unixLaws.wire .rawDeflate).Complete fiveRaw.bytes :=
    unixLaws.complete_packed (by decide) (by decide)
  have content : (unixLaws.wire .rawDeflate).content fiveRaw.bytes =
      fiveBytes.bytes :=
    unixLaws.content_packed (by decide) (by decide)
  have roomy : ((unixLaws.wire .rawDeflate).content fiveRaw.bytes).length ≤
      fiveSink.size := by
    rw [content]
    decide
  have chunk : 0 < 4 ∧ 4 < 2 ^ 32 := by decide
  have enough : 3 ≥ chunks fiveRaw.size 4 := by decide
  rw [← content]
  exact (filling_loop_returns unixLaws (.inr rfl)
    (by decide) complete rfl roomy (by decide) chunk.1 chunk.2).2 3 enough

end Polliwog
