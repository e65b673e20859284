import Polliwog.Codec.Drain
import Polliwog.Codec.Loop
import Polliwog.Streaming.Pipe
import Polliwog.Streaming.RoundTrip

/-!
# The round trip of the tests

The tests push a source in chunks of one size, finish, and push what came out in
chunks of that size again.  The writing loop goes on by whole chunks, whatever a
push reports; the reading loop goes on by the report, and returns when its input
is used up or it is told of the end.
-/

namespace Polliwog

open Codec

variable {B : Build}

/-- The writing loop before a round: `left` is the source from `off` on. -/
structure WriteLoop (B : Build) where
  c : Compressor B
  left : Span
  compressed : List UInt8

namespace WriteLoop

/-- The loop after a push that returned `r`. -/
def next (chunk : Nat) (cbuf : Span) (w : WriteLoop B) (r : StreamResult) :
    WriteLoop B :=
  let reply := w.c.push (w.left.first chunk) cbuf
  { c := reply.handle
    left := w.left.subspan chunk
    compressed :=
      w.compressed ++ (cbuf.overwrite reply.written).take r.bytesProduced }

/-- A round of the writing loop. -/
inductive Step (chunk : Nat) (cbuf : Span) :
    WriteLoop B → Span → StreamResult → WriteLoop B → Prop where
  | push {w : WriteLoop B} {r : StreamResult} :
      0 < w.left.size → (w.c.push (w.left.first chunk) cbuf).result = .ok r →
      Step chunk cbuf w (w.left.first chunk) r (w.next chunk cbuf r)

end WriteLoop

/-- The reading loop before a round: `left` is the input from `coff` on. -/
structure ReadLoop (B : Build) where
  d : Decompressor B
  left : Span
  decompressed : List UInt8

/-- A round of the reading loop. -/
def readOnce (chunk : Nat) (dbuf : Span) (p : ReadLoop B) :
    Except Error (List UInt8) ⊕ ReadLoop B :=
  if p.left.size = 0 then .inl (.ok p.decompressed)
  else
    let reply := p.d.push (p.left.first chunk) dbuf
    match reply.result with
    | .error e => .inl (.error e)
    | .ok r =>
        let decompressed :=
          p.decompressed ++ (dbuf.overwrite reply.written).take r.bytesProduced
        if r.done then .inl (.ok decompressed)
        else
          .inr
            { d := reply.handle
              left := p.left.subspan r.bytesConsumed
              decompressed := decompressed }

theorem readOnce_of_ok {chunk : Nat} {dbuf : Span} {p : ReadLoop B}
    {r : StreamResult} (nonempty : p.left.size ≠ 0)
    (ok : (p.d.push (p.left.first chunk) dbuf).result = .ok r) :
    readOnce chunk dbuf p =
      if r.done then
        .inl (.ok (p.decompressed ++
          (dbuf.overwrite (p.d.push (p.left.first chunk) dbuf).written).take
            r.bytesProduced))
      else
        .inr
          { d := (p.d.push (p.left.first chunk) dbuf).handle
            left := p.left.subspan r.bytesConsumed
            decompressed := p.decompressed ++
              (dbuf.overwrite (p.d.push (p.left.first chunk) dbuf).written).take
                r.bytesProduced } := by
  simp only [readOnce, nonempty, ↓reduceIte, ok]

namespace EngineLaws

variable (laws : EngineLaws B) {f : Format}

theorem push_trailer (trailer : InflateTrailerLaws laws.inflate)
    (checked : f = .zlib ∨ f = .gzip) {d : Decompressor B}
    (holds : laws.Decompresses f d) (opened : laws.status d = .opened)
    {input out : Span} (notNull : out.isNull = false) {r : StreamResult}
    (ok : (d.push input out).result = .ok r) (goesOn : r.done = false) :
    ¬ (laws.wire f).Complete (laws.decoder (d.push input out).handle).read := by
  obtain ⟨handle⟩ := d
  cases handle with
  | zlibStubSweller => exact holds.elim
  | zstdStubSweller => exact holds.elim
  | zstdSweller h =>
      have isZstd : f = .zstd := holds
      subst isZstd
      simp at checked
  | zlibSweller h =>
      obtain ⟨member, container⟩ := holds
      let loaded := h.stream.load input out
      have verdict := laws.inflate.push_verdict member h input out
      obtain ⟨notBad, done, -⟩ := verdict.of_ok ok
      have isMore : (B.zlib.inflate loaded .noFlush).ret.signal = .more := by
        cases signal : (B.zlib.inflate loaded .noFlush).ret.signal with
        | more => rfl
        | bad => exact absurd signal notBad
        | done =>
            have told := done.mpr signal
            rw [goesOn] at told
            cases told
      have sameContainer : laws.inflate.container loaded.state = f := container
      have unread :=
        trailer.trailer loaded .noFlush notNull opened
          (sameContainer.symm ▸ checked)
        isMore
      have advanced :=
        (laws.inflate.advances loaded .noFlush notNull opened notBad).1
      rw [sameContainer] at unread
      have read :
          (laws.decoder
            ((⟨.zlibSweller h⟩ : Decompressor B).push input out).handle).read =
          (laws.inflate.view loaded.state).read ++
            loaded.offered.take (B.zlib.inflate loaded .noFlush).taken :=
        congrArg Dec.read advanced
      rw [read]
      exact unread

/-- The reading loop cannot use up a whole stream without being told of its end:
the stream goes on after its content, or each push has room for all of it. -/
def EndShows (f : Format) (s : List UInt8) (dbuf : Span) : Prop :=
  f = .zlib ∨ f = .gzip ∨ ((laws.wire f).content s).length ≤ dbuf.size

/-- Where the reading loop is along a whole stream. -/
structure ReadsAlong (f : Format) (s : List UInt8) (dbuf : Span)
    (p : ReadLoop B) :
    Prop where
  holds : laws.Decompresses f p.d
  opened : laws.status p.d = .opened
  whole : (laws.decoder p.d).read ++ p.left.bytes = s
  delivered : (laws.decoder p.d).delivered = p.decompressed
  isOpen : (laws.decoder p.d).Open (laws.wire f)
  unread : laws.EndShows f s dbuf →
    ¬ (laws.wire f).Complete (laws.decoder p.d).read

/-- What is left to take and to deliver. -/
def toRead (f : Format) (s : List UInt8) (p : ReadLoop B) : Nat :=
  p.left.size + (((laws.wire f).content s).length - p.decompressed.length)

/-- What the reading loop is to return for a stream. -/
structure ReadsBack (f : Format) (s : List UInt8) (dbuf : Span)
    (kept : List UInt8) :
    Prop where
  faithful : kept <+: (laws.wire f).content s
  whole : laws.EndShows f s dbuf → kept = (laws.wire f).content s

variable {laws} {s : List UInt8} {chunk : Nat} {dbuf : Span}
  {p next : ReadLoop B}

theorem readsAlong_start (serves : B.Serves f) {packed : Span} :
    laws.ReadsAlong f packed.bytes dbuf ⟨.construct B f, packed, []⟩ := by
  obtain ⟨holds, fresh, opened⟩ := laws.decompresses_construct serves
  have isOpen := Dec.open_fresh (laws.wire f)
  rw [← fresh] at isOpen
  refine ⟨holds, opened, ?_, congrArg Dec.delivered fresh, isOpen, ?_⟩
  · rw [fresh]
    rfl
  · intro _
    rw [fresh]
    exact (laws.wire f).not_complete_nil

theorem ReadsAlong.exhausted (along : laws.ReadsAlong f s dbuf p)
    (complete : (laws.wire f).Complete s) (isEmpty : p.left.bytes = []) :
    laws.ReadsBack f s dbuf p.decompressed := by
  have read : (laws.decoder p.d).read = s := by
    have whole := along.whole
    rwa [isEmpty, List.append_nil] at whole
  have faithful := along.isOpen.faithful
  rw [along.delivered, read] at faithful
  refine ⟨faithful, ?_⟩
  intro shows
  have unread := along.unread shows
  rw [read] at unread
  exact absurd complete unread

/-- A round on a whole stream returns all of its content, or goes on with less
to take or less to deliver. -/
theorem ReadsAlong.round (along : laws.ReadsAlong f s dbuf p)
    (exact : CountsExact B f) (trailer : InflateTrailerLaws laws.inflate)
    (complete : (laws.wire f).Complete s) (chunk_pos : 0 < chunk)
    (chunk_lt : chunk < 2 ^ 32) (dbuf_pos : 0 < dbuf.size)
    (dbuf_lt : dbuf.size < 2 ^ 32) :
    (∃ kept, readOnce chunk dbuf p = .inl (.ok kept) ∧
      laws.ReadsBack f s dbuf kept) ∨
      ∃ next, readOnce chunk dbuf p = .inr next ∧
      laws.ReadsAlong f s dbuf next ∧
        laws.toRead f s next < laws.toRead f s p := by
  by_cases nothing : p.left.size = 0
  · left
    have isEmpty : p.left.bytes = [] := List.length_eq_zero_iff.mp nothing
    exact ⟨_, if_pos nothing, along.exhausted complete isEmpty⟩
  let input := p.left.first chunk
  have front : input.bytes <+: p.left.bytes := List.take_prefix _ _
  have inside : (laws.decoder p.d).read ++ input.bytes <+: s := by
    rw [← along.whole]
    exact (List.prefix_append_right_inj _).mpr front
  have size : input.size = min chunk p.left.size := List.length_take
  have offers : input.bytes ≠ [] := by
    apply List.length_pos_iff.mp
    change 0 < input.size
    omega
  have notNull : dbuf.isNull = false := Span.notNull_of_size_pos dbuf_pos
  obtain ⟨taken, signal, r, reads, next, notBad, ok, done, consumed,
      produced⟩ :=
    laws.push_inside exact complete along.holds along.opened inside
      (by omega) dbuf_pos dbuf_lt
  subst consumed
  obtain ⟨kept, status, decoder⟩ := next notBad
  have stored :
      (dbuf.overwrite (p.d.push input dbuf).written).take r.bytesProduced =
      (p.d.push input dbuf).written := by
    rw [produced, Span.take_overwrite]
  have round := readOnce_of_ok nothing ok
  rw [stored] at round
  cases isDone : r.done with
  | true =>
      left
      rw [isDone] at round
      obtain ⟨-, -, all⟩ := reads.done_inside (done.mp isDone) complete inside
      rw [along.delivered] at all
      refine ⟨(laws.wire f).content s, ?_, List.prefix_rfl, fun _ => rfl⟩
      rw [← all]
      exact round
  | false =>
      right
      rw [isDone] at round
      have isMore : signal = .more := by
        cases signal with
        | more => rfl
        | bad => exact absurd rfl notBad
        | done =>
            have told := done.mpr rfl
            rw [isDone] at told
            cases told
      subst isMore
      have isOpen := reads.more rfl
      have moved := reads.progress rfl offers dbuf_pos
      have shown : input.bytes.take r.bytesConsumed =
          p.left.bytes.take r.bytesConsumed :=
        Carries.take_front front reads.taken_le
      have whole :
          ((laws.decoder p.d).read ++ input.bytes.take r.bytesConsumed) ++
          p.left.bytes.drop r.bytesConsumed = s := by
        rw [shown, List.append_assoc, List.take_append_drop]
        exact along.whole
      have delivered : p.decompressed ++ (p.d.push input dbuf).written <+:
          (laws.wire f).content s := by
        rw [← along.delivered]
        refine isOpen.faithful.trans ((laws.wire f).content_mono ?_)
        exact (Dec.Reads.read_take_isPrefix _ _ _).trans inside
      refine ⟨_, round, ⟨kept, status, ?_, ?_, ?_, ?_⟩, ?_⟩
      · rw [decoder]
        exact whole
      · rw [decoder, ← along.delivered]
        rfl
      · rw [decoder]
        exact isOpen
      · intro shows
        rcases or_assoc.mpr shows with checked | roomy
        · exact laws.push_trailer trailer checked along.holds along.opened
            notNull ok isDone
        · rw [decoder]
          exact reads.not_complete rfl complete inside
            (roomy.trans (Nat.le_add_left _ _))
      · have within := delivered.length_le
        have takenLe := reads.taken_le
        change r.bytesConsumed ≤ input.size at takenLe
        simp only [List.length_append] at within
        simp only [toRead, Span.size_subspan, List.length_append]
        omega

theorem reads_back (exact : CountsExact B f)
    (trailer : InflateTrailerLaws laws.inflate) (serves : B.Serves f)
    {packed : Span} (complete : (laws.wire f).Complete packed.bytes)
    (chunk_pos : 0 < chunk) (chunk_lt : chunk < 2 ^ 32)
    (dbuf_pos : 0 < dbuf.size) (dbuf_lt : dbuf.size < 2 ^ 32) :
    ∃ fuel kept, loop (readOnce chunk dbuf) fuel ⟨.construct B f, packed, []⟩ =
      some (.ok kept) ∧ laws.ReadsBack f packed.bytes dbuf kept := by
  let Inv (p : ReadLoop B) : Prop := laws.ReadsAlong f packed.bytes dbuf p
  have round {p : ReadLoop B} (along : Inv p) :=
    ReadsAlong.round along exact trailer complete chunk_pos
    chunk_lt dbuf_pos dbuf_lt
  have start : Inv ⟨.construct B f, packed, []⟩ := readsAlong_start serves
  have goesOn {p next : ReadLoop B} (along : Inv p)
      (went : readOnce chunk dbuf p = .inr next) :
      Inv next ∧ laws.toRead f packed.bytes next <
        laws.toRead f packed.bytes p := by
    rcases round along with ⟨kept, returned, -⟩ | ⟨next', went', still, less⟩
    · rw [returned] at went
      cases went
    · rw [went'] at went
      cases went
      exact ⟨still, less⟩
  obtain ⟨fuel, ends⟩ := loop_ends Inv (laws.toRead f packed.bytes) (fun _ => 0)
    (fun along went => ⟨(goesOn along went).1,
      .inl (goesOn along went).2⟩) start
  obtain ⟨result, returned⟩ := Option.isSome_iff_exists.mp ends
  have back : ∃ kept, result = .ok kept ∧
      laws.ReadsBack f packed.bytes dbuf kept := by
    refine loop_result Inv (fun result => ∃ kept, result = .ok kept ∧
      laws.ReadsBack f packed.bytes dbuf kept) (fun along went =>
        (goesOn along went).1) ?_ start returned
    intro p result along returned
    rcases round along with ⟨kept, returned', back⟩ | ⟨next, went, -⟩
    · rw [returned'] at returned
      cases returned
      exact ⟨kept, rfl, back⟩
    · rw [went] at returned
      cases returned
  obtain ⟨kept, rfl, back⟩ := back
  exact ⟨fuel, kept, returned, back⟩

variable (laws)

/-- Where the writing loop is along the source. -/
structure WritesAlong (f : Format) (source : List UInt8)
    (past : List (Span × StreamResult)) (w : WriteLoop B) : Prop where
  compresses : laws.Compresses f w.c
  writing : laws.Writing w.c
  absorbed : (laws.encoder w.c).source =
    past.flatMap fun entry => entry.1.bytes.take entry.2.bytesConsumed
  emitted : (laws.encoder w.c).output = w.compressed
  offered : (past.flatMap fun entry => entry.1.bytes) ++ w.left.bytes = source

variable {laws} {cbuf : Span} {w w' : WriteLoop B}
  {past trace : List (Span × StreamResult)}

theorem writesAlong_start {lvl : ZlibLevel} (serves : B.Serves f)
    (accepted : Accepts f lvl) (src : Span) :
    laws.WritesAlong f src.bytes [] ⟨.of B f lvl, src, []⟩ := by
  obtain ⟨compresses, source, output, writing⟩ :=
    laws.compresses_of lvl serves accepted
  exact ⟨compresses, writing, source, output, rfl⟩

theorem WritesAlong.push {source : List UInt8} {input : Span} {r : StreamResult}
    (along : laws.WritesAlong f source past w) (exact : CountsExact B f)
    (step : WriteLoop.Step chunk cbuf w input r w') :
    laws.WritesAlong f source (past ++ [(input, r)]) w' := by
  cases step with
  | push _ ok =>
      have returned : w.c.call (.push (w.left.first chunk) cbuf) =
          some (w.c.push (w.left.first chunk) cbuf) := rfl
      obtain ⟨kept, still, idle | ⟨r', books⟩⟩ :=
        EncodingLaws.call_books exact along.compresses along.writing.1
          (fun _ => along.writing) returned
      · obtain ⟨e, failed⟩ := idle.failed
        rw [ok] at failed
        cases failed
      · have same : r = r' := Except.ok.inj (ok.symm.trans books.result)
        subst same
        refine ⟨kept, still rfl, ?_, ?_, ?_⟩
        · rw [List.flatMap_append, List.flatMap_singleton, ← along.absorbed]
          exact books.source
        · rw [WriteLoop.next, ← along.emitted]
          exact books.output
        · rw [List.flatMap_append, List.flatMap_singleton, List.append_assoc]
          change _ ++ (w.left.bytes.take chunk ++ w.left.bytes.drop chunk) =
              source
          rw [List.take_append_drop]
          exact along.offered

theorem writesAlong_of_run {lvl : ZlibLevel} (exact : CountsExact B f)
    (serves : B.Serves f) (accepted : Accepts f lvl) {src : Span}
    (run : Run (WriteLoop.Step chunk cbuf) ⟨.of B f lvl, src, []⟩ trace w) :
    laws.WritesAlong f src.bytes trace w :=
  run.history (laws.WritesAlong f src.bytes)
    (fun along step => along.push exact step)
    (writesAlong_start serves accepted src)

/-- A finish that left room ends the stream of what was absorbed. -/
theorem WritesAlong.finished {source : List UInt8} {r : StreamResult}
    {reply : Reply (Compressor B) StreamResult}
    (along : laws.WritesAlong f source past w) (exact : CountsExact B f)
    (returned : w.c.finish cbuf = some reply) (ok : reply.result = .ok r)
    (roomLeft : r.bytesProduced < reach f cbuf.size) :
    let packed :=
      w.compressed ++ (cbuf.overwrite reply.written).take r.bytesProduced
    (laws.wire f).Complete packed ∧
      (laws.wire f).content packed =
        past.flatMap fun entry => entry.1.bytes.take entry.2.bytesConsumed := by
  have ended :=
    EncodingLaws.finish_slack exact along.compresses along.writing.1 returned
      ok roomLeft
  have called : w.c.call (.finish cbuf) = some reply := returned
  obtain ⟨kept, -, idle | ⟨r', books⟩⟩ :=
    EncodingLaws.call_books exact along.compresses along.writing.1
      (fun _ => along.writing) called
  · obtain ⟨e, failed⟩ := idle.failed
    rw [ok] at failed
    cases failed
  · have same : r = r' := Except.ok.inj (ok.symm.trans books.result)
    subst same
    have nothing : (Span.empty.bytes).take r.bytesConsumed = [] := List.take_nil
    have whole := kept.sound.ended ended
    rw [books.output, books.source, along.emitted, along.absorbed] at whole
    change _ ∧ _ = _ ++ (Span.empty.bytes).take r.bytesConsumed at whole
    rw [nothing, List.append_nil] at whole
    exact whole

end EngineLaws

/-- The reading loop returns on every whole stream, and never fails on one.
What it returns is the front of the content, and all of it unless the content
outlasts the stream. -/
theorem reading_loop_returns (laws : EngineLaws B) {f : Format}
    (exact : CountsExact B f) (trailer : InflateTrailerLaws laws.inflate)
    (serves : B.Serves f) {packed dbuf : Span} {chunk : Nat}
    (complete : (laws.wire f).Complete packed.bytes) (chunk_pos : 0 < chunk)
    (chunk_lt : chunk < 2 ^ 32) (dbuf_pos : 0 < dbuf.size)
    (dbuf_lt : dbuf.size < 2 ^ 32) :
    ∃ fuel kept, loop (readOnce chunk dbuf) fuel ⟨.construct B f, packed, []⟩ =
      some (.ok kept) ∧ kept <+: (laws.wire f).content packed.bytes ∧
      (laws.EndShows f packed.bytes dbuf →
        kept = (laws.wire f).content packed.bytes) := by
  obtain ⟨fuel, kept, returned, back⟩ :=
    EngineLaws.reads_back exact trailer serves complete
    chunk_pos chunk_lt dbuf_pos dbuf_lt
  exact ⟨fuel, kept, returned, back.faithful, back.whole⟩

/-- A raw deflate stream of five bytes. -/
def fiveRaw : Span :=
  .ofBytes (unixLaws.packed .rawDeflate ⟨8⟩ fiveBytes) (by decide)

theorem reading_loop_returns_five :
    ∃ fuel, loop (readOnce 4 fiveSink) fuel ⟨.construct unixBuild .rawDeflate,
      fiveRaw, []⟩ = some (.ok fiveBytes.bytes) := by
  have complete : (unixLaws.wire .rawDeflate).Complete fiveRaw.bytes :=
    unixLaws.complete_packed (by decide) (by decide)
  have content : (unixLaws.wire .rawDeflate).content fiveRaw.bytes =
      fiveBytes.bytes :=
    unixLaws.content_packed (by decide) (by decide)
  have chunk : 0 < 4 ∧ 4 < 2 ^ 32 := by decide
  have sink : 0 < fiveSink.size ∧ fiveSink.size < 2 ^ 32 := by decide
  obtain ⟨fuel, kept, returned, -, whole⟩ :=
    reading_loop_returns unixLaws (.inr rfl) (storedTrailer 64 unix_wide 3)
      (by decide) complete chunk.1 chunk.2 sink.1 sink.2
  have roomy : ((unixLaws.wire .rawDeflate).content fiveRaw.bytes).length ≤
      fiveSink.size := by
    rw [content]
    decide
  rw [whole (.inr (.inr roomy)), content] at returned
  exact ⟨fuel, returned⟩

/-- The round trip of the tests returns, and gives the source back exactly when
every push of the writing loop consumed the whole of its chunk. -/
theorem chunked_round_trip (laws : EngineLaws B) {f : Format} {lvl : ZlibLevel}
    (exact : CountsExact B f) (trailer : InflateTrailerLaws laws.inflate)
    (serves : B.Serves f) (accepted : Accepts f lvl)
    {src cbuf dbuf packed : Span} {chunk : Nat}
    {trace : List (Span × StreamResult)} {w : WriteLoop B}
    (run : Run (WriteLoop.Step chunk cbuf) ⟨.of B f lvl, src, []⟩ trace w)
    (usedUp : w.left.size = 0) {reply : Reply (Compressor B) StreamResult}
    {r : StreamResult} (finished : w.c.finish cbuf = some reply)
    (ok : reply.result = .ok r) (roomLeft : r.bytesProduced < reach f cbuf.size)
    (packing : packed.bytes =
      w.compressed ++ (cbuf.overwrite reply.written).take r.bytesProduced)
    (chunk_pos : 0 < chunk) (chunk_lt : chunk < 2 ^ 32)
    (dbuf_pos : 0 < dbuf.size) (dbuf_lt : dbuf.size < 2 ^ 32)
    (shows : f = .zlib ∨ f = .gzip ∨ src.size ≤ dbuf.size) :
    ∃ fuel back, loop (readOnce chunk dbuf) fuel ⟨.construct B f, packed, []⟩ =
      some (.ok back) ∧
      (back = src.bytes ↔ ∀ entry ∈ trace,
        entry.1.size ≤ entry.2.bytesConsumed) := by
  have along : laws.WritesAlong f src.bytes trace w :=
    EngineLaws.writesAlong_of_run exact serves accepted run
  obtain ⟨complete, content⟩ := along.finished exact finished ok roomLeft
  rw [← packing] at complete content
  have nothing : w.left.bytes = [] := List.length_eq_zero_iff.mp usedUp
  have source := along.offered
  rw [nothing, List.append_nil] at source
  have shown : laws.EndShows f packed.bytes dbuf := by
    refine shows.imp_right (Or.imp_right ?_)
    intro roomy
    have short :=
      length_flatMap_take_le (fun entry : Span × StreamResult => entry.1.bytes)
      (fun entry => entry.2.bytesConsumed) trace
    rw [source, ← content] at short
    exact short.trans roomy
  obtain ⟨fuel, back, returned, readsBack⟩ :=
    EngineLaws.reads_back exact trailer serves complete
    chunk_pos chunk_lt dbuf_pos dbuf_lt
  refine ⟨fuel, back, returned, ?_⟩
  rw [readsBack.whole shown, content, ← source]
  exact flatMap_take_eq_iff _ _ trace

/-- Room for a small stream in one piece. -/
def chunkRoom : Span := .zeros 44 (by decide)

/-- The writing loop after five bytes, two at a time. -/
def fiveWritten : WriteLoop unixBuild :=
  let start : WriteLoop unixBuild := ⟨.of unixBuild .gzip ⟨0⟩, fiveBytes, []⟩
  let first := start.next 2 chunkRoom ⟨2, 10, false⟩
  let second := first.next 2 chunkRoom ⟨2, 0, false⟩
  second.next 2 chunkRoom ⟨1, 0, false⟩

/-- What the writing loop and a finish made of five bytes. -/
def fiveChunked : Span :=
  .ofBytes (fiveWritten.compressed ++
    (((fiveWritten.c.finish chunkRoom).get (by decide)).written)) (by decide)

theorem chunked_round_trip_five :
    ∃ fuel, loop (readOnce 2 (.zeros 3 (by decide))) fuel
      ⟨.construct unixBuild .gzip, fiveChunked, []⟩ =
        some (.ok fiveBytes.bytes) := by
  have run : Run (WriteLoop.Step 2 chunkRoom) ⟨.of unixBuild .gzip ⟨0⟩,
      fiveBytes, []⟩ _ fiveWritten :=
    .cons (.push (by decide) (by decide)) (.cons (.push (by decide) (by decide))
      (.one (.push (by decide) (by decide))))
  have ok : ((fiveWritten.c.finish chunkRoom).get (by decide)).result =
      .ok { bytesConsumed := 0, bytesProduced := 18, done := true } := by
    decide
  have packing : fiveChunked.bytes = fiveWritten.compressed ++
      (chunkRoom.overwrite ((fiveWritten.c.finish chunkRoom).get
        (by decide)).written).take 18 := by
    decide +kernel
  have small : 0 < (Span.zeros 3 (by decide)).size ∧
      (Span.zeros 3 (by decide)).size < 2 ^ 32 := by
    decide
  obtain ⟨fuel, back, returned, same⟩ :=
    chunked_round_trip unixLaws (.inr rfl) (storedTrailer 64 unix_wide 3)
      (by decide) (by decide)
      run (by decide) (by rfl) ok (by decide) packing (by decide)
        (by decide) small.1 small.2
      (.inr (.inl rfl))
  have whole : back = fiveBytes.bytes := same.mpr (by decide +kernel)
  exact ⟨fuel, whole ▸ returned⟩

end Polliwog
