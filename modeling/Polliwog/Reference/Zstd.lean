import Polliwog.Engine.ZstdLaws
import Polliwog.Reference.Raw

/-!
# A zstd that does not compress

The entry points of zstd over raw frames, and the laws they keep.  On short
inputs that do not compress this is what zstd does.
-/

namespace Polliwog

open Codec

namespace RawZstd

/-- An error code as a size. -/
def errorCode (code : Nat) : Nat := 2 ^ 64 - code

def isError (ret : Nat) : Bool := 2 ^ 64 - 120 < ret

def getErrorName (ret : Nat) : String :=
  if ret = errorCode 20 then "Data corruption detected"
  else if ret = errorCode 60
    then "Operation not authorized at current processing stage"
  else if ret = errorCode 70 then "Destination buffer is too small"
  else if ret = errorCode 72 then "Src size is incorrect"
  else "No error detected"

/-- `ZSTD_compressBound`, with `ZSTD_MAX_INPUT_SIZE`. -/
def compressBound (n : Nat) : Nat :=
  if 0xff00ff00ff00ff00 ≤ n then errorCode 72 else frameBound n

def compress (cap : Nat) (src : List UInt8) (_lvl : Int) : ZstdCall :=
  if (frame src).length ≤ cap ∧ isError (frame src).length = false then
    { ret := (frame src).length, written := frame src }
  else { ret := errorCode 70, written := [] }

structure CCtx where
  level : Int
  buffer : Buffer rawFraming

/-- What the next call works on: after the end of a frame, a new one. -/
def CCtx.current (ctx : CCtx) : Buffer rawFraming :=
  if ctx.buffer.view.rest = [] then .fresh rawFraming else ctx.buffer

/-- Take in what is offered, then commit to what the directive asks for. -/
def prepare (buffer : Buffer rawFraming) (offered : List UInt8)
    (op : EndDirective) :
    Buffer rawFraming :=
  let absorbed := if offered = [] then buffer else buffer.absorb offered
  match op with
  | .continue_ => absorbed
  | .flush => absorbed.sync
  | .end_ => absorbed.close

/-- Only a flush or an end hands anything out. -/
def handOut (output : OutBuffer) : EndDirective → Nat
  | .continue_ => 0
  | .flush | .end_ => output.room

/-- How much is left to do, within what a size can tell. -/
def remaining (buffer : Buffer rawFraming) : EndDirective → Nat
  | .continue_ => maxBlock
  | .flush => min (buffer.ready.length - buffer.emitted) maxBlock
  | .end_ => min buffer.view.rest.length maxBlock

/-- While a frame is being ended nothing else is in order. -/
def Refuses (ctx : CCtx) (op : EndDirective) : Prop :=
  ctx.current.closing = true ∧ op ≠ .end_

instance (ctx : CCtx) (op : EndDirective) : Decidable (Refuses ctx op) :=
  inferInstanceAs (Decidable (_ ∧ _))

def compressStream2 (ctx : CCtx) (output : OutBuffer) (input : InBuffer)
    (op : EndDirective) :
    ZstdStreamCall CCtx :=
  if Refuses ctx op then
    { ret := errorCode 60, ctx := ctx, input := input, output := output,
      written := [] }
  else
    let buffer := prepare ctx.current input.offered op
    let written := buffer.written (handOut output op)
    let next := buffer.emit (handOut output op)
    { ret := remaining next op
      ctx := { ctx with buffer := next }
      input := { input with pos := input.pos + input.offered.length }
      output := { output with pos := output.pos + written.length }
      written := written }

/-- Frame after frame, `total` having been decoded before. -/
def decompressFrames : (fuel room : Nat) → (src total : List UInt8) → ZstdCall
  | 0, _, _, total => { ret := errorCode 72, written := total }
  | fuel + 1, room, src, total =>
      if src = [] then { ret := total.length, written := total }
      else
        let drive := rawGrammar.machine.drive rawGrammar.machine.start src room
        match Grammar.signal drive.state with
        | .done =>
            decompressFrames fuel (room - drive.written.length)
              (src.drop drive.taken) (total ++ drive.written)
        | .bad => { ret := errorCode 20, written := total ++ drive.written }
        | .more =>
            { ret :=
                if drive.taken = src.length then errorCode 72 else errorCode 70
              written := total ++ drive.written }

def decompress (cap : Nat) (src : List UInt8) : ZstdCall :=
  decompressFrames (src.length + 1) cap src []

/-- All that has been read of the frame at hand. -/
structure DCtx where
  read : List UInt8

def DCtx.signal (ctx : DCtx) : Signal :=
  Grammar.signal (rawGrammar.machine.state rawGrammar.machine.start ctx.read)

/-- What the next call reads on from: after the end of a frame, a new one. -/
def DCtx.current (ctx : DCtx) : List UInt8 :=
  if ctx.signal = .done then [] else ctx.read

/-- The drive behind a decoding call. -/
def drive (ctx : DCtx) (output : OutBuffer) (input : InBuffer) :
    Serial.Drive UInt8 (Grammar.State UInt8 FramePart) :=
  rawGrammar.machine.drive
    (rawGrammar.machine.state rawGrammar.machine.start ctx.current)
    input.offered output.room

def decompressStream (ctx : DCtx) (output : OutBuffer) (input : InBuffer) :
    ZstdStreamCall DCtx :=
  let drive := drive ctx output input
  { ret :=
      match Grammar.signal drive.state with
      | .done => 0
      | .bad => errorCode 20
      | .more => maxBlock
    ctx := { read := ctx.current ++ input.offered.take drive.taken }
    input := { input with pos := input.pos + drive.taken }
    output := { output with pos := output.pos + drive.written.length }
    written := drive.written }

end RawZstd

def rawZstd : Zstd where
  CCtx := RawZstd.CCtx
  DCtx := RawZstd.DCtx
  isError := RawZstd.isError
  getErrorName := RawZstd.getErrorName
  minCLevel := -131072
  maxCLevel := 22
  compressBound := RawZstd.compressBound
  createCCtx := { level := 3, buffer := .fresh rawFraming }
  setCompressionLevel ctx lvl := { ctx with level := lvl }
  compress := RawZstd.compress
  compressStream2 := RawZstd.compressStream2
  createDCtx := { read := [] }
  decompress := RawZstd.decompress
  decompressStream := RawZstd.decompressStream

namespace RawZstd

theorem isError_errorCode {code : Nat} (known : code < 120) :
    isError (errorCode code) = true := by
  apply decide_eq_true
  unfold errorCode
  omega

theorem isError_mono {m n : Nat} (le : m ≤ n) (isOk : isError n = false) :
    isError m = false := by
  simp only [isError, decide_eq_false_iff_not] at isOk ⊢
  omega

theorem compressBound_ok {n : Nat} (isOk : isError (compressBound n) = false) :
    compressBound n = frameBound n := by
  by_cases tooLong : 0xff00ff00ff00ff00 ≤ n
  · rw [compressBound, if_pos tooLong, isError_errorCode (by decide)] at isOk
    cases isOk
  · exact if_neg tooLong

theorem length_le_frame (u : List UInt8) : u.length ≤ (frame u).length := by
  have blocks := (length_rawBlocks_le true u).1
  rw [frame, List.length_append]
  omega

theorem compress_cases (cap : Nat) (src : List UInt8) (lvl : Int) :
    ((frame src).length ≤ cap ∧ isError (frame src).length = false ∧
        compress cap src lvl =
          { ret := (frame src).length, written := frame src }) ∨
      compress cap src lvl = { ret := errorCode 70, written := [] } := by
  by_cases fits : (frame src).length ≤ cap ∧ isError (frame src).length = false
  · exact .inl ⟨fits.1, fits.2, if_pos fits⟩
  · exact .inr (if_neg fits)

theorem compress_ok (cap : Nat) (src : List UInt8) (lvl : Int)
    (isOk : isError (compress cap src lvl).ret = false) :
    (compress cap src lvl).written.length = (compress cap src lvl).ret ∧
      rawGrammar.wire.Complete (compress cap src lvl).written ∧
      rawGrammar.wire.content (compress cap src lvl).written = src ∧
      isError src.length = false := by
  rcases compress_cases cap src lvl
    with ⟨-, sized, same⟩ | same <;> rw [same] at isOk ⊢
  · obtain ⟨complete, content⟩ := complete_frame src
    exact ⟨rfl, complete, content, isError_mono (length_le_frame src) sized⟩
  · rw [isError_errorCode (by decide)] at isOk
    cases isOk

theorem compress_roomy (cap : Nat) (src : List UInt8) (lvl : Int)
    (isOk : isError (compressBound src.length) = false)
    (roomy : compressBound src.length ≤ cap) :
    isError (compress cap src lvl).ret = false ∧
    (compress cap src lvl).written = frame src := by
  have bound := compressBound_ok isOk
  have covered := length_frame_le src
  rw [bound] at isOk roomy
  have sized := isError_mono covered isOk
  rw [compress, if_pos ⟨covered.trans roomy, sized⟩]
  exact ⟨sized, rfl⟩

theorem decompressFrames_step (fuel room : Nat) {src : List UInt8}
    (nonempty : src ≠ []) (total : List UInt8) :
    ∃ taken written signal,
      Dec.fresh.Reads rawGrammar.wire src room taken written signal ∧
        (signal = .done → decompressFrames (fuel + 1) room src total =
          decompressFrames fuel (room - written.length) (src.drop taken)
            (total ++ written)) ∧
        (signal ≠ .done →
          isError (decompressFrames (fuel + 1) room src total).ret = true ∧
          (decompressFrames (fuel + 1) room src total).written =
            total ++ written) := by
  have drives :=
    Serial.drives_drive (M := rawGrammar.machine)
      rawGrammar.machine.start src room
  have reads : Dec.fresh.Reads rawGrammar.wire src room _ _ _ :=
    drives.reads rawGrammar.machine.signal_start
  refine ⟨_, _, _, reads, ?_⟩
  simp only [decompressFrames, nonempty, ↓reduceIte]
  generalize rawGrammar.machine.drive rawGrammar.machine.start src room = drive
  change (Grammar.signal drive.state = _ → _) ∧
      (Grammar.signal drive.state ≠ _ → _)
  cases Grammar.signal drive.state with
  | done => exact ⟨fun _ => rfl, fun notDone => absurd rfl notDone⟩
  | bad =>
      exact ⟨fun done => absurd done (by decide),
        fun _ => ⟨isError_errorCode (by decide), rfl⟩⟩
  | more =>
      refine ⟨fun done => absurd done (by decide), fun _ => ⟨?_, rfl⟩⟩
      dsimp only
      split <;> exact isError_errorCode (by decide)

theorem decompressFrames_room (fuel room : Nat) (src total : List UInt8) :
    (decompressFrames fuel room src total).written.length ≤
      total.length + room := by
  induction fuel generalizing room src total with
  | zero => exact Nat.le_add_right _ _
  | succ fuel ih =>
      by_cases blank : src = []
      · simp [decompressFrames, blank]
      · obtain ⟨taken, written, signal, reads, next, stops⟩ :=
          decompressFrames_step fuel room blank total
        have inRoom := reads.room_le
        by_cases done : signal = .done
        · have later :=
            ih (room - written.length) (src.drop taken) (total ++ written)
          rw [next done]
          rw [List.length_append] at later
          omega
        · rw [(stops done).2, List.length_append]
          omega

theorem decompressFrames_series {src content : List UInt8}
    (series : rawGrammar.wire.Series (fun _ => False) src content)
    {fuel room : Nat} {total : List UInt8} (enough : src.length < fuel)
    (fits : content.length ≤ room) :
    decompressFrames fuel room src total =
      { ret := (total ++ content).length, written := total ++ content } := by
  induction series generalizing fuel room total with
  | nil =>
      obtain ⟨fuel, rfl⟩ : ∃ less, fuel = less + 1 := ⟨fuel - 1, by omega⟩
      rw [List.append_nil]
      rfl
  | skipped impossible => exact impossible.elim
  | @stream s input content complete _ ih =>
      obtain ⟨fuel, rfl⟩ : ∃ less, fuel = less + 1 := ⟨fuel - 1, by omega⟩
      have positive : 0 < s.length := by
        apply List.length_pos_iff.mpr
        intro same
        subst same
        exact rawGrammar.wire.not_complete_nil complete
      have nonempty : s ++ input ≠ [] := by
        apply List.length_pos_iff.mp
        rw [List.length_append]
        omega
      obtain ⟨taken, written, signal, reads, next, -⟩ :=
        decompressFrames_step fuel room nonempty total
      simp only [List.length_append] at enough fits
      obtain ⟨done, same, delivered⟩ :=
        reads.ends complete (List.prefix_append _ _)
        (by simp only [Dec.fresh, List.length_nil]; omega)
      have wrote : written = rawGrammar.wire.content s := delivered
      have left : (s ++ input).drop taken = input := by
        have split := List.take_append_drop taken (s ++ input)
        rw [show (s ++ input).take taken = s from same] at split
        exact List.append_cancel_left split
      rw [next done, left, wrote, ih (by omega) (by omega), List.append_assoc]

/-- Nothing but a series of frames is decoded. -/
theorem series_of_decompressFrames {fuel room : Nat} {src total : List UInt8}
    (isOk : isError (decompressFrames fuel room src total).ret = false) :
    ∃ content, rawGrammar.wire.Series (fun _ => False) src content := by
  induction fuel generalizing room src total with
  | zero =>
      rw [decompressFrames, isError_errorCode (by decide)] at isOk
      cases isOk
  | succ fuel ih =>
      by_cases blank : src = []
      · subst blank
        exact ⟨[], .nil⟩
      · obtain ⟨taken, written, signal, reads, next, stops⟩ :=
          decompressFrames_step fuel room blank total
        by_cases done : signal = .done
        · rw [next done] at isOk
          obtain ⟨content, series⟩ := ih isOk
          have whole := Wire.Series.stream (reads.done done).1 series
          rw [show Dec.fresh.read ++ src.take taken ++ src.drop taken = src from
            List.take_append_drop taken src] at whole
          exact ⟨_, whole⟩
        · rw [(stops done).1] at isOk
          cases isOk

theorem decompress_series {cap : Nat} {src content : List UInt8}
    (series : rawGrammar.wire.Series (fun _ => False) src content)
    (fits : content.length ≤ cap) :
    decompress cap src = { ret := content.length, written := content } :=
  decompressFrames_series series (Nat.lt_succ_self _) fits

theorem decompress_frame (cap : Nat) (s : List UInt8)
    (complete : rawGrammar.wire.Complete s)
    (fits : (rawGrammar.wire.content s).length ≤ cap) :
    decompress cap s =
      { ret := (rawGrammar.wire.content s).length,
        written := rawGrammar.wire.content s } := by
  have series : rawGrammar.wire.Series (fun _ => False) (s ++ [])
      (rawGrammar.wire.content s ++ []) :=
    .stream complete .nil
  rw [List.append_nil, List.append_nil] at series
  exact decompress_series series fits

/-- A decompression that does not reach the end of a frame is an error. -/
theorem decompress_error {cap : Nat} {src : List UInt8} (nonempty : src ≠ [])
    (unended : ∀ taken written,
      ¬ Dec.fresh.Reads rawGrammar.wire src cap taken written .done) :
    isError (decompress cap src).ret = true := by
  obtain ⟨taken, written, signal, reads, -, stops⟩ :=
    decompressFrames_step src.length cap nonempty []
  apply (stops _).1
  intro same
  subst same
  exact unended taken written reads

theorem decompress_truncated (cap : Nat) (p s : List UInt8)
    (complete : rawGrammar.wire.Complete s) (isPrefix : p <+: s)
    (strict : p ≠ s) (nonempty : p ≠ []) :
    isError (decompress cap p).ret = true := by
  apply decompress_error nonempty
  intro taken written reads
  exact (complete.live_of_strict isPrefix strict).not_complete
    (List.take_prefix taken p) (reads.done rfl).1

theorem decompress_no_room (cap : Nat) (s : List UInt8)
    (complete : rawGrammar.wire.Complete s)
    (short : cap < (rawGrammar.wire.content s).length) :
    isError (decompress cap s).ret = true := by
  have nonempty : s ≠ [] := by
    intro same
    subst same
    exact rawGrammar.wire.not_complete_nil complete
  apply decompress_error nonempty
  intro taken written reads
  obtain ⟨-, -, delivered⟩ := reads.done_inside rfl complete List.prefix_rfl
  have inRoom := reads.room_le
  have wrote : written = rawGrammar.wire.content s := delivered
  rw [wrote] at inRoom
  omega

theorem decompress_trailing (cap : Nat) (s t : List UInt8)
    (complete : rawGrammar.wire.Complete s)
    (notSeries : ¬ ∃ content,
      rawGrammar.wire.Series (fun _ => False) t content) :
    isError (decompress cap (s ++ t)).ret = true := by
  have nonempty : s ++ t ≠ [] := by
    intro blank
    rw [(List.append_eq_nil_iff.mp blank).1] at complete
    exact rawGrammar.wire.not_complete_nil complete
  obtain ⟨taken, written, signal, reads, next, stops⟩ :=
    decompressFrames_step (s ++ t).length cap nonempty []
  by_cases done : signal = .done
  · have same : (s ++ t).take taken = s :=
      rawGrammar.wire.complete_unique (reads.done done).1 complete
        (List.take_prefix _ _) (List.prefix_append _ _)
    have left : (s ++ t).drop taken = t := by
      have split := List.take_append_drop taken (s ++ t)
      rw [same] at split
      exact List.append_cancel_left split
    cases isOk : isError (decompress cap (s ++ t)).ret with
    | true => rfl
    | false =>
        rw [decompress, next done, left] at isOk
        exact absurd (series_of_decompressFrames isOk) notSeries
  · exact (stops done).1

theorem current_of_opened {ctx : CCtx} (opened : ¬ ctx.buffer.view.Ended) :
    ctx.current = ctx.buffer :=
  if_neg opened

theorem current_of_ended {ctx : CCtx} (ended : ctx.buffer.view.Ended) :
    ctx.current = .fresh rawFraming :=
  if_pos ended

theorem compress_refused {ctx : CCtx} {op : EndDirective}
    (refuses : Refuses ctx op) (output : OutBuffer) (input : InBuffer) :
    compressStream2 ctx output input op =
      { ret := errorCode 60, ctx := ctx, input := input, output := output,
        written := [] } :=
  if_pos refuses

theorem compress_served {ctx : CCtx} {op : EndDirective}
    (serves : ¬ Refuses ctx op) (output : OutBuffer) (input : InBuffer) :
    compressStream2 ctx output input op =
      { ret :=
          remaining
            ((prepare ctx.current input.offered op).emit (handOut output op)) op
        ctx := { ctx with
          buffer :=
            (prepare ctx.current input.offered op).emit (handOut output op) }
        input := { input with pos := input.pos + input.offered.length }
        output := { output with
          pos := output.pos +
            ((prepare ctx.current input.offered op).written
              (handOut output op)).length }
        written :=
          (prepare ctx.current input.offered op).written
            (handOut output op) } :=
  if_neg serves

theorem isError_remaining (buffer : Buffer rawFraming) (op : EndDirective) :
    isError (remaining buffer op) = false := by
  apply decide_eq_false
  have small : remaining buffer op ≤ maxBlock := by
    cases op with
    | continue_ => exact le_rfl
    | flush => exact Nat.min_le_right _ _
    | end_ => exact Nat.min_le_right _ _
  simp only [maxBlock] at small
  omega

def taken (ctx : CCtx) (_output : OutBuffer) (input : InBuffer)
    (op : EndDirective) : Nat :=
  if Refuses ctx op then 0 else input.offered.length

theorem handOut_le (output : OutBuffer) (op : EndDirective) :
    handOut output op ≤ output.room := by
  cases op with
  | continue_ => exact Nat.zero_le _
  | flush => exact le_rfl
  | end_ => exact le_rfl

theorem within (ctx : CCtx) (output : OutBuffer) (input : InBuffer)
    (op : EndDirective) :
    (compressStream2 ctx output input op).Within output input
      (taken ctx output input op) := by
  by_cases refuses : Refuses ctx op
  · rw [compress_refused refuses, taken, if_pos refuses]
    exact ⟨Nat.zero_le _, Nat.zero_le _, rfl, rfl, rfl, rfl⟩
  · rw [compress_served refuses, taken, if_neg refuses]
    exact ⟨le_rfl, (Buffer.length_written _).trans (handOut_le output op), rfl,
      rfl, rfl, rfl⟩

theorem failed_idle (ctx : CCtx) (output : OutBuffer) (input : InBuffer)
    (op : EndDirective)
    (failed : isError (compressStream2 ctx output input op).ret = true) :
    (compressStream2 ctx output input op).written = [] ∧
      (compressStream2 ctx output input op).ctx = ctx := by
  by_cases refuses : Refuses ctx op
  · rw [compress_refused refuses]
    exact ⟨rfl, rfl⟩
  · rw [compress_served refuses, isError_remaining] at failed
    cases failed

theorem closing_prepare {buffer : Buffer rawFraming} (offered : List UInt8)
    {op : EndDirective} (notEnd : op ≠ .end_) :
    (prepare buffer offered op).closing = buffer.closing := by
  have absorbed :
      (if offered = [] then buffer else buffer.absorb offered).closing =
      buffer.closing := by
    split
    · rfl
    · exact Buffer.closing_absorb offered
  cases op with
  | continue_ => exact absorbed
  | flush => exact Buffer.closing_sync.trans absorbed
  | end_ => exact absurd rfl notEnd

theorem view_prepare {buffer : Buffer rawFraming}
    (writing : buffer.closing = false) (offered : List UInt8)
    (op : EndDirective) :
    (prepare buffer offered op).view.source = buffer.view.source ++ offered ∧
      (prepare buffer offered op).view.output = buffer.view.output := by
  let absorbed := if offered = [] then buffer else buffer.absorb offered
  have moved : absorbed.view.source = buffer.view.source ++ offered ∧
      absorbed.view.output = buffer.view.output ∧ absorbed.closing = false := by
    by_cases nothing : offered = []
    · simp [absorbed, nothing, writing]
    · obtain ⟨source, output⟩ := Buffer.view_absorb writing offered
      simp only [absorbed, nothing, ↓reduceIte]
      exact ⟨source, output, (Buffer.closing_absorb offered).trans writing⟩
  obtain ⟨source, output, still⟩ := moved
  cases op with
  | continue_ => exact ⟨source, output⟩
  | flush =>
      obtain ⟨source', output'⟩ := Buffer.view_sync still
      exact ⟨source'.trans source, output'.trans output⟩
  | end_ => exact ⟨source, output⟩

theorem serves_of_writing {ctx : CCtx} (opened : ¬ ctx.buffer.view.Ended)
    (writing : ¬ ctx.buffer.closing = true) (op : EndDirective) :
    ¬ Refuses ctx op := by
  rw [Refuses, current_of_opened opened]
  exact fun refuses => writing refuses.1

theorem serves_end (ctx : CCtx) : ¬ Refuses ctx .end_ :=
  fun refuses => refuses.2 rfl

theorem absorbs (ctx : CCtx) (output : OutBuffer) (input : InBuffer)
    (op : EndDirective) (notEnd : op ≠ .end_) (opened : ¬ ctx.buffer.view.Ended)
    (writing : ¬ ctx.buffer.closing = true) :
    ctx.buffer.view.Absorbs input.offered output.room
      (taken ctx output input op)
        (compressStream2 ctx output input op).written
        (compressStream2 ctx output input op).ctx.buffer.view ∧
      ¬ (compressStream2 ctx output input op).ctx.buffer.closing = true := by
  have serves := serves_of_writing opened writing op
  have still : (prepare ctx.buffer input.offered op).closing = false :=
    (closing_prepare input.offered notEnd).trans (Bool.eq_false_iff.mpr writing)
  obtain ⟨source, written⟩ :=
    view_prepare (Bool.eq_false_iff.mpr writing) input.offered op
  obtain ⟨source', written', -⟩ :=
    Buffer.view_emit (b := prepare ctx.buffer input.offered op)
      (handOut output op)
  rw [compress_served serves, taken, if_neg serves, current_of_opened opened]
  refine ⟨⟨le_rfl, (Buffer.length_written _).trans (handOut_le output op), ?_,
    ?_, ?_⟩, ?_⟩
  · rw [List.take_length, ← source]
    exact source'
  · rw [← written]
    exact written'
  · exact Buffer.not_ended still
  · exact Bool.eq_false_iff.mp still

theorem synced (ctx : CCtx) (output : OutBuffer) (input : InBuffer)
    (opened : ¬ ctx.buffer.view.Ended) (writing : ¬ ctx.buffer.closing = true)
    (nothing : input.offered = [])
    (left : (compressStream2 ctx output input .flush).written.length <
      output.room) :
    rawGrammar.wire.content
      (compressStream2 ctx output input .flush).ctx.buffer.view.output =
      (compressStream2 ctx output input .flush).ctx.buffer.view.source := by
  have serves := serves_of_writing opened writing .flush
  have sync : prepare ctx.current input.offered .flush = ctx.buffer.sync := by
    simp [prepare, nothing, current_of_opened opened]
  rw [compress_served serves, sync] at left ⊢
  exact Buffer.synced (Bool.eq_false_iff.mpr writing) left

theorem ends (ctx : CCtx) (output : OutBuffer) (input : InBuffer)
    (opened : ¬ ctx.buffer.view.Ended) (nothing : input.offered = []) :
    isError (compressStream2 ctx output input .end_).ret = false ∧
      (compressStream2 ctx output input .end_).ctx.buffer.view.source =
        ctx.buffer.view.source ∧
      (compressStream2 ctx output input .end_).ctx.buffer.view.output =
        ctx.buffer.view.output ++
        (compressStream2 ctx output input .end_).written ∧
      ctx.buffer.view.rest = (compressStream2 ctx output input .end_).written ++
        (compressStream2 ctx output input .end_).ctx.buffer.view.rest ∧
      ((compressStream2 ctx output input .end_).ret = 0 ↔
        (compressStream2 ctx output input .end_).ctx.buffer.view.Ended) := by
  have close : prepare ctx.current input.offered .end_ = ctx.buffer.close := by
    simp [prepare, nothing, current_of_opened opened]
  obtain ⟨source, written, rest⟩ :=
    Buffer.view_emit (b := ctx.buffer.close) output.room
  rw [compress_served (serves_end ctx), close]
  refine ⟨isError_remaining _ .end_, source, written, rest, ?_⟩
  change min (List.length _) maxBlock = 0 ↔ _ = []
  rw [← List.length_eq_zero_iff]
  simp only [maxBlock]
  omega

theorem end_progress (ctx : CCtx) (output : OutBuffer) (input : InBuffer)
    (opened : ¬ ctx.buffer.view.Ended) (nothing : input.offered = [])
    (room : 0 < output.room) :
    (compressStream2 ctx output input .end_).written ≠ [] := by
  have close : prepare ctx.current input.offered .end_ = ctx.buffer.close := by
    simp [prepare, nothing, current_of_opened opened]
  rw [compress_served (serves_end ctx), close]
  have written : ctx.buffer.close.written output.room =
      ctx.buffer.view.rest.take output.room :=
    Buffer.written_closing rfl output.room
  change ctx.buffer.close.written output.room ≠ []
  rw [written]
  intro blank
  rcases List.take_eq_nil_iff.mp blank with noRoom | ended
  · omega
  · exact opened ended

/-- A context about to open a frame. -/
def reopened (ctx : CCtx) : CCtx := { ctx with buffer := .fresh rawFraming }

theorem not_ended_fresh : ¬ (Buffer.fresh rawFraming).view.Ended :=
  Buffer.not_ended rfl

theorem reopens (ctx : CCtx) (ended : ctx.buffer.view.Ended)
    (output : OutBuffer) (input : InBuffer) (op : EndDirective) :
    compressStream2 ctx output input op =
      compressStream2 (reopened ctx) output input op := by
  have current : (reopened ctx).current = .fresh rawFraming :=
    current_of_opened not_ended_fresh
  have serves : ¬ Refuses ctx op := by
    rw [Refuses, current_of_ended ended]
    exact fun refuses => absurd refuses.1 (by decide)
  have serves' : ¬ Refuses (reopened ctx) op := by
    rw [Refuses, current]
    exact fun refuses => absurd refuses.1 (by decide)
  rw [compress_served serves, compress_served serves', current,
    current_of_ended ended]
  rfl

def DCtx.view (ctx : DCtx) : Dec UInt8 :=
  ⟨ctx.read, rawGrammar.wire.content ctx.read⟩

theorem current_of_more {ctx : DCtx} (more : ctx.signal = .more) :
    ctx.current = ctx.read := by
  rw [DCtx.current, more]
  rfl

theorem signal_ret (ctx : DCtx) (output : OutBuffer) (input : InBuffer) :
    rawZstd.signal (decompressStream ctx output input).ret =
      Grammar.signal (drive ctx output input).state := by
  change rawZstd.signal
      (match Grammar.signal (drive ctx output input).state with
    | .done => 0
    | .bad => errorCode 20
    | .more => maxBlock) = _
  cases Grammar.signal (drive ctx output input).state with
  | done => decide
  | bad => decide
  | more => decide

theorem drives_drive (ctx : DCtx) (output : OutBuffer) (input : InBuffer) :
    rawGrammar.machine.Drives
      (rawGrammar.machine.state rawGrammar.machine.start ctx.current)
        input.offered output.room
      (drive ctx output input) :=
  Serial.drives_drive _ _ _

theorem decompress_within (ctx : DCtx) (output : OutBuffer) (input : InBuffer) :
    (decompressStream ctx output input).Within output input
      (drive ctx output input).taken :=
  ⟨(drives_drive ctx output input).taken_le,
    (drives_drive ctx output input).room_le, rfl, rfl, rfl, rfl⟩

theorem decompress_stream_reads {ctx : DCtx} (more : ctx.signal = .more)
    (output : OutBuffer) (input : InBuffer) :
    ctx.view.Reads rawGrammar.wire input.offered output.room
      (drive ctx output input).taken (decompressStream ctx output input).written
      (rawZstd.signal (decompressStream ctx output input).ret) := by
  have drives := drives_drive ctx output input
  rw [current_of_more more] at drives
  rw [signal_ret]
  exact drives.reads more

theorem decompress_stream_prompt {ctx : DCtx} (more : ctx.signal = .more)
    (output : OutBuffer) (input : InBuffer) :
    ctx.view.Prompt rawGrammar.wire input.offered output.room
      (rawZstd.signal (decompressStream ctx output input).ret) := by
  have drives := drives_drive ctx output input
  rw [current_of_more more] at drives
  rw [signal_ret]
  exact drives.prompt more

theorem decompress_after {ctx : DCtx} (more : ctx.signal = .more)
    (output : OutBuffer) (input : InBuffer) :
    (decompressStream ctx output input).ctx.view =
        ctx.view.after (input.offered.take (drive ctx output input).taken)
          (decompressStream ctx output input).written ∧
      (decompressStream ctx output input).ctx.signal =
        rawZstd.signal (decompressStream ctx output input).ret := by
  have drives := drives_drive ctx output input
  rw [current_of_more more] at drives
  obtain ⟨state, content⟩ := drives.after
  have read : (decompressStream ctx output input).ctx.read =
      ctx.read ++ input.offered.take (drive ctx output input).taken := by
    rw [← current_of_more more]
    rfl
  rw [DCtx.view, DCtx.signal, read, signal_ret]
  exact ⟨congrArg (Dec.mk _) content, congrArg Grammar.signal state⟩

end RawZstd

section Laws

variable {wire : Wire UInt8} (agrees : wire = rawGrammar.wire)

open RawZstd

def rawOneShotLaws : ZstdOneShotLaws rawZstd wire where
  zero_ok := by decide
  compress_room cap src lvl := by
    change (compress cap src lvl).written.length ≤ cap
    rcases compress_cases cap src lvl with ⟨fits, -, same⟩ | same <;> rw [same]
    · exact fits
    · exact Nat.zero_le _
  compress_ok := agrees ▸ compress_ok
  frame _ u := frame u
  compress_roomy := compress_roomy
  frame_le src lvl isOk := by
    change (frame src).length ≤ compressBound src.length
    rw [compressBound_ok isOk]
    exact length_frame_le src
  decompress_frame cap s complete fits _ := by
    subst agrees
    have whole := decompress_frame cap s complete fits
    exact ⟨congrArg ZstdCall.ret whole, congrArg ZstdCall.written whole⟩
  decompress_truncated := agrees ▸ decompress_truncated
  decompress_nil _ := rfl

def rawSeriesLaws : ZstdSeriesLaws rawZstd wire where
  Skippable _ := False
  series cap src content series fits := by
    subst agrees
    exact congrArg ZstdCall.ret (decompress_series series fits)
  trailing := agrees ▸ decompress_trailing
  no_room := agrees ▸ decompress_no_room

def rawCompressLaws : ZstdCompressLaws rawZstd wire where
  view (ctx : CCtx) := ctx.buffer.view
  finishing (ctx : CCtx) := ctx.buffer.closing = true
  sound (ctx : CCtx) := agrees ▸ ctx.buffer.sound
  open_view _ := ⟨rfl, rfl, not_ended_fresh, Bool.false_ne_true⟩
  taken := taken
  within := within
  failed_idle ctx output input op failed := by
    obtain ⟨written, same⟩ := failed_idle ctx output input op failed
    exact ⟨written, congrArg (fun ctx : CCtx => ctx.buffer.view) same,
      fun closing =>
        (congrArg (fun ctx : CCtx => ctx.buffer.closing =
          true) same).mp closing⟩
  absorbs ctx output input op notEnd opened writing _ :=
    absorbs ctx output input op notEnd opened writing
  synced ctx output input opened writing nothing _ left := by
    subst agrees
    exact RawZstd.synced ctx output input opened writing nothing left
  ends := ends
  end_progress ctx output input opened nothing room _ :=
    end_progress ctx output input opened nothing room
  reopened := reopened
  reopens ctx ended :=
    ⟨⟨not_ended_fresh, Bool.false_ne_true⟩, fun output input op =>
      RawZstd.reopens ctx ended output input op⟩

/-- A compression that buffers takes all it is offered. -/
def rawProgressLaws :
    ZstdProgressLaws rawZstd wire (rawCompressLaws agrees) where
  backlog _ := 0
  progress ctx output input opened writing offers _ _ := by
    left
    have serves := serves_of_writing opened writing .continue_
    have all : RawZstd.taken ctx output input .continue_ =
        input.offered.length := if_neg serves
    exact (List.length_pos_iff.mpr offers).trans_eq all.symm

theorem rawReuseLaws :
    ZstdReuseLaws rawZstd wire (rawCompressLaws agrees)
      (rawSeriesLaws agrees) where
  fresh _ _ := ⟨rfl, rfl⟩
  series_written cap src content series fits _ := by
    subst agrees
    exact congrArg ZstdCall.written (decompress_series series fits)

def rawDecompressLaws {Foreign : Nat → Prop} :
    ZstdDecompressLaws rawZstd wire Foreign fun _ => False where
  view (ctx : DCtx) := ctx.view
  status (ctx : DCtx) := ctx.signal.status
  open_view := rfl
  open_status := rfl
  open_free := not_false
  taken ctx output input := (drive ctx output input).taken
  within := decompress_within
  reads ctx output input opened _ _ _ := by
    subst agrees
    exact decompress_stream_reads
      ((Signal.status_opened_iff _).mp opened) output input
  advances ctx output input opened _ := by
    obtain ⟨view, signal⟩ :=
      decompress_after ((Signal.status_opened_iff _).mp opened) output input
    exact ⟨view, congrArg Signal.status signal⟩

theorem rawHostageLaws {Foreign : Nat → Prop} : ZstdHostageLaws
    (rawDecompressLaws agrees :
      ZstdDecompressLaws rawZstd wire Foreign fun _ => False) where
  begins _ _ _ _ _ withholds := withholds.elim
  ends _ _ _ _ withholds := withholds.elim

end Laws

end Polliwog
