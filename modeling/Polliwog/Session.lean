import Polliwog.Codec.Run
import Polliwog.Stream

/-!
# Sessions with a streaming object

The calls that can be made on one object, as a step relation.
-/

namespace Polliwog

open Codec

variable {B : Build}

/-- Everything that the calls of a run stored, in order. -/
def written {ι σ : Type} (trace : List (ι × Reply σ StreamResult)) :
    List UInt8 :=
  trace.flatMap fun entry => entry.2.written

@[simp] theorem written_nil {ι σ : Type} :
    written ([] : List (ι × Reply σ StreamResult)) = [] := rfl

@[simp] theorem written_cons {ι σ : Type} (entry : ι × Reply σ StreamResult)
    (trace : List (ι × Reply σ StreamResult)) :
    written (entry :: trace) = entry.2.written ++ written trace :=
  List.flatMap_cons

@[simp] theorem written_append {ι σ : Type}
    (trace later : List (ι × Reply σ StreamResult)) :
    written (trace ++ later) = written trace ++ written later :=
  List.flatMap_append

/-- How much the engine took over a run. -/
def takenBy {ι σ : Type} (trace : List (ι × Reply σ StreamResult)) : Nat :=
  (trace.map fun entry => entry.2.taken).sum

@[simp] theorem takenBy_nil {ι σ : Type} :
    takenBy ([] : List (ι × Reply σ StreamResult)) = 0 := rfl

theorem takenBy_concat {ι σ : Type} (trace : List (ι × Reply σ StreamResult))
    (entry : ι × Reply σ StreamResult) :
    takenBy (trace ++ [entry]) = takenBy trace + entry.2.taken := by
  simp [takenBy]

namespace Compressor

inductive Request where
  | push (input out : Span)
  | flush (out : Span)
  | finish (out : Span)

namespace Request

/-- Where a call writes. -/
def out : Request → Span
  | .push _ out => out
  | .flush out => out
  | .finish out => out

/-- What a call offers. -/
def input : Request → Span
  | .push input _ => input
  | .flush _ => .empty
  | .finish _ => .empty

def IsFinish : Request → Prop
  | .finish _ => True
  | _ => False

end Request

def call (c : Compressor B) :
    Request → Option (Reply (Compressor B) StreamResult)
  | .push input out => some (c.push input out)
  | .flush out => some (c.flush out)
  | .finish out => c.finish out

abbrev Trace (B : Build) :=
  List (Compressor.Request × Reply (Compressor B) StreamResult)

def Step (c : Compressor B) (request : Request)
    (reply : Reply (Compressor B) StreamResult) (c' : Compressor B) : Prop :=
  c.call request = some reply ∧ reply.handle = c'

/-- How a call enters zlib. -/
def Request.mode : Request → ZFlush
  | .push _ _ => .noFlush
  | .flush _ => .syncFlush
  | .finish _ => .finish

/-- Every call on a zlib compressor is one call of the engine, and reports what
its output counter says. -/
theorem step_zlib {h : ZlibSqueezer B.zlib} {request : Request}
    {reply : Reply (Compressor B) StreamResult} {c' : Compressor B}
    (step : (⟨.zlibSqueezer h⟩ : Compressor B).Step request reply c') :
    let loaded := h.stream.load request.input request.out
    let call := B.zlib.deflate loaded request.mode
    reply.written = call.written ∧ c' = ⟨.zlibSqueezer ⟨call.stream⟩⟩ ∧
      ∀ r, reply.result = .ok r →
        r.bytesProduced = counted loaded.totalOut call.stream.totalOut := by
  obtain ⟨returned, rfl⟩ := step
  cases request with
  | push input out =>
      cases returned
      refine ⟨rfl, rfl, ?_⟩
      intro r ok
      simp only [push, SqueezerVariant.pushVisitor, Reply.map,
        ZlibSqueezer.pushMore] at ok
      split at ok <;> cases ok
      rfl
  | flush out =>
      cases returned
      refine ⟨rfl, rfl, ?_⟩
      intro r ok
      simp only [flush, SqueezerVariant.flushVisitor, Reply.map,
        ZlibSqueezer.flush] at ok
      split at ok <;> cases ok
      rfl
  | finish out =>
      cases returned
      refine ⟨rfl, rfl, ?_⟩
      intro r ok
      simp only [Reply.map, ZlibSqueezer.finish, ZlibSqueezer.push] at ok
      split at ok <;> cases ok
      rfl

/-- What a call does with a zstd handle. -/
def Request.onZstd (h : ZstdSqueezer B.zstd) :
    Request → Option (Reply (ZstdSqueezer B.zstd) Progress)
  | .push input out => some (h.pushMore input out)
  | .flush out => some (h.flush out)
  | .finish out => h.finish out

theorem step_zstd {h : ZstdSqueezer B.zstd} {request : Request}
    {reply : Reply (Compressor B) StreamResult} {c' : Compressor B}
    (step : (⟨.zstdSqueezer h⟩ : Compressor B).Step request reply c') :
    ∃ inner, request.onZstd h = some inner ∧ reply.written = inner.written ∧
      c' = ⟨.zstdSqueezer inner.handle⟩ := by
  obtain ⟨returned, rfl⟩ := step
  cases request with
  | push input out =>
      cases returned
      exact ⟨_, rfl, rfl, rfl⟩
  | flush out =>
      cases returned
      exact ⟨_, rfl, rfl, rfl⟩
  | finish out =>
      cases finished : h.finish out with
      | none =>
          simp [call, finish, SqueezerVariant.finishVisitor,
            finished] at returned
      | some inner =>
          rw [call, finish_zstd finished] at returned
          cases returned
          exact ⟨inner, finished, rfl, rfl⟩

/-- A push or a flush that returns a value. -/
def Feeds (c : Compressor B) (request : Request)
    (reply : Reply (Compressor B) StreamResult) (c' : Compressor B) : Prop :=
  c.Step request reply c' ∧ ¬ request.IsFinish ∧ ∃ r, reply.result = .ok r

end Compressor

namespace Decompressor

structure Request where
  input : Span
  out : Span

abbrev Trace (B : Build) :=
  List (Decompressor.Request × Reply (Decompressor B) StreamResult)

def Step (d : Decompressor B) (request : Request)
    (reply : Reply (Decompressor B) StreamResult) (d' : Decompressor B) :
    Prop :=
  d.push request.input request.out = reply ∧ reply.handle = d'

/-- A push that returns a value short of the end. -/
def GoesOn (d : Decompressor B) (request : Request)
    (reply : Reply (Decompressor B) StreamResult) (d' : Decompressor B) :
    Prop :=
  d.Step request reply d' ∧ ∃ r, reply.result = .ok r ∧ r.done = false

/-- Every push on a zlib decompressor is one call of the engine, and reports
what its output counter says. -/
theorem step_zlib {h : ZlibSweller B.zlib} {request : Request}
    {reply : Reply (Decompressor B) StreamResult} {d' : Decompressor B}
    (step : (⟨.zlibSweller h⟩ : Decompressor B).Step request reply d') :
    let loaded := h.stream.load request.input request.out
    let call := B.zlib.inflate loaded .noFlush
    reply.written = call.written ∧ d' = ⟨.zlibSweller ⟨call.stream⟩⟩ ∧
      ∀ r, reply.result = .ok r →
        r.bytesProduced = counted loaded.totalOut call.stream.totalOut := by
  obtain ⟨rfl, rfl⟩ := step
  refine ⟨rfl, rfl, ?_⟩
  intro r ok
  simp only [push, SwellerVariant.pushVisitor, Reply.map,
    ZlibSweller.pushMore] at ok
  split at ok
  · cases ok
    rfl
  · split at ok <;> cases ok
    rfl

theorem step_zstd {h : ZstdSweller B.zstd} {request : Request}
    {reply : Reply (Decompressor B) StreamResult} {d' : Decompressor B}
    (step : (⟨.zstdSweller h⟩ : Decompressor B).Step request reply d') :
    let call :=
      B.zstd.decompressStream h.ctx { size := request.out.size, pos := 0 }
      { src := request.input.bytes, pos := 0 }
    reply.written = call.written ∧
      d' = ⟨.zstdSweller { h with ctx := call.ctx }⟩ ∧
      ∀ r, reply.result = .ok r → r.bytesProduced = call.output.pos := by
  obtain ⟨rfl, rfl⟩ := step
  refine ⟨rfl, rfl, ?_⟩
  intro r ok
  simp only [push, SwellerVariant.pushVisitor, Reply.map,
    ZstdSweller.pushMore] at ok
  split at ok
  · cases ok
  · split at ok <;> cases ok
    rfl

end Decompressor

end Polliwog
