import Polliwog.Squeeze

/-!
# The streaming layer

A compressor or decompressor holds one handle out of a variant whose
alternatives depend on the build: a real handle where the backend is compiled
in and a stub where it is not.
-/

namespace Polliwog

inductive SqueezerVariant (B : Build) where
  | zlibSqueezer (h : ZlibSqueezer B.zlib)
  | zlibStubSqueezer
  | zstdSqueezer (h : ZstdSqueezer B.zstd)
  | zstdStubSqueezer

inductive SwellerVariant (B : Build) where
  | zlibSweller (h : ZlibSweller B.zlib)
  | zlibStubSweller
  | zstdSweller (h : ZstdSweller B.zstd)
  | zstdStubSweller

structure PushOut where
  bytesIn : Nat
  bytesOut : Nat
  done : Bool
  deriving DecidableEq, Repr

structure StreamResult where
  bytesConsumed : Nat
  bytesProduced : Nat
  done : Bool
  deriving DecidableEq, Repr

variable {B : Build}

/-- The reply of a stub. -/
def Reply.stub {σ ρ : Type} (handle : σ) : Reply σ ρ :=
  { result := .error formatMismatchErr, handle := handle, written := [],
    calls := [] }

namespace SqueezerVariant

def pushVisitor (input out : Span) :
    SqueezerVariant B → Reply (SqueezerVariant B) PushOut
  | .zlibSqueezer h =>
      (h.pushMore input out).map .zlibSqueezer fun r =>
        { bytesIn := r.bytesIn, bytesOut := r.bytesOut, done := false }
  | .zstdSqueezer h =>
      (h.pushMore input out).map .zstdSqueezer fun r =>
        { bytesIn := r.bytesIn, bytesOut := r.bytesOut, done := false }
  | .zlibStubSqueezer => .stub .zlibStubSqueezer
  | .zstdStubSqueezer => .stub .zstdStubSqueezer

def flushVisitor (out : Span) :
    SqueezerVariant B → Reply (SqueezerVariant B) PushOut
  | .zlibSqueezer h =>
      (h.flush out).map .zlibSqueezer fun r =>
        { bytesIn := 0, bytesOut := r.bytesOut, done := false }
  | .zstdSqueezer h =>
      (h.flush out).map .zstdSqueezer fun r =>
        { bytesIn := 0, bytesOut := r.bytesOut, done := false }
  | .zlibStubSqueezer => .stub .zlibStubSqueezer
  | .zstdStubSqueezer => .stub .zstdStubSqueezer

/-- Whether the handle itself reported the end is not forwarded. -/
def finishVisitor (out : Span) :
    SqueezerVariant B → Option (Reply (SqueezerVariant B) PushOut)
  | .zlibSqueezer h =>
      some <| (h.finish out).map .zlibSqueezer fun r =>
        { bytesIn := 0, bytesOut := r.bytesOut, done := true }
  | .zstdSqueezer h =>
      (h.finish out).map fun reply => reply.map .zstdSqueezer fun r =>
        { bytesIn := 0, bytesOut := r.bytesOut, done := true }
  | .zlibStubSqueezer => some (.stub .zlibStubSqueezer)
  | .zstdStubSqueezer => some (.stub .zstdStubSqueezer)

end SqueezerVariant

namespace SwellerVariant

def pushVisitor (input out : Span) :
    SwellerVariant B → Reply (SwellerVariant B) PushOut
  | .zlibSweller h =>
      (h.pushMore input out).map .zlibSweller fun r =>
        { bytesIn := r.bytesIn, bytesOut := r.bytesOut, done := r.done }
  | .zstdSweller h =>
      (h.pushMore input out).map .zstdSweller fun r =>
        { bytesIn := r.bytesIn, bytesOut := r.bytesOut, done := r.done }
  | .zlibStubSweller => .stub .zlibStubSweller
  | .zstdStubSweller => .stub .zstdStubSweller

end SwellerVariant

/-- A format that no case names falls to the zlib alternative. -/
def makeSqueezer (B : Build) (f : Format) (lvl : ZlibLevel) :
    SqueezerVariant B :=
  match f with
  | .zlib | .gzip | .rawDeflate =>
      if B.hasZlib then .zlibSqueezer (ZlibSqueezer.make B.zlib f lvl)
        else .zlibStubSqueezer
  | .zstd =>
      if B.hasZstd then .zstdSqueezer (ZstdSqueezer.make B.zstd f ⟨lvl.toInt⟩)
      else .zstdStubSqueezer
  | .lz4Frame =>
      if B.hasZlib then .zlibSqueezer (ZlibSqueezer.make B.zlib f lvl)
        else .zlibStubSqueezer

def makeSweller (B : Build) (f : Format) : SwellerVariant B :=
  match f with
  | .zlib | .gzip | .rawDeflate =>
      if B.hasZlib then .zlibSweller (ZlibSweller.make B.zlib f)
        else .zlibStubSweller
  | .zstd =>
      if B.hasZstd then .zstdSweller (ZstdSweller.make B.zstd f)
        else .zstdStubSweller
  | .lz4Frame =>
      if B.hasZlib then .zlibSweller (ZlibSweller.make B.zlib f)
        else .zlibStubSweller

theorem makeSqueezer_of_zlib {f : Format} {lvl : ZlibLevel}
    (member : f ∈ ZlibBackend.formats) (has : B.hasZlib = true) :
    makeSqueezer B f lvl = .zlibSqueezer (.make B.zlib f lvl) := by
  revert member
  cases f <;> simp [makeSqueezer, has, ZlibBackend.formats]

theorem makeSqueezer_of_zstd {lvl : ZlibLevel} (has : B.hasZstd = true) :
    makeSqueezer B .zstd lvl =
      .zstdSqueezer (.make B.zstd .zstd ⟨lvl.toInt⟩) := by
  simp [makeSqueezer, has]

theorem makeSweller_of_zlib {f : Format} (member : f ∈ ZlibBackend.formats)
    (has : B.hasZlib = true) :
    makeSweller B f = .zlibSweller (.make B.zlib f) := by
  revert member
  cases f <;> simp [makeSweller, has, ZlibBackend.formats]

theorem makeSweller_of_zstd (has : B.hasZstd = true) :
    makeSweller B .zstd = .zstdSweller (.make B.zstd .zstd) := by
  simp [makeSweller, has]

structure Compressor (B : Build) where
  handle : SqueezerVariant B

structure Decompressor (B : Build) where
  handle : SwellerVariant B

/-- `std::invalid_argument`. -/
structure InvalidArgument where
  what : String
  deriving DecidableEq, Repr

/-- The engine entry that setting up a compression handle goes through. -/
def SqueezerVariant.opening : SqueezerVariant B → List EngineCall
  | .zlibSqueezer _ => [{ entry := .deflateInit2 }]
  | .zstdSqueezer _ => [{ entry := .createCCtx }]
  | .zlibStubSqueezer | .zstdStubSqueezer => []

/-- The engine entry that setting up a decompression handle goes through. -/
def SwellerVariant.opening : SwellerVariant B → List EngineCall
  | .zlibSweller _ => [{ entry := .inflateInit2 }]
  | .zstdSweller _ => [{ entry := .createDCtx }]
  | .zlibStubSweller | .zstdStubSweller => []

/-- A constructor call: the object or the exception, and the engine entries. -/
structure Constructed (α : Type) where
  object : Except InvalidArgument α
  calls : List EngineCall

namespace Compressor

/-- The object that the constructor builds when it does not throw. -/
def of (B : Build) (f : Format) (lvl : ZlibLevel) : Compressor B :=
  { handle := makeSqueezer B f lvl }

def construct (B : Build) (f : Format) (lvl : ZlibLevel) :
    Constructed (Compressor B) :=
  if f ≠ .zstd ∧ (lvl.toInt < 0 ∨ lvl.toInt > 9) then
    { object := .error { what := "level_unsupported: zlib levels are 0-9" }
      calls := [] }
  else
    { object := .ok (of B f lvl)
      calls := (makeSqueezer B f lvl).opening }

def push (c : Compressor B) (input out : Span) :
    Reply (Compressor B) StreamResult :=
  (c.handle.pushVisitor input out).map Compressor.mk fun r =>
    { bytesConsumed := r.bytesIn, bytesProduced := r.bytesOut, done := false }

def flush (c : Compressor B) (out : Span) : Reply (Compressor B) StreamResult :=
  (c.handle.flushVisitor out).map Compressor.mk fun r =>
    { bytesConsumed := 0, bytesProduced := r.bytesOut, done := false }

def finish (c : Compressor B) (out : Span) :
    Option (Reply (Compressor B) StreamResult) :=
  (c.handle.finishVisitor out).map fun reply => reply.map Compressor.mk fun r =>
    { bytesConsumed := r.bytesIn, bytesProduced := r.bytesOut, done := true }

theorem finish_zstd {h : ZstdSqueezer B.zstd} {out : Span}
    {reply : Reply (ZstdSqueezer B.zstd) Progress}
    (finished : h.finish out = some reply) :
    (⟨.zstdSqueezer h⟩ : Compressor B).finish out =
      some (reply.map (fun h => ⟨.zstdSqueezer h⟩) fun r =>
        { bytesConsumed := 0, bytesProduced := r.bytesOut, done := true }) := by
  simp only [finish, SqueezerVariant.finishVisitor, finished, Option.map_some,
    Reply.map_map]

end Compressor

namespace Decompressor

def construct (B : Build) (f : Format) : Decompressor B :=
  { handle := makeSweller B f }

def push (d : Decompressor B) (input out : Span) :
    Reply (Decompressor B) StreamResult :=
  (d.handle.pushVisitor input out).map Decompressor.mk fun r =>
    { bytesConsumed := r.bytesIn, bytesProduced := r.bytesOut, done := r.done }

end Decompressor

end Polliwog
