import Polliwog.Engine.Zstd

/-!
# The zstd backend

Handles over a compression or decompression context.  The one-shot operations
use the simple interface, the streaming ones keep positions in buffers.
-/

namespace Polliwog

structure ZstdSqueezer (S : Zstd) where
  ctx : S.CCtx
  fmt : Format
  level : Int

structure ZstdSweller (S : Zstd) where
  ctx : S.DCtx
  fmt : Format

variable {S : Zstd}

/-- An engine error forwarded with its own text. -/
def Zstd.failure (S : Zstd) (kind : Kind) (ret : Nat) : Error :=
  { kind := kind, backend := .zstd, pos := 0, note := S.getErrorName ret }

/-- The ledger entry of a streaming call. -/
def ZstdStreamCall.entry {σ : Type} (call : ZstdStreamCall σ) (entry : Entry)
    (input : InBuffer) (output : OutBuffer) (ended : Bool) : EngineCall :=
  { entry := entry
    offered := input.size - input.pos
    room := output.size - output.pos
    taken := call.input.pos - input.pos
    wrote := call.written.length
    ended := ended }

namespace ZstdSqueezer

def make (S : Zstd) (f : Format) (lvl : ZstdLevel) : ZstdSqueezer S :=
  { ctx := S.setCompressionLevel S.createCCtx lvl.toInt
    fmt := f
    level := lvl.toInt }

def push (h : ZstdSqueezer S) (input out : Span) :
    Reply (ZstdSqueezer S) Progress :=
  let call := S.compress out.size input.bytes h.level
  { result :=
      if S.isError call.ret then .error (S.failure .backendFailure call.ret)
      else .ok { bytesIn := input.size, bytesOut := call.ret, done := true }
    handle := h
    written := call.written
    calls :=
      [{ entry := .compress, offered := input.size, room := out.size
         taken := input.size, wrote := call.written.length
         ended := !S.isError call.ret }] }

def pushMore (h : ZstdSqueezer S) (input out : Span) :
    Reply (ZstdSqueezer S) Progress :=
  let inBuffer : InBuffer := { src := input.bytes, pos := 0 }
  let outBuffer : OutBuffer := { size := out.size, pos := 0 }
  let call := S.compressStream2 h.ctx outBuffer inBuffer .continue_
  { result :=
      if S.isError call.ret then .error (S.failure .backendFailure call.ret)
      else .ok { bytesIn := call.input.pos, bytesOut := call.output.pos,
                 done := false }
    handle := { h with ctx := call.ctx }
    written := call.written
    calls := [call.entry .compressStream2 inBuffer outBuffer false] }

def flush (h : ZstdSqueezer S) (out : Span) : Reply (ZstdSqueezer S) Progress :=
  let inBuffer : InBuffer := { src := [], pos := 0 }
  let outBuffer : OutBuffer := { size := out.size, pos := 0 }
  let call := S.compressStream2 h.ctx outBuffer inBuffer .flush
  { result :=
      if S.isError call.ret then .error (S.failure .backendFailure call.ret)
      else .ok { bytesIn := 0, bytesOut := call.output.pos, done := false }
    handle := { h with ctx := call.ctx }
    written := call.written
    calls := [call.entry .compressStream2 inBuffer outBuffer false] }

theorem pushMore_ok (h : ZstdSqueezer S) (input out : Span)
    (isOk : S.isError (S.compressStream2 h.ctx { size := out.size, pos := 0 }
      { src := input.bytes, pos := 0 } .continue_).ret = false) :
    (h.pushMore input out).result = .ok
      { bytesIn := (S.compressStream2 h.ctx { size := out.size, pos := 0 }
          { src := input.bytes, pos := 0 } .continue_).input.pos
        bytesOut := (S.compressStream2 h.ctx { size := out.size, pos := 0 }
          { src := input.bytes, pos := 0 } .continue_).output.pos
        done := false } := by
  simp [pushMore, isOk]

theorem flush_ok (h : ZstdSqueezer S) (out : Span)
    (isOk : S.isError (S.compressStream2 h.ctx { size := out.size, pos := 0 }
      { src := [], pos := 0 } .flush).ret = false) :
    (h.flush out).result = .ok
      { bytesIn := 0
        bytesOut := (S.compressStream2 h.ctx { size := out.size, pos := 0 }
          { src := [], pos := 0 } .flush).output.pos
        done := false } := by
  simp [flush, isOk]

/-- The loop of `finish`: end the frame until nothing remains, the room is
full or the engine fails.  `none` if `fuel` engine calls were not enough. -/
def finishLoop (h : ZstdSqueezer S) (input : InBuffer) (output : OutBuffer)
    (written : List UInt8) (calls : List EngineCall) :
    Nat → Option (Reply (ZstdSqueezer S) Progress)
  | 0 => none
  | fuel + 1 =>
      let call := S.compressStream2 h.ctx output input .end_
      let handle : ZstdSqueezer S := { h with ctx := call.ctx }
      let written := written ++ call.written
      let calls :=
        calls ++ [call.entry .compressStream2 input output (call.ret = 0)]
      if S.isError call.ret then
        some
          { result := .error (S.failure .backendFailure call.ret)
            handle := handle, written := written, calls := calls }
      else if 0 < call.ret ∧ call.output.pos = call.output.size then
        some
          { result :=
              .ok { bytesIn := 0, bytesOut := call.output.pos, done := false }
            handle := handle
            written := written
            calls := calls }
      else if 0 < call.ret then
        finishLoop handle call.input call.output written calls fuel
      else
        some
          { result :=
              .ok { bytesIn := 0, bytesOut := call.output.pos, done := true }
            handle := handle
            written := written
            calls := calls }

/-- An engine that keeps its promise of progress needs at most one call more
than there are bytes of room. -/
def finish (h : ZstdSqueezer S) (out : Span) :
    Option (Reply (ZstdSqueezer S) Progress) :=
  finishLoop h { src := [], pos := 0 }
    { size := out.size, pos := 0 } [] [] (out.size + 1)

end ZstdSqueezer

namespace ZstdSweller

def make (S : Zstd) (f : Format) : ZstdSweller S :=
  { ctx := S.createDCtx, fmt := f }

def push (h : ZstdSweller S) (input out : Span) :
    Reply (ZstdSweller S) Progress :=
  let call := S.decompress out.size input.bytes
  { result :=
      if S.isError call.ret then .error (S.failure .streamCorrupt call.ret)
      else .ok { bytesIn := input.size, bytesOut := call.ret, done := true }
    handle := h
    written := call.written
    calls :=
      [{ entry := .decompress, offered := input.size, room := out.size
         taken := input.size, wrote := call.written.length
         ended := !S.isError call.ret }] }

def pushMore (h : ZstdSweller S) (input out : Span) :
    Reply (ZstdSweller S) Progress :=
  let inBuffer : InBuffer := { src := input.bytes, pos := 0 }
  let outBuffer : OutBuffer := { size := out.size, pos := 0 }
  let call := S.decompressStream h.ctx outBuffer inBuffer
  let done : Bool := call.ret = 0
  { result :=
      if S.isError call.ret then .error (S.failure .streamCorrupt call.ret)
      else if done ∧ call.input.pos < call.input.size then
        -- extra data after the end of the frame
        .error
          { kind := .streamCorrupt, backend := .zstd, pos := call.input.pos
            note := "extra data after end of stream" }
      else
        .ok { bytesIn := call.input.pos, bytesOut := call.output.pos,
              done := done }
    handle := { h with ctx := call.ctx }
    written := call.written
    calls := [call.entry .decompressStream inBuffer outBuffer done] }

end ZstdSweller

namespace ZstdBackend

def formats : List Format := [.zstd]

def bound (S : Zstd) (_lvl : ZstdLevel) (inSize : Nat) : Nat :=
  let r := S.compressBound inSize
  if S.isError r then 2 ^ 64 - 1 else r

end ZstdBackend

end Polliwog
