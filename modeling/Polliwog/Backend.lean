import Polliwog.Error

/-!
# The integration surface of an engine

What every backend expression returns, and what it is handed: spans of bytes.
A reply also records what the expression did outside its return value, namely
the bytes an engine wrote at the front of the output span and the engine
entries it went through.
-/

namespace Polliwog

structure Progress where
  bytesIn : Nat
  bytesOut : Nat
  done : Bool
  deriving DecidableEq, Repr

/-- A `std::span` of bytes.  Only an empty span may have a null data pointer,
and its size is a 64-bit `size_t`. -/
structure Span where
  bytes : List UInt8
  isNull : Bool
  null_empty : isNull = true → bytes = []
  size_lt : bytes.length < 2 ^ 64

namespace Span

def size (span : Span) : Nat := span.bytes.length

/-- The span `{}`, whose data pointer is null. -/
def empty : Span :=
  { bytes := [], isNull := true, null_empty := fun _ => rfl,
    size_lt := by decide }

/-- A span over memory that exists, however short. -/
def ofBytes (bytes : List UInt8) (fits : bytes.length < 2 ^ 64) : Span :=
  { bytes := bytes, isNull := false, null_empty := nofun, size_lt := fits }

/-- The span past its first `count` bytes. -/
def subspan (span : Span) (count : Nat) : Span :=
  { bytes := span.bytes.drop count
    isNull := span.isNull
    null_empty := fun null => by simp [span.null_empty null]
    size_lt := by
      have fits := span.size_lt
      simp only [List.length_drop]
      omega }

/-- The first `count` bytes of the span, or all of it. -/
def first (span : Span) (count : Nat) : Span :=
  { bytes := span.bytes.take count
    isNull := span.isNull
    null_empty := fun null => by simp [span.null_empty null]
    size_lt := by
      have fits := span.size_lt
      simp only [List.length_take]
      omega }

/-- The memory of the span once `written` has been stored at its front. -/
def overwrite (span : Span) (written : List UInt8) : List UInt8 :=
  written ++ span.bytes.drop written.length

@[simp] theorem bytes_subspan (span : Span) (count : Nat) :
    (span.subspan count).bytes = span.bytes.drop count := rfl

@[simp] theorem size_subspan (span : Span) (count : Nat) :
    (span.subspan count).size = span.size - count := by
  simp [size]

theorem notNull_of_size_pos {span : Span} (positive : 0 < span.size) :
    span.isNull = false := by
  cases null : span.isNull with
  | false => rfl
  | true =>
      have blank := span.null_empty null
      simp [size, blank] at positive

theorem length_overwrite {span : Span} {written : List UInt8}
    (within : written.length ≤ span.size) :
    (span.overwrite written).length = span.size := by
  simp only [overwrite, size, List.length_append, List.length_drop] at within ⊢
  omega

theorem overwrite_all {span : Span} {written : List UInt8}
    (exact : written.length = span.size) :
    span.overwrite written = written := by
  have nothing : span.bytes.drop written.length = [] := by
    rw [exact]
    exact List.drop_length
  rw [overwrite, nothing, List.append_nil]

@[simp] theorem take_overwrite (span : Span) (written : List UInt8) :
    (span.overwrite written).take written.length = written := by
  simp [overwrite]

end Span

/-- The points at which an engine is entered with work to do. -/
inductive Entry where
  | deflateInit2
  | deflate
  | inflateInit2
  | inflate
  | createCCtx
  | compress
  | compressStream2
  | createDCtx
  | decompress
  | decompressStream
  deriving DecidableEq, Repr

/-- One engine call: what it was offered, what it used of that, and whether it
answered that the stream had ended. -/
structure EngineCall where
  entry : Entry
  offered : Nat := 0
  room : Nat := 0
  taken : Nat := 0
  wrote : Nat := 0
  ended : Bool := false
  deriving DecidableEq, Repr

/-- What a call on a handle of type `σ` returns and does. -/
structure Reply (σ ρ : Type) where
  result : Except Error ρ
  handle : σ
  written : List UInt8
  calls : List EngineCall

/-- Rewrap the value and the handle of a reply, keeping its effects. -/
def Reply.map {σ τ ρ κ : Type} (wrap : σ → τ) (value : ρ → κ)
    (reply : Reply σ ρ) : Reply τ κ :=
  { result := reply.result.map value
    handle := wrap reply.handle
    written := reply.written
    calls := reply.calls }

/-- How much of the input the engine took in a call. -/
def Reply.taken {σ ρ : Type} (reply : Reply σ ρ) : Nat :=
  (reply.calls.map EngineCall.taken).sum

namespace Reply

variable {σ τ υ ρ κ μ : Type} {wrap : σ → τ} {value : ρ → κ} {reply : Reply σ ρ}

theorem map_map (wrap' : τ → υ) (value' : κ → μ) :
    (reply.map wrap value).map wrap' value' =
      reply.map (fun h => wrap' (wrap h)) (fun r => value' (value r)) := by
  cases reply with
  | mk result handle written calls =>
      cases result <;> rfl

theorem map_ok {r : ρ} (ok : reply.result = .ok r) :
    (reply.map wrap value).result = .ok (value r) := by
  rw [map, ok]
  rfl

theorem map_error {e : Error} (failed : reply.result = .error e) :
    (reply.map wrap value).result = .error e := by
  rw [map, failed]
  rfl

end Reply

end Polliwog
