import Polliwog.Detail.Zlib
import Polliwog.Detail.Zstd

/-!
# The one-shot layer

`squeeze` and `swell` pick a backend by format, within what the build has
compiled in.  Every branch that the preprocessor removes is a branch on the
build here.
-/

namespace Polliwog

/-- One build of the library: which backends were compiled in, and the engines
it is linked with. -/
structure Build where
  hasZlib : Bool
  hasZstd : Bool
  zlib : Zlib
  zstd : Zstd

structure SqueezeResult where
  bytesWritten : Nat
  deriving DecidableEq, Repr

/-- What a one-shot call returns and leaves in the output span. -/
structure OneShot where
  result : Except Error SqueezeResult
  out : List UInt8
  calls : List EngineCall

namespace OneShot

/-- A refusal: no engine has run and the output span is untouched. -/
def refuse (error : Error) (out : Span) : OneShot :=
  { result := .error error, out := out.bytes, calls := [] }

/-- The end of a call that ran an engine, `opened` having set it up. -/
def ofReply {σ : Type} (opened : Entry) (reply : Reply σ Progress)
    (out : Span) :
    OneShot :=
  { result := reply.result.map fun r => { bytesWritten := r.bytesOut }
    out := out.overwrite reply.written
    calls := { entry := opened } :: reply.calls }

variable {σ : Type} {opened : Entry} {reply : Reply σ Progress} {out : Span}

theorem result_of_ok {r : Progress} (ok : reply.result = .ok r) :
    (ofReply opened reply out).result = .ok ⟨r.bytesOut⟩ := by
  rw [ofReply, ok]
  rfl

theorem result_of_error {e : Error} (failed : reply.result = .error e) :
    (ofReply opened reply out).result = .error e := by
  rw [ofReply, failed]
  rfl

theorem ok_of_result {n : Nat}
    (ok : (ofReply opened reply out).result = .ok ⟨n⟩) :
    ∃ r, reply.result = .ok r ∧ r.bytesOut = n := by
  cases verdict : reply.result with
  | error e =>
      rw [result_of_error verdict] at ok
      cases ok
  | ok r =>
      rw [result_of_ok verdict] at ok
      cases ok
      exact ⟨r, rfl, rfl⟩

end OneShot

def bound (B : Build) (f : Format) (lvl : ZlibLevel) (inSize : Nat) : Nat :=
  match f with
  | .zlib | .gzip | .rawDeflate =>
      if B.hasZlib then ZlibBackend.bound B.zlib lvl inSize else 0
  | .zstd =>
      if B.hasZstd then ZstdBackend.bound B.zstd .defaultLevel inSize else 0
  | .lz4Frame => 0

/-- The gzip header of a finished call gets an unknown operating system. -/
def patchOs (f : Format) (call : OneShot) : OneShot :=
  match call.result with
  | .error _ => call
  | .ok r =>
      if f = .gzip ∧ 10 ≤ r.bytesWritten
        then { call with out := call.out.set 9 0xff }
      else call

@[simp] theorem patchOs_result (f : Format) (call : OneShot) :
    (patchOs f call).result = call.result := by
  unfold patchOs
  split
  · rfl
  · split <;> rfl

def squeeze (B : Build) (f : Format) (lvl : ZlibLevel) (input out : Span) :
    OneShot :=
  match f with
  | .zlib | .gzip | .rawDeflate =>
      if B.hasZlib then
        let v := lvl.toInt
        if v < 0 ∨ v > 9 then
          .refuse { kind := .levelUnsupported, backend := .zlib, pos := 0,
                    note := "" } out
        else
          let cap := bound B f lvl input.size
          if cap = 0 then .refuse formatMismatchErr out
          else if out.size < cap then .refuse bufferTooSmallErr out
          else
            let squeezer := ZlibSqueezer.make B.zlib f lvl
            patchOs f (.ofReply .deflateInit2 (squeezer.push input out) out)
      else .refuse formatMismatchErr out
  | .zstd =>
      if B.hasZstd then
        let cap := bound B f .defaultLevel input.size
        if cap = 0 then .refuse formatMismatchErr out
        else if out.size < cap then .refuse bufferTooSmallErr out
        else
          let squeezer := ZstdSqueezer.make B.zstd f ⟨lvl.toInt⟩
          .ofReply .createCCtx (squeezer.push input out) out
      else .refuse formatMismatchErr out
  | .lz4Frame => .refuse formatMismatchErr out

def swell (B : Build) (f : Format) (input out : Span) : OneShot :=
  match f with
  | .zlib | .gzip | .rawDeflate =>
      if B.hasZlib then
        let sweller := ZlibSweller.make B.zlib f
        .ofReply .inflateInit2 (sweller.push input out) out
      else .refuse formatMismatchErr out
  | .zstd =>
      if B.hasZstd then
        let sweller := ZstdSweller.make B.zstd f
        .ofReply .createDCtx (sweller.push input out) out
      else .refuse formatMismatchErr out
  | .lz4Frame => .refuse formatMismatchErr out

/-- The formats served by the backends of a build. -/
def Build.Serves (B : Build) (f : Format) : Prop :=
  (B.hasZlib = true ∧ f ∈ ZlibBackend.formats) ∨
    (B.hasZstd = true ∧ f ∈ ZstdBackend.formats)

instance (B : Build) (f : Format) : Decidable (B.Serves f) :=
  inferInstanceAs (Decidable (_ ∨ _))

theorem mem_formats_or_zstd {B : Build} {f : Format} (serves : B.Serves f) :
    (B.hasZlib = true ∧ f ∈ ZlibBackend.formats) ∨
    (B.hasZstd = true ∧ f = .zstd) := by
  rcases serves with zlib | ⟨has, member⟩
  · exact .inl zlib
  · exact .inr ⟨has, List.mem_singleton.mp member⟩

theorem ne_zstd_of_mem {f : Format} (member : f ∈ ZlibBackend.formats) :
    f ≠ .zstd := by
  intro same
  subst same
  exact absurd member (by decide)

variable {B : Build}

theorem bound_of_zlib {f : Format} {lvl : ZlibLevel} {inSize : Nat}
    (member : f ∈ ZlibBackend.formats) (has : B.hasZlib = true) :
    bound B f lvl inSize = ZlibBackend.bound B.zlib lvl inSize := by
  revert member
  cases f <;> simp [bound, has, ZlibBackend.formats]

theorem bound_of_zstd {lvl : ZlibLevel} {inSize : Nat}
    (has : B.hasZstd = true) :
    bound B .zstd lvl inSize =
      ZstdBackend.bound B.zstd .defaultLevel inSize := by
  simp [bound, has]

theorem squeeze_of_zlib {f : Format} {lvl : ZlibLevel} {input out : Span}
    (member : f ∈ ZlibBackend.formats) (has : B.hasZlib = true) :
    squeeze B f lvl input out =
      if lvl.toInt < 0 ∨ lvl.toInt > 9 then
        .refuse { kind := .levelUnsupported, backend := .zlib, pos := 0,
                  note := "" } out
      else if bound B f lvl input.size = 0 then .refuse formatMismatchErr out
      else if out.size < bound B f lvl input.size
        then .refuse bufferTooSmallErr out
      else patchOs f
        (.ofReply .deflateInit2
          ((ZlibSqueezer.make B.zlib f lvl).push input out) out) := by
  revert member
  cases f <;> simp [squeeze, has, ZlibBackend.formats]

theorem swell_of_zlib {f : Format} {input out : Span}
    (member : f ∈ ZlibBackend.formats) (has : B.hasZlib = true) :
    swell B f input out =
      .ofReply .inflateInit2
        ((ZlibSweller.make B.zlib f).push input out) out := by
  revert member
  cases f <;> simp [swell, has, ZlibBackend.formats]

theorem squeeze_of_zstd {lvl : ZlibLevel} {input out : Span}
    (has : B.hasZstd = true) :
    squeeze B .zstd lvl input out =
      if bound B .zstd lvl input.size = 0 then .refuse formatMismatchErr out
      else if out.size < bound B .zstd lvl input.size
        then .refuse bufferTooSmallErr out
      else .ofReply .createCCtx
        ((ZstdSqueezer.make B.zstd .zstd ⟨lvl.toInt⟩).push input out) out := by
  have sameBound : bound B .zstd .defaultLevel input.size =
      bound B .zstd lvl input.size := by
    rw [bound_of_zstd has, bound_of_zstd has]
  simp only [squeeze, has, ↓reduceIte, sameBound]

theorem swell_of_zstd {input out : Span} (has : B.hasZstd = true) :
    swell B .zstd input out =
      .ofReply .createDCtx
        ((ZstdSweller.make B.zstd .zstd).push input out) out := by
  simp [swell, has]

end Polliwog
