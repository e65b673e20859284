import Polliwog.OneShot.Squeezing
import Polliwog.Session
import Polliwog.Reference.Build

/-!
# The two dispatchers

The one-shot layer and the streaming layer each choose an engine by format and
each check levels, in their own arms.  Their agreement is stated over whole
runs: a stub refuses for ever, and a handle with an engine never refuses a
format or a level.
-/

namespace Polliwog

open Codec

variable {B : Build}

/-- A refusal of the format or of the level. -/
def Rejects {α : Type} (result : Except Error α) : Prop :=
  FailsWith .formatMismatch result ∨ FailsWith .levelUnsupported result

@[simp] theorem rejects_error_iff {α : Type} {e : Error} :
    Rejects (.error e : Except Error α) ↔
      e.kind = .formatMismatch ∨ e.kind = .levelUnsupported := by
  simp [Rejects]

@[simp] theorem not_rejects_ok {α : Type} {value : α} :
    ¬ Rejects (.ok value : Except Error α) := by
  simp [Rejects]

@[simp] theorem rejects_map_iff {α β : Type} {g : α → β}
    {result : Except Error α} :
    Rejects (result.map g) ↔ Rejects result := by
  simp [Rejects]

section Engines

variable {Z : Zlib} {S : Zstd}

theorem ZlibSqueezer.push_not_rejects (h : ZlibSqueezer Z) (input out : Span) :
    ¬ Rejects (h.push input out).result := by
  simp only [ZlibSqueezer.push]
  split <;> simp

theorem ZlibSqueezer.pushMore_not_rejects (h : ZlibSqueezer Z)
    (input out : Span) :
    ¬ Rejects (h.pushMore input out).result := by
  simp only [ZlibSqueezer.pushMore]
  split <;> simp

theorem ZlibSqueezer.flush_not_rejects (h : ZlibSqueezer Z) (out : Span) :
    ¬ Rejects (h.flush out).result := by
  simp only [ZlibSqueezer.flush]
  split <;> simp

theorem ZlibSweller.push_not_rejects (h : ZlibSweller Z) (input out : Span) :
    ¬ Rejects (h.push input out).result := by
  simp only [ZlibSweller.push]
  split
  · split <;> simp
  · split
    · split <;> simp
    · simp

theorem ZlibSweller.pushMore_not_rejects (h : ZlibSweller Z)
    (input out : Span) :
    ¬ Rejects (h.pushMore input out).result := by
  simp only [ZlibSweller.pushMore]
  split
  · simp
  · split <;> simp

theorem ZstdSqueezer.push_not_rejects (h : ZstdSqueezer S) (input out : Span) :
    ¬ Rejects (h.push input out).result := by
  simp only [ZstdSqueezer.push]
  split <;> simp [Zstd.failure]

theorem ZstdSqueezer.pushMore_not_rejects (h : ZstdSqueezer S)
    (input out : Span) :
    ¬ Rejects (h.pushMore input out).result := by
  simp only [ZstdSqueezer.pushMore]
  split <;> simp [Zstd.failure]

theorem ZstdSqueezer.flush_not_rejects (h : ZstdSqueezer S) (out : Span) :
    ¬ Rejects (h.flush out).result := by
  simp only [ZstdSqueezer.flush]
  split <;> simp [Zstd.failure]

theorem ZstdSqueezer.finishLoop_not_rejects {fuel : Nat} {h : ZstdSqueezer S}
    {input : InBuffer} {output : OutBuffer} {written : List UInt8}
    {calls : List EngineCall} {reply : Reply (ZstdSqueezer S) Progress}
    (returned : finishLoop h input output written calls fuel = some reply) :
    ¬ Rejects reply.result := by
  induction fuel generalizing h input output written calls with
  | zero => cases returned
  | succ fuel ih =>
      simp only [finishLoop] at returned
      split at returned
      · cases returned
        simp [Zstd.failure]
      · split at returned
        · cases returned
          simp
        · split at returned
          · exact ih returned
          · cases returned
            simp

theorem ZstdSweller.push_not_rejects (h : ZstdSweller S) (input out : Span) :
    ¬ Rejects (h.push input out).result := by
  simp only [ZstdSweller.push]
  split <;> simp [Zstd.failure]

theorem ZstdSweller.pushMore_not_rejects (h : ZstdSweller S)
    (input out : Span) :
    ¬ Rejects (h.pushMore input out).result := by
  simp only [ZstdSweller.pushMore]
  split
  · simp [Zstd.failure]
  · split <;> simp

end Engines

namespace SqueezerVariant

/-- Whether there is an engine behind the handle. -/
def IsStub : SqueezerVariant B → Prop
  | .zlibStubSqueezer | .zstdStubSqueezer => True
  | _ => False

end SqueezerVariant

namespace SwellerVariant

def IsStub : SwellerVariant B → Prop
  | .zlibStubSweller | .zstdStubSweller => True
  | _ => False

end SwellerVariant

/-- What a stub answers. -/
def Refused {σ ρ : Type} (reply : Reply σ ρ) : Prop :=
  FailsWith .formatMismatch reply.result ∧ reply.calls = []

theorem Reply.refused_stub {σ ρ : Type} (handle : σ) :
    Refused (Reply.stub handle : Reply σ ρ) := by
  simp [Refused, Reply.stub, formatMismatchErr]

namespace Compressor

theorem step_stub {c c' : Compressor B} {request : Request}
    {reply : Reply (Compressor B) StreamResult} (stub : c.handle.IsStub)
    (step : c.Step request reply c') : Refused reply ∧ c'.handle.IsStub := by
  obtain ⟨returned, rfl⟩ := step
  obtain ⟨handle⟩ := c
  cases handle with
  | zlibSqueezer h => exact stub.elim
  | zstdSqueezer h => exact stub.elim
  | zlibStubSqueezer =>
      cases request <;> cases returned <;>
        exact ⟨Reply.refused_stub _, trivial⟩
  | zstdStubSqueezer =>
      cases request <;> cases returned <;>
        exact ⟨Reply.refused_stub _, trivial⟩

theorem step_engine {c c' : Compressor B} {request : Request}
    {reply : Reply (Compressor B) StreamResult} (engine : ¬ c.handle.IsStub)
    (step : c.Step request reply c') :
    ¬ Rejects reply.result ∧ ¬ c'.handle.IsStub := by
  obtain ⟨returned, rfl⟩ := step
  obtain ⟨handle⟩ := c
  cases handle with
  | zlibStubSqueezer => exact absurd trivial engine
  | zstdStubSqueezer => exact absurd trivial engine
  | zlibSqueezer h =>
      cases request <;> cases returned <;> refine ⟨?_, id⟩
      · simpa [push, SqueezerVariant.pushVisitor,
          Reply.map] using h.pushMore_not_rejects _ _
      · simpa [flush, SqueezerVariant.flushVisitor,
          Reply.map] using h.flush_not_rejects _
      · simpa [finish, SqueezerVariant.finishVisitor, Reply.map,
          ZlibSqueezer.finish] using h.push_not_rejects .empty _
  | zstdSqueezer h =>
      cases request with
      | push input out =>
          cases returned
          refine ⟨?_, id⟩
          simpa [push, SqueezerVariant.pushVisitor, Reply.map] using
            h.pushMore_not_rejects _ _
      | flush out =>
          cases returned
          refine ⟨?_, id⟩
          simpa [flush, SqueezerVariant.flushVisitor, Reply.map] using
            h.flush_not_rejects _
      | finish out =>
          simp only [call, finish, SqueezerVariant.finishVisitor,
            Option.map_eq_some_iff, Option.map_map] at returned
          obtain ⟨inner, finished, rfl⟩ := returned
          refine ⟨?_, id⟩
          simpa [Reply.map] using ZstdSqueezer.finishLoop_not_rejects finished

theorem run_stub {c c' : Compressor B}
    {trace : List (Request × Reply (Compressor B) StreamResult)}
    (stub : c.handle.IsStub) (run : Run Step c trace c') :
    ∀ entry ∈ trace, Refused entry.2 :=
  (run.always (fun c => c.handle.IsStub)
    (fun _ reply => Refused reply) step_stub stub).1

theorem run_engine {c c' : Compressor B}
    {trace : List (Request × Reply (Compressor B) StreamResult)}
    (engine : ¬ c.handle.IsStub) (run : Run Step c trace c') :
    ∀ entry ∈ trace, ¬ Rejects entry.2.result :=
  (run.always (fun c => ¬ c.handle.IsStub)
    (fun _ reply => ¬ Rejects reply.result) step_engine engine).1

end Compressor

namespace Decompressor

theorem step_stub {d d' : Decompressor B} {request : Request}
    {reply : Reply (Decompressor B) StreamResult} (stub : d.handle.IsStub)
    (step : d.Step request reply d') : Refused reply ∧ d'.handle.IsStub := by
  obtain ⟨rfl, rfl⟩ := step
  obtain ⟨handle⟩ := d
  cases handle with
  | zlibSweller h => exact stub.elim
  | zstdSweller h => exact stub.elim
  | zlibStubSweller => exact ⟨Reply.refused_stub _, trivial⟩
  | zstdStubSweller => exact ⟨Reply.refused_stub _, trivial⟩

theorem step_engine {d d' : Decompressor B} {request : Request}
    {reply : Reply (Decompressor B) StreamResult} (engine : ¬ d.handle.IsStub)
    (step : d.Step request reply d') :
    ¬ Rejects reply.result ∧ ¬ d'.handle.IsStub := by
  obtain ⟨rfl, rfl⟩ := step
  obtain ⟨handle⟩ := d
  cases handle with
  | zlibStubSweller => exact absurd trivial engine
  | zstdStubSweller => exact absurd trivial engine
  | zlibSweller h =>
      refine ⟨?_, id⟩
      simpa [push, SwellerVariant.pushVisitor,
        Reply.map] using h.pushMore_not_rejects _ _
  | zstdSweller h =>
      refine ⟨?_, id⟩
      simpa [push, SwellerVariant.pushVisitor,
        Reply.map] using h.pushMore_not_rejects _ _

theorem run_stub {c c' : Decompressor B}
    {trace : List (Request × Reply (Decompressor B) StreamResult)}
    (stub : c.handle.IsStub) (run : Run Step c trace c') :
    ∀ entry ∈ trace, Refused entry.2 :=
  (run.always (fun c => c.handle.IsStub)
    (fun _ reply => Refused reply) step_stub stub).1

theorem run_engine {c c' : Decompressor B}
    {trace : List (Request × Reply (Decompressor B) StreamResult)}
    (engine : ¬ c.handle.IsStub) (run : Run Step c trace c') :
    ∀ entry ∈ trace, ¬ Rejects entry.2.result :=
  (run.always (fun c => ¬ c.handle.IsStub)
    (fun _ reply => ¬ Rejects reply.result) step_engine engine).1

end Decompressor

theorem isStub_makeSqueezer_iff {f : Format} {lvl : ZlibLevel} :
    (makeSqueezer B f lvl).IsStub ↔
      if f = .zstd then B.hasZstd = false else B.hasZlib = false := by
  cases f <;> cases zlib : B.hasZlib <;> cases zstd : B.hasZstd <;>
    simp [makeSqueezer, SqueezerVariant.IsStub, zlib, zstd]

theorem isStub_makeSweller_iff {f : Format} :
    (makeSweller B f).IsStub ↔
      if f = .zstd then B.hasZstd = false else B.hasZlib = false := by
  cases f <;> cases zlib : B.hasZlib <;> cases zstd : B.hasZstd <;>
    simp [makeSweller, SwellerVariant.IsStub, zlib, zstd]

/-- The levels of the backend that serves a format. -/
def Build.InRange (B : Build) (f : Format) (lvl : ZlibLevel) : Prop :=
  (f ∈ ZlibBackend.formats → 0 ≤ lvl.toInt ∧ lvl.toInt ≤ 9) ∧
    (f ∈ ZstdBackend.formats →
      B.zstd.minCLevel ≤ lvl.toInt ∧ lvl.toInt ≤ B.zstd.maxCLevel)

/-- Both layers refuse the format, whatever is asked of them, and drive no
engine. -/
structure RefusesFormat (B : Build) (f : Format) (lvl : ZlibLevel) : Prop where
  squeeze : ∀ input out,
    FailsWith .formatMismatch (squeeze B f lvl input out).result ∧
      (squeeze B f lvl input out).calls = []
  swell : ∀ input out,
    FailsWith .formatMismatch (swell B f input out).result ∧
    (swell B f input out).calls = []
  constructs : (Compressor.construct B f lvl).calls = [] ∧
    (makeSweller B f).opening = []
  compressor : ∀ c, (Compressor.construct B f lvl).object = .ok c →
    ∀ trace c', Run Compressor.Step c trace c' →
    ∀ entry ∈ trace, Refused entry.2
  decompressor : ∀ trace d',
    Run Decompressor.Step (Decompressor.construct B f) trace d' →
    ∀ entry ∈ trace, Refused entry.2

/-- Both layers refuse the level, before any engine is driven. -/
structure RefusesLevel (B : Build) (f : Format) (lvl : ZlibLevel) : Prop where
  squeeze : ∀ input out,
    FailsWith .levelUnsupported (squeeze B f lvl input out).result ∧
      (squeeze B f lvl input out).calls = []
  construct : (∃ e, (Compressor.construct B f lvl).object = .error e) ∧
    (Compressor.construct B f lvl).calls = []

/-- Neither layer refuses the format or the level. -/
structure Admits (B : Build) (f : Format) (lvl : ZlibLevel) : Prop where
  squeeze : ∀ input out, ¬ Rejects (squeeze B f lvl input out).result
  swell : ∀ input out, ¬ Rejects (swell B f input out).result
  compressor : ∃ c, (Compressor.construct B f lvl).object = .ok c ∧
    ∀ trace c', Run Compressor.Step c trace c' →
    ∀ entry ∈ trace, ¬ Rejects entry.2.result
  decompressor : ∀ trace d',
    Run Decompressor.Step (Decompressor.construct B f) trace d' →
    ∀ entry ∈ trace, ¬ Rejects entry.2.result

/-- The two layers admit the same formats and levels: those of the backends
that were compiled in. -/
structure DispatchAgrees (B : Build) (f : Format) (lvl : ZlibLevel) : Prop where
  unserved : ¬ B.Serves f → RefusesFormat B f lvl
  outside : B.Serves f → ¬ B.InRange f lvl → RefusesLevel B f lvl
  inside : B.Serves f → B.InRange f lvl → Admits B f lvl

theorem SizeLaws.zstdBound_pos (laws : SizeLaws B) {lvl : ZlibLevel}
    (input : Span) (has : B.hasZstd = true) :
    0 < bound B .zstd lvl input.size := by
  rw [bound_of_zstd has]
  simp only [ZstdBackend.bound]
  cases failed : B.zstd.isError (B.zstd.compressBound input.size) with
  | true => simp
  | false =>
      obtain ⟨isOk, written⟩ :=
        laws.oneShot.compress_roomy _ input.bytes lvl.toInt failed le_rfl
      obtain ⟨-, complete, -⟩ :=
        laws.oneShot.compress_ok _ input.bytes lvl.toInt isOk
      rw [written] at complete
      have nonempty : laws.oneShot.frame lvl.toInt input.bytes ≠ [] := by
        intro blank
        rw [blank] at complete
        exact laws.frames.not_complete_nil complete
      have positive := List.length_pos_iff.mpr nonempty
      have covered := laws.oneShot.frame_le input.bytes lvl.toInt failed
      simp only [Bool.false_eq_true, ↓reduceIte]
      exact positive.trans_le covered

theorem SizeLaws.bound_pos (laws : SizeLaws B) {f : Format}
    (serves : B.Serves f) (lvl : ZlibLevel) (input : Span) :
    0 < bound B f lvl input.size := by
  rcases mem_formats_or_zstd serves with ⟨has, member⟩ | ⟨has, rfl⟩
  · rw [bound_of_zlib member has]
    exact laws.zlibBound_pos lvl input.size
  · exact laws.zstdBound_pos input has

variable {f : Format} {lvl : ZlibLevel}

/-- Without an engine for the format, and without the zlib default of the
streaming layer, everything is refused. -/
theorem refusesFormat (unserved : ¬ B.Serves f)
    (noDefault : ¬ (f = .lz4Frame ∧ B.hasZlib = true)) :
    RefusesFormat B f lvl := by
  have noEngine : if f = .zstd then B.hasZstd = false
      else B.hasZlib = false := by
    cases f <;> simp_all [Build.Serves, ZlibBackend.formats,
      ZstdBackend.formats]
  have stubSqueezer : (makeSqueezer B f lvl).IsStub :=
    isStub_makeSqueezer_iff.mpr noEngine
  have stubSweller : (makeSweller B f).IsStub :=
    isStub_makeSweller_iff.mpr noEngine
  refine ⟨?_, ?_, ⟨?_, ?_⟩, ?_, ?_⟩
  · intro input out
    cases f <;> simp_all [squeeze, OneShot.refuse, formatMismatchErr]
  · intro input out
    cases f <;> simp_all [swell, OneShot.refuse, formatMismatchErr]
  · have idle : (makeSqueezer B f lvl).opening = [] := by
      cases f <;> simp_all [makeSqueezer, SqueezerVariant.opening]
    unfold Compressor.construct
    split
    · rfl
    · exact idle
  · cases f <;> simp_all [makeSweller, SwellerVariant.opening]
  · intro c constructed trace c' run
    have stub : c.handle.IsStub := by
      unfold Compressor.construct at constructed
      split at constructed
      · cases constructed
      · cases constructed
        exact stubSqueezer
    exact Compressor.run_stub stub run
  · intro trace d' run
    exact Decompressor.run_stub stubSweller run

theorem refusesLevel (has : B.hasZlib = true) (member : f ∈ ZlibBackend.formats)
    (outside : ¬ B.InRange f lvl) : RefusesLevel B f lvl := by
  have notZstd : f ∉ ZstdBackend.formats := fun isZstd =>
    ne_zstd_of_mem member (List.mem_singleton.mp isZstd)
  have wrong : lvl.toInt < 0 ∨ lvl.toInt > 9 := by
    simp only [Build.InRange, member, notZstd, true_implies, false_implies,
      and_true] at outside
    omega
  refine ⟨?_, ?_⟩
  · intro input out
    rw [squeeze_of_zlib member has, if_pos wrong]
    simp [OneShot.refuse]
  · have rejected : f ≠ .zstd ∧ (lvl.toInt < 0 ∨ lvl.toInt > 9) :=
      ⟨ne_zstd_of_mem member, wrong⟩
    simp [Compressor.construct, rejected]

theorem squeeze_not_rejects (laws : SizeLaws B) (serves : B.Serves f)
    (accepted : Accepts f lvl) (input out : Span) :
    ¬ Rejects (squeeze B f lvl input out).result := by
  have positive := laws.bound_pos serves lvl input
  rcases mem_formats_or_zstd serves with ⟨has, member⟩ | ⟨has, rfl⟩
  · have inRange := accepted member
    rw [squeeze_of_zlib member has, if_neg (by omega), if_neg (by omega)]
    split
    · simp [OneShot.refuse, bufferTooSmallErr]
    · simpa [OneShot.ofReply] using ZlibSqueezer.push_not_rejects _ _ _
  · rw [squeeze_of_zstd has, if_neg (by omega)]
    split
    · simp [OneShot.refuse, bufferTooSmallErr]
    · simpa [OneShot.ofReply] using ZstdSqueezer.push_not_rejects _ _ _

theorem swell_not_rejects (serves : B.Serves f) (input out : Span) :
    ¬ Rejects (swell B f input out).result := by
  rcases mem_formats_or_zstd serves with ⟨has, member⟩ | ⟨has, rfl⟩
  · rw [swell_of_zlib member has]
    simpa [OneShot.ofReply] using ZlibSweller.push_not_rejects _ _ _
  · rw [swell_of_zstd has]
    simpa [OneShot.ofReply] using ZstdSweller.push_not_rejects _ _ _

/-- With an engine and a level of its range, nothing is refused. -/
theorem admits (laws : SizeLaws B) (serves : B.Serves f)
    (inside : B.InRange f lvl) :
    Admits B f lvl := by
  have engine : ¬ if f = .zstd then B.hasZstd = false
      else B.hasZlib = false := by
    rcases mem_formats_or_zstd serves with ⟨has, member⟩ | ⟨has, rfl⟩
    · simp [ne_zstd_of_mem member, has]
    · simp [has]
  have accepted : ¬ (f ≠ .zstd ∧ (lvl.toInt < 0 ∨ lvl.toInt > 9)) := by
    rcases mem_formats_or_zstd serves with ⟨-, member⟩ | ⟨-, rfl⟩
    · have inRange := inside.1 member
      omega
    · simp
  refine ⟨squeeze_not_rejects laws serves inside.1,
    swell_not_rejects serves, ?_, ?_⟩
  · refine ⟨Compressor.of B f lvl, ?_, ?_⟩
    · rw [Compressor.construct, if_neg accepted]
    · intro trace c' run
      exact Compressor.run_engine (mt isStub_makeSqueezer_iff.mp engine) run
  · intro trace d' run
    exact Decompressor.run_engine (mt isStub_makeSweller_iff.mp engine) run

/-- The two layers agree unless the streaming layer sends a format without an
engine to zlib, or zstd is asked for a level that it would clamp. -/
theorem dispatch_agrees_iff (laws : SizeLaws B) (f : Format) (lvl : ZlibLevel) :
    DispatchAgrees B f lvl ↔
      ¬ (f = .lz4Frame ∧ B.hasZlib = true) ∧
        ¬ (f = .zstd ∧ B.hasZstd = true ∧
          (lvl.toInt < B.zstd.minCLevel ∨ B.zstd.maxCLevel < lvl.toInt)) := by
  constructor
  · intro agrees
    refine ⟨?_, ?_⟩
    · intro isDefault
      obtain ⟨rfl, has⟩ := isDefault
      have unserved : ¬ B.Serves .lz4Frame := by
        simp [Build.Serves, ZlibBackend.formats, ZstdBackend.formats]
      have engine : ¬ (Decompressor.construct B .lz4Frame).handle.IsStub := by
        simp [Decompressor.construct, isStub_makeSweller_iff, has]
      let d := Decompressor.construct B .lz4Frame
      have run : Run Decompressor.Step d
          [(⟨.empty, .empty⟩, d.push .empty .empty)]
          (d.push .empty .empty).handle :=
        .one ⟨rfl, rfl⟩
      have refused := (agrees.unserved unserved).decompressor _ _ run _
        (List.mem_singleton.mpr rfl)
      exact Decompressor.run_engine engine run _ (List.mem_singleton.mpr rfl)
        (.inl refused.1)
    · intro isClamped
      obtain ⟨rfl, has, clamped⟩ := isClamped
      have serves : B.Serves .zstd := .inr ⟨has, List.mem_singleton.mpr rfl⟩
      have outside : ¬ B.InRange .zstd lvl := by
        intro isClamped
        obtain ⟨-, inRange⟩ := isClamped
        have within := inRange (List.mem_singleton.mpr rfl)
        omega
      have accepted : Accepts .zstd lvl :=
        fun member => absurd member (by decide)
      exact squeeze_not_rejects laws serves accepted .empty .empty
        (.inr ((agrees.outside serves outside).squeeze .empty .empty).1)
  · intro neither
    obtain ⟨noDefault, noClamp⟩ := neither
    refine ⟨fun unserved => refusesFormat unserved noDefault, ?_, admits laws⟩
    intro serves outside
    rcases mem_formats_or_zstd serves with ⟨has, member⟩ | ⟨has, rfl⟩
    · exact refusesLevel has member outside
    · exfalso
      apply outside
      refine ⟨fun member => absurd member (by decide), fun _ => ?_⟩
      have within : ¬ (lvl.toInt < B.zstd.minCLevel ∨
          B.zstd.maxCLevel < lvl.toInt) :=
        fun clamped => noClamp ⟨rfl, has, clamped⟩
      omega

/-- At level 6 of gzip and of zstd the layers agree. -/
theorem dispatch_agrees_six :
    DispatchAgrees unixBuild .gzip ⟨6⟩ ∧ DispatchAgrees unixBuild .zstd ⟨6⟩ :=
  ⟨(dispatch_agrees_iff unixLaws.sizing .gzip ⟨6⟩).mpr (by decide),
    (dispatch_agrees_iff unixLaws.sizing .zstd ⟨6⟩).mpr (by decide)⟩

/-- A compressor for a frame of LZ4 makes a zlib stream, and level 23 of zstd is
squeezed as if it were 22. -/
theorem not_dispatch_agrees :
    ¬ DispatchAgrees unixBuild .lz4Frame ⟨6⟩ ∧
    ¬ DispatchAgrees unixBuild .zstd ⟨23⟩ := by
  constructor
  · intro agrees
    have unserved : ¬ unixBuild.Serves .lz4Frame := by decide
    have constructed : (Compressor.construct unixBuild .lz4Frame ⟨6⟩).object =
        .ok (.of unixBuild .lz4Frame ⟨6⟩) := rfl
    let c := Compressor.of unixBuild .lz4Frame ⟨6⟩
    let reply := c.push fiveBytes (.zeros 32 (by decide))
    have served : reply.result =
        .ok { bytesConsumed := 5, bytesProduced := 2, done := false } := by
      decide
    have run : Run Compressor.Step c
        [(.push fiveBytes (.zeros 32 (by decide)), reply)] reply.handle :=
      .one ⟨rfl, rfl⟩
    have refused :=
      (agrees.unserved unserved).compressor c constructed _ _ run _
      (List.mem_singleton.mpr rfl)
    rw [Refused, served] at refused
    exact FailsWith.not_ok refused.1
  · intro agrees
    have serves : unixBuild.Serves .zstd := by decide
    have outside : ¬ unixBuild.InRange .zstd ⟨23⟩ := by
      intro isClamped
      obtain ⟨-, inRange⟩ := isClamped
      exact absurd (inRange (List.mem_singleton.mpr rfl)).2 (by decide)
    have squeezed :
        (squeeze unixBuild .zstd ⟨23⟩ fiveBytes
          (.zeros 72 (by decide))).result =
        .ok ⟨14⟩ := by
      decide
    have refused :=
      ((agrees.outside serves outside).squeeze fiveBytes
        (.zeros 72 (by decide))).1
    rw [squeezed] at refused
    exact FailsWith.not_ok refused

end Polliwog
