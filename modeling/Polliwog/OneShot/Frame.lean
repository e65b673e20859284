import Polliwog.Dispatch

/-!
# What a squeeze refuses and what it touches

The refusals come before any engine and leave the output span alone.  After
them only the front of the span changes, by what was reported written, and of
that only the operating system of a gzip header is not the engine's own.
-/

namespace Polliwog

open Codec

variable {B : Build}

/-- The refusal of a squeeze, by the first check that fails. -/
def refusal (B : Build) (f : Format) (lvl : ZlibLevel) (inSize outSize : Nat) :
    Option Kind :=
  if ¬ B.Serves f then some .formatMismatch
  else if f ∈ ZlibBackend.formats ∧ (lvl.toInt < 0 ∨ lvl.toInt > 9)
    then some .levelUnsupported
  else if outSize < bound B f lvl inSize then some .bufferTooSmall
  else none

/-- The kinds of a refusal. -/
def Kind.IsRefusal (kind : Kind) : Prop :=
  kind = .formatMismatch ∨ kind = .levelUnsupported ∨ kind = .bufferTooSmall

instance (kind : Kind) : Decidable kind.IsRefusal :=
  inferInstanceAs (Decidable (_ ∨ _))

/-- What the engine of a format stores when it is driven. -/
def engineStores (B : Build) (f : Format) (lvl : ZlibLevel) (input out : Span) :
    List UInt8 :=
  if f = .zstd then (B.zstd.compress out.size input.bytes lvl.toInt).written
  else (B.zlib.deflate ((ZlibSqueezer.make B.zlib f lvl).stream.load input out)
    .finish).written

/-- The memory of `out` after a call that stored `stored` at its front, but for
the patch. -/
structure Framed (f : Format) (out : Span) (stored after : List UInt8) :
    Prop where
  length : after.length = out.size
  beyond : ∀ i, stored.length ≤ i → after[i]? = out.bytes[i]?
  patched : f = .gzip → 10 ≤ stored.length → after[9]? = some 0xff
  verbatim : ∀ i, i < stored.length → ¬ (f = .gzip ∧ i = 9) →
    after[i]? = stored[i]?

/-- What a squeeze that got past its checks does. -/
structure Drives (B : Build) (f : Format) (lvl : ZlibLevel) (input out : Span) :
    Prop where
  notRefused : ∀ kind, kind.IsRefusal →
    ¬ FailsWith kind (squeeze B f lvl input out).result
  windows : ∀ call ∈ (squeeze B f lvl input out).calls, call.room ≤ out.size
  served : ∀ n, (squeeze B f lvl input out).result = .ok ⟨n⟩ →
    n ≤ out.size ∧ n = (engineStores B f lvl input out).length ∧
      Framed f out (engineStores B f lvl input out)
        (squeeze B f lvl input out).out

theorem refusal_eq_none_iff {f : Format} {lvl : ZlibLevel}
    {inSize outSize : Nat} :
    refusal B f lvl inSize outSize = none ↔
      B.Serves f ∧ Accepts f lvl ∧ bound B f lvl inSize ≤ outSize := by
  have accepts : Accepts f lvl ↔
      ¬ (f ∈ ZlibBackend.formats ∧ (lvl.toInt < 0 ∨ lvl.toInt > 9)) := by
    simp only [Accepts, not_and, not_or, not_lt]
  rw [accepts, ← Nat.not_lt]
  unfold refusal
  split_ifs <;> simp_all

@[simp] theorem patchOs_calls (f : Format) (call : OneShot) :
    (patchOs f call).calls = call.calls := by
  unfold patchOs
  split
  · rfl
  · split <;> rfl

/-- Storing within the span frames it, and so does the patch of a long enough
gzip stream. -/
theorem framed_patchOs {σ : Type} (f : Format) (opened : Entry) {out : Span}
    {reply : Reply σ Progress} {r : Progress} (ok : reply.result = .ok r)
    (exact : r.bytesOut = reply.written.length)
    (within : reply.written.length ≤ out.size) :
    Framed f out reply.written (patchOs f (.ofReply opened reply out)).out := by
  have result : (OneShot.ofReply opened reply out).result = .ok ⟨r.bytesOut⟩ :=
    OneShot.result_of_ok ok
  have length : (out.overwrite reply.written).length = out.size :=
    Span.length_overwrite within
  have beyond (i : Nat) (past : reply.written.length ≤ i) :
      (out.overwrite reply.written)[i]? = out.bytes[i]? := by
    rw [Span.overwrite, List.getElem?_append_right past, List.getElem?_drop,
      Nat.add_sub_cancel' past]
  have verbatim (i : Nat) (inside : i < reply.written.length) :
      (out.overwrite reply.written)[i]? = reply.written[i]? :=
    List.getElem?_append_left inside
  unfold patchOs
  rw [result]
  by_cases stamped : f = .gzip ∧ 10 ≤ r.bytesOut
  · have long : 10 ≤ reply.written.length := exact ▸ stamped.2
    simp only [stamped, and_self, ↓reduceIte, OneShot.ofReply]
    constructor
    · rw [List.length_set, length]
    · intro i past
      rw [List.getElem?_set_ne (by omega), beyond i past]
    · intro _ _
      exact List.getElem?_set_self (by omega)
    · intro i inside notOs
      have other : 9 ≠ i := fun same => notOs ⟨rfl, same.symm⟩
      rw [List.getElem?_set_ne other, verbatim i inside]
  · simp only [stamped, ↓reduceIte, OneShot.ofReply]
    constructor
    · exact length
    · exact beyond
    · intro isGzip long
      exact absurd ⟨isGzip, exact.symm ▸ long⟩ stamped
    · intro i inside _
      exact verbatim i inside

theorem patchOs_of_ne {f : Format} (notGzip : f ≠ .gzip) (call : OneShot) :
    patchOs f call = call := by
  unfold patchOs
  cases call.result with
  | error e => rfl
  | ok r => exact if_neg fun stamped => notGzip stamped.1

theorem drives_of_reply {σ : Type} {f : Format} {lvl : ZlibLevel}
    {input out : Span} {opened : Entry} {reply : Reply σ Progress}
    (driven : squeeze B f lvl input out = patchOs f (.ofReply opened reply out))
    (stores : engineStores B f lvl input out = reply.written)
    (notRefused : ∀ kind, kind.IsRefusal → ¬ FailsWith kind reply.result)
    (windows : ∀ call ∈ reply.calls, call.room ≤ out.size)
    (within : reply.written.length ≤ out.size)
    (exact : ∀ r, reply.result = .ok r → r.bytesOut = reply.written.length) :
    Drives B f lvl input out := by
  constructor
  · intro kind isRefusal refused
    rw [driven, patchOs_result, OneShot.ofReply, FailsWith.map_iff] at refused
    exact notRefused kind isRefusal refused
  · intro call listed
    rw [driven, patchOs_calls] at listed
    rcases List.mem_cons.mp listed with opening | pushed
    · rw [opening]
      exact Nat.zero_le _
    · exact windows call pushed
  · intro n ok
    rw [driven, patchOs_result] at ok
    obtain ⟨r, result, count⟩ := OneShot.ok_of_result ok
    have counted := exact r result
    rw [driven, stores]
    refine ⟨?_, ?_, framed_patchOs f opened result counted within⟩
    · omega
    · omega

section Engines

variable (sizing : SizeLaws B) {f : Format} {lvl : ZlibLevel} {input out : Span}

include sizing

theorem drives_zlib (counters : DeflateCounters B.zlib)
    (member : f ∈ ZlibBackend.formats) (accepted : Accepts f lvl)
    (has : B.hasZlib = true) (roomy : bound B f lvl input.size ≤ out.size) :
    Drives B f lvl input out := by
  have roomLe := uInt_le out.size
  have writtenLe :
      ((ZlibSqueezer.make B.zlib f lvl).push input out).written.length ≤
      uInt out.size :=
    (counters.windows _ .finish).2
  apply drives_of_reply (sizing.squeeze_roomy member has roomy accepted)
  · exact if_neg (ne_zstd_of_mem member)
  · intro kind isRefusal fails
    obtain ⟨e, failed, same⟩ := fails
    simp only [ZlibSqueezer.push] at failed
    split at failed
    · cases failed
      subst same
      revert isRefusal
      decide
    · cases failed
  · intro call listed
    rw [List.mem_singleton.mp listed]
    exact roomLe
  · exact writtenLe.trans roomLe
  · intro r ok
    exact counters.fresh_push_counts member accepted ok

theorem drives_zstd (has : B.hasZstd = true)
    (roomy : bound B .zstd lvl input.size ≤ out.size) :
    Drives B .zstd lvl input out := by
  have positive : 0 < bound B .zstd lvl input.size :=
    sizing.zstdBound_pos input has
  have driven : squeeze B .zstd lvl input out =
      patchOs .zstd (.ofReply .createCCtx
      ((ZstdSqueezer.make B.zstd .zstd ⟨lvl.toInt⟩).push input out) out) := by
    rw [squeeze_of_zstd has, if_neg (by omega), if_neg (by omega),
      patchOs_of_ne (by decide)]
  apply drives_of_reply driven
  · exact if_pos rfl
  · intro kind isRefusal fails
    obtain ⟨e, failed, same⟩ := fails
    simp only [ZstdSqueezer.push] at failed
    split at failed
    · cases failed
      subst same
      revert isRefusal
      simp only [Zstd.failure]
      decide
    · cases failed
  · intro call listed
    rw [List.mem_singleton.mp listed]
  · exact sizing.oneShot.compress_room out.size input.bytes lvl.toInt
  · intro r ok
    simp only [ZstdSqueezer.push] at ok
    split at ok
    case isTrue => cases ok
    case isFalse isOk =>
      cases ok
      exact (sizing.oneShot.compress_ok out.size input.bytes lvl.toInt
        (Bool.eq_false_iff.mpr isOk)).1.symm

theorem drives_of_refusal (counters : DeflateCounters B.zlib)
    (passed : refusal B f lvl input.size out.size = none) :
    Drives B f lvl input out := by
  obtain ⟨serves, accepted, roomy⟩ := refusal_eq_none_iff.mp passed
  rcases mem_formats_or_zstd serves with ⟨has, member⟩ | ⟨has, rfl⟩
  · exact drives_zlib sizing counters member accepted has roomy
  · exact drives_zstd sizing has roomy

/-- What a check refuses is refused with its kind. -/
theorem refuses_of_refusal {kind : Kind}
    (refused : refusal B f lvl input.size out.size = some kind) :
    ∃ e, squeeze B f lvl input out = .refuse e out ∧ e.kind = kind := by
  by_cases serves : B.Serves f
  case neg =>
    rw [refusal, if_pos serves] at refused
    cases refused
    refine ⟨formatMismatchErr, ?_, rfl⟩
    cases f <;> simp_all [squeeze, Build.Serves, ZlibBackend.formats,
      ZstdBackend.formats]
  have positive := sizing.bound_pos serves lvl input
  rw [refusal, if_neg (not_not.mpr serves)] at refused
  rcases mem_formats_or_zstd serves with ⟨has, member⟩ | ⟨has, rfl⟩
  · by_cases outside : lvl.toInt < 0 ∨ lvl.toInt > 9
    · rw [if_pos ⟨member, outside⟩] at refused
      cases refused
      rw [squeeze_of_zlib member has, if_pos outside]
      exact ⟨_, rfl, rfl⟩
    · rw [if_neg fun wrong => outside wrong.2] at refused
      rw [squeeze_of_zlib member has, if_neg outside, if_neg (by omega)]
      split at refused
      case isTrue short =>
        cases refused
        rw [if_pos short]
        exact ⟨_, rfl, rfl⟩
      case isFalse => cases refused
  · rw [if_neg fun wrong => ne_zstd_of_mem wrong.1 rfl] at refused
    rw [squeeze_of_zstd has, if_neg (by omega)]
    split at refused
    case isTrue short =>
      cases refused
      rw [if_pos short]
      exact ⟨_, rfl, rfl⟩
    case isFalse => cases refused

end Engines

/-- The refusals of a squeeze are the three checks in order, before any engine
is driven and before a byte of the span is touched.  What gets past them is
driven inside the span. -/
theorem squeeze_frame (sizing : SizeLaws B) (counters : DeflateCounters B.zlib)
    (f : Format) (lvl : ZlibLevel) (input out : Span) :
    (∀ kind, kind.IsRefusal →
      (FailsWith kind (squeeze B f lvl input out).result ↔
        refusal B f lvl input.size out.size = some kind)) ∧
      (∀ kind, refusal B f lvl input.size out.size = some kind →
        (squeeze B f lvl input out).calls = [] ∧
          (squeeze B f lvl input out).out = out.bytes) ∧
      (refusal B f lvl input.size out.size = none →
        Drives B f lvl input out) := by
  cases decided : refusal B f lvl input.size out.size with
  | none =>
      have drives := drives_of_refusal sizing counters decided
      refine ⟨?_, ?_, fun _ => drives⟩
      · intro kind isRefusal
        exact iff_of_false (drives.notRefused kind isRefusal) (by simp)
      · intro kind refused
        cases refused
  | some kind =>
      obtain ⟨e, refused, same⟩ := refuses_of_refusal sizing decided
      rw [refused, OneShot.refuse]
      refine ⟨?_, ?_, ?_⟩
      · intro kind' _
        simp [← same]
      · intro kind' _
        exact ⟨rfl, rfl⟩
      · intro passed
        cases passed

/-- Level 10 is refused and touches nothing; level 0 is driven inside the span.
-/
theorem squeeze_frame_gzip :
    FailsWith .levelUnsupported
        (squeeze unixBuild .gzip ⟨10⟩ fiveBytes
          (.zeros 40 (by decide))).result ∧
      (squeeze unixBuild .gzip ⟨10⟩ fiveBytes (.zeros 40 (by decide))).out =
        (Span.zeros 40 (by decide)).bytes ∧
      Drives unixBuild .gzip ⟨0⟩ fiveBytes (.zeros 40 (by decide)) := by
  obtain ⟨kinds, untouched, -⟩ := squeeze_frame unixLaws.sizing
    unixLaws.deflate.toDeflateCounters .gzip ⟨10⟩ fiveBytes
      (.zeros 40 (by decide))
  obtain ⟨-, -, drives⟩ := squeeze_frame unixLaws.sizing
    unixLaws.deflate.toDeflateCounters .gzip ⟨0⟩ fiveBytes
      (.zeros 40 (by decide))
  exact ⟨(kinds .levelUnsupported (by decide)).mpr (by decide),
    (untouched .levelUnsupported (by decide)).2, drives (by decide)⟩

end Polliwog
