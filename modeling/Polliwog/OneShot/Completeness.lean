import Polliwog.OneShot.Squeezing
import Polliwog.Reference.Build

/-!
# When a successful squeeze is a complete one

The engine of a one-shot call reports its end and what it consumed, and both
reports are dropped.  Success therefore stands for a whole stream only where
neither span is narrowed below what the stream needs.
-/

namespace Polliwog

open Codec

variable {B : Build}

/-- What success should mean: the engine consumed the input and ended the
stream, and the reported bytes are that whole stream. -/
def WholeOnSuccess (laws : EncodingLaws B) (f : Format) (lvl : ZlibLevel)
    (input out : Span) : Prop :=
  ∀ n, (squeeze B f lvl input out).result = .ok ⟨n⟩ →
    (laws.wire f).Complete ((squeeze B f lvl input out).out.take n) ∧
      (laws.wire f).content ((squeeze B f lvl input out).out.take n) =
        input.bytes ∧
      ∃ call ∈ (squeeze B f lvl input out).calls,
        call.taken = input.size ∧ call.ended = true

/-- Success means completeness exactly when the call is zstd's, or is refused
for an empty window, or narrows neither the input nor the room of its stream. -/
theorem whole_on_success_iff (laws : EncodingLaws B) {f : Format}
    {lvl : ZlibLevel} {input out : Span} (serves : B.Serves f)
    (accepted : Accepts f lvl) (roomy : bound B f lvl input.size ≤ out.size) :
    WholeOnSuccess laws f lvl input out ↔
      f = .zstd ∨ uInt out.size = 0 ∨
        (input.size < 2 ^ 32 ∧
          (laws.packed f lvl input).length ≤ uInt out.size) := by
  rcases mem_formats_or_zstd serves with ⟨has, member⟩ | ⟨has, rfl⟩
  case inr =>
    refine ⟨fun _ => .inl rfl, fun _ n ok => ?_⟩
    obtain ⟨complete, content, ended, -⟩ := laws.squeeze_zstd_ok has roomy ok
    exact ⟨complete, content, ended⟩
  constructor
  · intro whole
    refine .inr ?_
    rcases Nat.eq_zero_or_pos (uInt out.size) with noRoom | room_pos
    · exact .inl noRoom
    refine .inr ?_
    rcases Nat.lt_or_ge (uInt out.size) (laws.packed f lvl input).length
      with cut | fits
    · obtain ⟨ok, -, unended⟩ :=
        laws.squeeze_cut member accepted has roomy room_pos cut
      obtain ⟨-, -, call, listed, -, ended⟩ := whole _ ok
      exact absurd ended (by simp [unended call listed])
    · obtain ⟨ok, stamped, -⟩ :=
        laws.squeeze_fits member accepted has roomy fits
      obtain ⟨-, content, -⟩ := whole _ ok
      rw [stamped, laws.content_stampOs,
        laws.content_packed member accepted] at content
      exact ⟨(Span.window_eq_iff input).mp content, fits⟩
  · intro cause
    rcases cause with isZstd | noRoom | ⟨short, fits⟩
    · exact absurd isZstd (ne_zstd_of_mem member)
    · intro n ok
      rw [laws.squeeze_no_room member accepted has roomy noRoom] at ok
      cases ok
    · obtain ⟨result, stamped, calls⟩ :=
        laws.squeeze_fits member accepted has roomy fits
      intro n ok
      have count : n = (laws.packed f lvl input).length := by
        rw [result] at ok
        cases ok
        rfl
      subst count
      rw [stamped, calls, laws.content_stampOs,
        laws.content_packed member accepted]
      refine ⟨laws.complete_stampOs (laws.complete_packed member accepted),
        Span.window_of_lt short, _,
        List.mem_cons_of_mem _ (List.mem_singleton.mpr rfl),
        uInt_of_lt short, rfl⟩

theorem whole_gzip :
    WholeOnSuccess unixEncoding .gzip ⟨0⟩ fiveBytes
      (.zeros 28 (by decide)) := by
  apply (whole_on_success_iff unixEncoding (by decide) (by decide)
    (by decide)).mpr
  exact .inr (.inr ⟨by decide, by decide⟩)

/-- A gzip window of the size of the bound is a success without the trailer. -/
theorem not_whole_gzip :
    unixBuild.Serves .gzip ∧ Accepts .gzip ⟨0⟩ ∧
      bound unixBuild .gzip ⟨0⟩ fiveBytes.size ≤
        (Span.zeros 18 (by decide)).size ∧
      ¬ WholeOnSuccess unixEncoding .gzip ⟨0⟩ fiveBytes
        (.zeros 18 (by decide)) := by
  refine ⟨by decide, by decide, by decide, ?_⟩
  intro whole
  obtain ⟨-, content, -⟩ := whole 18 (by decide)
  revert content
  decide

end Polliwog
