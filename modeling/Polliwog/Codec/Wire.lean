import Mathlib.Data.List.Infix
import Mathlib.Tactic.Common

/-!
# Wire formats as a decoder meets them

A decoder reads a byte string from the front and knows nothing of what
follows.  A wire format is therefore described by the strings that are exactly
one whole stream, the strings at whose last byte a damaged stream first shows
as damaged, and the content decodable from any string.  The first two kinds
settle a stream: no two of them are comparable as prefixes.
-/

namespace Codec

variable {β : Type}

structure Wire (β : Type) where
  Complete : List β → Prop
  Corrupt : List β → Prop
  content : List β → List β
  content_nil : content [] = []
  content_mono : ∀ {p q}, p <+: q → content p <+: content q
  content_final : ∀ {p q}, Complete p → p <+: q → content q = content p
  settled : ∀ {p q}, Complete p ∨ Corrupt p → Complete q ∨ Corrupt q →
    p <+: q → p = q
  exclusive : ∀ {p}, Complete p → ¬ Corrupt p
  not_complete_nil : ¬ Complete []
  not_corrupt_nil : ¬ Corrupt []

namespace Wire

variable {W : Wire β}

/-- Nothing read so far has ended or spoiled the stream. -/
def Live (W : Wire β) (p : List β) : Prop :=
  ∀ q, q <+: p → ¬ W.Complete q ∧ ¬ W.Corrupt q

theorem live_nil (W : Wire β) : W.Live [] := by
  intro q isPrefix
  rw [List.prefix_nil.mp isPrefix]
  exact ⟨W.not_complete_nil, W.not_corrupt_nil⟩

theorem Live.mono {p q : List β} (live : W.Live q) (isPrefix : p <+: q) :
    W.Live p :=
  fun r inside => live r (inside.trans isPrefix)

theorem Live.not_complete {p q : List β} (live : W.Live q)
    (isPrefix : p <+: q) :
    ¬ W.Complete p :=
  (live p isPrefix).1

/-- Two settling strings read off one input are the same string. -/
theorem settled_unique {p q s : List β}
    (left : W.Complete p ∨ W.Corrupt p) (right : W.Complete q ∨ W.Corrupt q)
    (leftPrefix : p <+: s) (rightPrefix : q <+: s) : p = q := by
  rcases List.prefix_or_prefix_of_prefix leftPrefix rightPrefix
    with forward | backward
  · exact W.settled left right forward
  · exact (W.settled right left backward).symm

theorem complete_unique {p q s : List β} (left : W.Complete p)
    (right : W.Complete q) (leftPrefix : p <+: s) (rightPrefix : q <+: s) :
    p = q :=
  settled_unique (.inl left) (.inl right) leftPrefix rightPrefix

theorem not_corrupt_of_complete {p q s : List β} (complete : W.Complete p)
    (completePrefix : p <+: s) (isPrefix : q <+: s) : ¬ W.Corrupt q := by
  intro corrupt
  have same : p = q :=
    settled_unique (.inl complete) (.inr corrupt) completePrefix isPrefix
  exact W.exclusive complete (same ▸ corrupt)

/-- Whatever byte comes next is content as it stands, as in a stored block. -/
def Copies (W : Wire β) (p : List β) : Prop :=
  ∀ b, W.content (p ++ [b]) = W.content p ++ [b]

/-- The damage of a stream is among the bytes. -/
def Damaged (W : Wire β) (p : List β) : Prop :=
  ∃ q, q <+: p ∧ W.Corrupt q

theorem Live.not_damaged {p : List β} (live : W.Live p) : ¬ W.Damaged p := by
  intro damaged
  obtain ⟨q, isPrefix, corrupt⟩ := damaged
  exact (live q isPrefix).2 corrupt

theorem Complete.not_damaged {p s : List β} (complete : W.Complete s)
    (related : p <+: s ∨ s <+: p) : ¬ W.Damaged p := by
  intro damaged
  obtain ⟨q, isPrefix, corrupt⟩ := damaged
  rcases related with inside | beyond
  · exact W.not_corrupt_of_complete complete List.prefix_rfl
      (isPrefix.trans inside) corrupt
  · exact W.not_corrupt_of_complete complete beyond isPrefix corrupt

theorem Damaged.mono {p q : List β} (damaged : W.Damaged p)
    (isPrefix : p <+: q) :
    W.Damaged q := by
  obtain ⟨r, inside, corrupt⟩ := damaged
  exact ⟨r, inside.trans isPrefix, corrupt⟩

/-- A stream that is cut anywhere before its end is still live there. -/
theorem Complete.live_of_strict {p s : List β} (complete : W.Complete s)
    (isPrefix : p <+: s) (strict : p ≠ s) : W.Live p := by
  intro q inside
  have notSettled : ¬ (W.Complete q ∨ W.Corrupt q) := by
    intro settles
    have same : q = s :=
      W.settled settles (.inl complete) (inside.trans isPrefix)
    subst same
    exact strict (isPrefix.eq_of_length_le inside.length_le)
  exact not_or.mp notSettled

/-- Every input is live, or holds a whole stream, or holds the damage of one. -/
theorem live_or_settled (W : Wire β) (s : List β) :
    W.Live s ∨ (∃ p, p <+: s ∧ W.Complete p) ∨ W.Damaged s := by
  by_cases live : W.Live s
  · exact .inl live
  · right
    simp only [Live, not_forall] at live
    obtain ⟨p, isPrefix, settles⟩ := live
    rcases Classical.em (W.Complete p) with complete | incomplete
    · exact .inl ⟨p, isPrefix, complete⟩
    · refine .inr ⟨p, isPrefix, ?_⟩
      by_contra intact
      exact settles ⟨incomplete, intact⟩

/-- An input of whole streams, and of strings to be passed over, one after
another; the contents of the streams are put together. -/
inductive Series (W : Wire β) (Skipped : List β → Prop) :
    List β → List β → Prop where
  | nil : Series W Skipped [] []
  | stream {s input content : List β} :
      W.Complete s → Series W Skipped input content →
      Series W Skipped (s ++ input) (W.content s ++ content)
  | skipped {s input content : List β} :
      Skipped s → Series W Skipped input content →
      Series W Skipped (s ++ input) content

theorem Series.concat {Skipped : List β → Prop} {s input content : List β}
    (series : W.Series Skipped input content) (complete : W.Complete s) :
    W.Series Skipped (input ++ s) (content ++ W.content s) := by
  induction series with
  | nil =>
      have last : W.Series Skipped (s ++ []) (W.content s ++ []) :=
        .stream complete .nil
      rwa [List.append_nil, List.append_nil] at last
  | stream whole _ ih =>
      rw [List.append_assoc, List.append_assoc]
      exact .stream whole ih
  | skipped passed _ ih =>
      rw [List.append_assoc]
      exact .skipped passed ih

end Wire

end Codec
