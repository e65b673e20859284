import Mathlib.Data.List.Nodup
import Mathlib.Logic.Function.Basic

/-!
# Resources and their owners

A ledger lists the resources that have been opened and those that have been
ended.  An owner holds at most one resource.  The rules below say what is kept
when one is opened, ended, handed over or let go, and that only letting go
leaves an open resource without an owner.
-/

namespace Codec

variable {ι κ : Type*}

structure Ledger (κ : Type*) where
  opened : List κ
  ended : List κ

namespace Ledger

def blank : Ledger κ := ⟨[], []⟩

def opens (l : Ledger κ) (k : κ) : Ledger κ :=
  { l with opened := l.opened ++ [k] }

/-- End the resource that there is, if there is one. -/
def ends (l : Ledger κ) (held : Option κ) : Ledger κ :=
  { l with ended := l.ended ++ held.toList }

/-- A resource that was opened and has not been ended. -/
def Open (l : Ledger κ) (k : κ) : Prop := k ∈ l.opened ∧ k ∉ l.ended

@[simp] theorem open_opens (l : Ledger κ) (k k' : κ) :
    (l.opens k).Open k' ↔ (k' ∈ l.opened ∨ k' = k) ∧ k' ∉ l.ended := by
  simp [Open, opens]

@[simp] theorem open_ends (l : Ledger κ) (held : Option κ) (k : κ) :
    (l.ends held).Open k ↔ l.Open k ∧ held ≠ some k := by
  simp [Open, ends, and_assoc]

/-- Nothing is ended twice, and what an owner holds is open and its own. -/
structure Safe (l : Ledger κ) (owner : ι → Option κ) : Prop where
  endedOnce : l.ended.Nodup
  wasOpened : ∀ k ∈ l.ended, k ∈ l.opened
  holdsOpen : ∀ i k, owner i = some k → l.Open k
  unique : ∀ i j k, owner i = some k → owner j = some k → i = j

/-- Whatever is open is held by somebody. -/
def Covered (l : Ledger κ) (owner : ι → Option κ) : Prop :=
  ∀ k, l.Open k → ∃ i, owner i = some k

theorem safe_blank : (blank : Ledger κ).Safe (fun _ : ι => none) where
  endedOnce := List.nodup_nil
  wasOpened := by
    intro k listed
    cases listed
  holdsOpen := by
    intro i k holds
    cases holds
  unique := by
    intro i j k holds
    cases holds

theorem covered_blank (owner : ι → Option κ) :
    (blank : Ledger κ).Covered owner := by
  intro k isOpen
  cases isOpen.1

variable [DecidableEq ι] {l : Ledger κ} {owner : ι → Option κ}

section Opening

variable {k : κ} {i : ι} (vacant : owner i = none) (unseen : k ∉ l.opened)

include unseen

theorem Safe.opens (safe : l.Safe owner) :
    (l.opens k).Safe (Function.update owner i (some k)) where
  endedOnce := safe.endedOnce
  wasOpened k' listed := List.mem_append_left _ (safe.wasOpened k' listed)
  holdsOpen := by
    intro j k' holds
    rw [open_opens]
    rcases eq_or_ne j i with rfl | other
    · rw [Function.update_self, Option.some.injEq] at holds
      subst holds
      exact ⟨.inr rfl, fun listed => unseen (safe.wasOpened k listed)⟩
    · rw [Function.update_of_ne other] at holds
      exact ⟨.inl (safe.holdsOpen j k' holds).1, (safe.holdsOpen j k' holds).2⟩
  unique := by
    have elsewhere {j : ι} (holds : owner j = some k) : False :=
      unseen (safe.holdsOpen j k holds).1
    intro j j' k' holds holds'
    rw [Function.update_apply] at holds holds'
    split at holds
    case isTrue here =>
      cases holds
      split at holds'
      case isTrue here' => exact here.trans here'.symm
      case isFalse => exact (elsewhere holds').elim
    case isFalse =>
      split at holds'
      case isTrue =>
        cases holds'
        exact (elsewhere holds).elim
      case isFalse => exact safe.unique j j' k' holds holds'

include vacant

theorem covered_opens :
    (l.opens k).Covered (Function.update owner i (some k)) ↔
    l.Covered owner := by
  constructor
  · intro covered k' isOpen
    have different : k' ≠ k := fun same => unseen (same ▸ isOpen.1)
    obtain ⟨j, holds⟩ :=
      covered k' ((open_opens l k k').mpr ⟨.inl isOpen.1, isOpen.2⟩)
    rcases eq_or_ne j i with rfl | other
    · rw [Function.update_self, Option.some.injEq] at holds
      exact absurd holds.symm different
    · rw [Function.update_of_ne other] at holds
      exact ⟨j, holds⟩
  · intro covered k' isOpen
    rw [open_opens] at isOpen
    obtain ⟨listed | rfl, notEnded⟩ := isOpen
    · obtain ⟨j, holds⟩ := covered k' ⟨listed, notEnded⟩
      have other : j ≠ i := by
        intro same
        subst same
        rw [vacant] at holds
        cases holds
      exact ⟨j, (Function.update_of_ne other _ _).trans holds⟩
    · exact ⟨i, Function.update_self _ _ _⟩

end Opening

theorem Safe.vacate {i : ι} (safe : l.Safe owner) :
    l.Safe (Function.update owner i none) where
  endedOnce := safe.endedOnce
  wasOpened := safe.wasOpened
  holdsOpen := by
    intro j k holds
    rw [Function.update_apply] at holds
    split at holds
    case isTrue => cases holds
    case isFalse => exact safe.holdsOpen j k holds
  unique := by
    intro j j' k holds holds'
    rw [Function.update_apply] at holds holds'
    split at holds
    case isTrue => cases holds
    case isFalse =>
      split at holds'
      case isTrue => cases holds'
      case isFalse => exact safe.unique j j' k holds holds'

/-- Whoever lets go of a resource leaves it open. -/
theorem covered_vacate {i : ι} (safe : l.Safe owner) :
    l.Covered (Function.update owner i none) ↔ l.Covered owner ∧
    owner i = none := by
  constructor
  · intro covered
    have kept (k : κ) (isOpen : l.Open k) : ∃ j, j ≠ i ∧ owner j = some k := by
      obtain ⟨j, holds⟩ := covered k isOpen
      rw [Function.update_apply] at holds
      split at holds
      case isTrue => cases holds
      case isFalse other => exact ⟨j, other, holds⟩
    refine ⟨?_, ?_⟩
    · intro k isOpen
      obtain ⟨j, -, holds⟩ := kept k isOpen
      exact ⟨j, holds⟩
    · cases holds : owner i with
      | none => rfl
      | some k =>
          obtain ⟨j, other, holds'⟩ := kept k (safe.holdsOpen i k holds)
          exact absurd (safe.unique j i k holds' holds) other
  · intro kept
    obtain ⟨covered, vacant⟩ := kept
    rwa [← vacant, Function.update_eq_self]

theorem Safe.ends {i : ι} (safe : l.Safe owner) :
    (l.ends (owner i)).Safe (Function.update owner i none) := by
  have vacated := safe.vacate (i := i)
  refine ⟨?_, ?_, ?_, vacated.unique⟩
  · refine List.nodup_append'.mpr ⟨safe.endedOnce, ?_, ?_⟩
    · cases owner i with
      | none => exact List.nodup_nil
      | some k => exact List.nodup_singleton k
    · intro k ended held
      exact (safe.holdsOpen i k (Option.mem_toList.mp held)).2 ended
  · intro k ended
    rcases List.mem_append.mp ended with before | held
    · exact safe.wasOpened k before
    · exact (safe.holdsOpen i k (Option.mem_toList.mp held)).1
  · intro j k holds
    rw [open_ends]
    refine ⟨vacated.holdsOpen j k holds, ?_⟩
    intro ended
    rw [Function.update_apply] at holds
    split at holds
    case isTrue => cases holds
    case isFalse other => exact other (safe.unique j i k holds ended)

theorem covered_ends {i : ι} :
    (l.ends (owner i)).Covered (Function.update owner i none) ↔
    l.Covered owner := by
  constructor
  · intro covered k isOpen
    by_cases held : owner i = some k
    · exact ⟨i, held⟩
    · obtain ⟨j, holds⟩ := covered k ((open_ends l _ k).mpr ⟨isOpen, held⟩)
      rw [Function.update_apply] at holds
      split at holds
      case isTrue => cases holds
      case isFalse => exact ⟨j, holds⟩
  · intro covered k isOpen
    obtain ⟨isOpen, other⟩ := (open_ends l _ k).mp isOpen
    obtain ⟨j, holds⟩ := covered k isOpen
    have elsewhere : j ≠ i := by
      intro same
      subst same
      exact other holds
    exact ⟨j, (Function.update_of_ne elsewhere _ _).trans holds⟩

section Handing

variable {i j : ι} (distinct : i ≠ j) (vacant : owner i = none)

include distinct vacant

/-- After a transfer each resource that was held still is, by one owner. -/
theorem holds_handed (k : κ) (n : ι) :
    Function.update (Function.update owner i (owner j)) j none n = some k ↔
      (n = i ∧ owner j = some k) ∨ (n ≠ j ∧ owner n = some k) := by
  simp only [Function.update_apply]
  rcases eq_or_ne n j with rfl | notSource
  · simp [distinct.symm]
  · rcases eq_or_ne n i with rfl | notTarget
    · simp [notSource, vacant]
    · simp [notSource, notTarget]

theorem Safe.hands (safe : l.Safe owner) :
    l.Safe (Function.update (Function.update owner i (owner j)) j none) := by
  refine ⟨safe.endedOnce, safe.wasOpened, ?_, ?_⟩
  · intro n k holds
    rcases (holds_handed distinct vacant k n).mp holds
      with ⟨-, held⟩ | ⟨-, held⟩
    · exact safe.holdsOpen j k held
    · exact safe.holdsOpen n k held
  · intro n n' k holds holds'
    rcases (holds_handed distinct vacant k n).mp holds
      with ⟨rfl, held⟩ | ⟨other, held⟩
    · rcases (holds_handed distinct vacant k n').mp holds'
        with ⟨rfl, -⟩ | ⟨other, held'⟩
      · rfl
      · exact absurd (safe.unique n' j k held' held) other
    · rcases (holds_handed distinct vacant k n').mp holds'
        with ⟨-, held'⟩ | ⟨-, held'⟩
      · exact absurd (safe.unique n j k held held') other
      · exact safe.unique n n' k held held'

theorem covered_hands :
    l.Covered (Function.update (Function.update owner i (owner j)) j none) ↔
      l.Covered owner := by
  constructor
  · intro covered k isOpen
    obtain ⟨n, holds⟩ := covered k isOpen
    rcases (holds_handed distinct vacant k n).mp holds
      with ⟨-, held⟩ | ⟨-, held⟩
    · exact ⟨j, held⟩
    · exact ⟨n, held⟩
  · intro covered k isOpen
    obtain ⟨n, held⟩ := covered k isOpen
    rcases eq_or_ne n j with rfl | other
    · exact ⟨i, (holds_handed distinct vacant k i).mpr (.inl ⟨rfl, held⟩)⟩
    · exact ⟨n, (holds_handed distinct vacant k n).mpr (.inr ⟨other, held⟩)⟩

end Handing

end Ledger

end Codec
