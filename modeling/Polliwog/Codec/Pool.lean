import Polliwog.Codec.Ledger
import Polliwog.Codec.Run

/-!
# Boxes with one owner

Objects live at addresses, and each holds a pointer that is null or points to
a box.  A box is made together with its object, its pointer is handed from
object to object, and whoever holds it deletes it when that object is destroyed
or assigned to.  Whatever is done, no box is deleted twice, used after that or
forgotten, and a box lives through what was asked of it and nothing else.
-/

namespace Codec

variable {ι ξ κ ρ α : Type*}

/-- What the boxes of a pool are made of, and how they answer. -/
structure Boxed (ξ κ ρ α : Type*) where
  /-- A constructor; `none` where it throws. -/
  build : ξ → Option κ
  step : κ → ρ → α → κ → Prop

structure Pool (ι κ : Type*) where
  /-- The pointer of the object at an address, if an object lives there. -/
  pointer : ι → Option (Option Nat)
  box : Nat → Option κ
  ledger : Ledger Nat

namespace Pool

inductive Op (ι ξ ρ : Type*) where
  | make (addr : ι) (args : ξ)
  | moveConstruct (addr source : ι)
  | moveAssign (target source : ι)
  | destroy (addr : ι)
  | use (addr : ι) (request : ρ)

inductive Answer (κ α : Type*) where
  | threw
  | made (n : Nat)
  | moved
  | deleted (gone : Option (Nat × κ))
  | replied (n : Nat) (answer : α)

def blank : Pool ι κ := ⟨fun _ => none, fun _ => none, .blank⟩

/-- The box that each object holds. -/
def owner (p : Pool ι κ) : ι → Option Nat := Option.join ∘ p.pointer

def delete (p : Pool ι κ) : Option Nat → Pool ι κ
  | none => p
  | some n =>
      { p with
        box := Function.update p.box n none
        ledger := p.ledger.ends (some n) }

/-- What deleting a pointer does away with. -/
def gone (p : Pool ι κ) (held : Option Nat) : Option (Nat × κ) :=
  held.bind fun n => (p.box n).map fun k => (n, k)

/-- Every box is held by one object for as long as it lives, and no longer. -/
structure Sound (p : Pool ι κ) : Prop where
  safe : p.ledger.Safe p.owner
  covered : p.ledger.Covered p.owner
  live : ∀ n, p.ledger.Open n ↔ ∃ k, p.box n = some k
  numbered : ∀ n ∈ p.ledger.opened, n < p.ledger.opened.length

theorem owner_of_pointer {p : Pool ι κ} {addr : ι} {held : Option (Option Nat)}
    (points : p.pointer addr = held) : p.owner addr = held.join :=
  congrArg Option.join points

@[simp] theorem opened_delete (p : Pool ι κ) (held : Option Nat) :
    (p.delete held).ledger.opened = p.ledger.opened := by
  cases held <;> rfl

theorem ledger_delete (p : Pool ι κ) (held : Option Nat) :
    (p.delete held).ledger = p.ledger.ends held := by
  cases held with
  | none => simp [delete, Ledger.ends]
  | some n => rfl

theorem sound_blank : (blank : Pool ι κ).Sound where
  safe := Ledger.safe_blank
  covered := Ledger.covered_blank _
  live n := by simp [blank, Ledger.blank, Ledger.Open]
  numbered := by
    intro n listed
    cases listed

namespace Sound

variable {p : Pool ι κ} (sound : p.Sound)

include sound

theorem unseen : p.ledger.opened.length ∉ p.ledger.opened :=
  fun listed => Nat.lt_irrefl _ (sound.numbered _ listed)

theorem alive {addr : ι} {n : Nat} (points : p.pointer addr = some (some n)) :
    ∃ k, p.box n = some k :=
  (sound.live n).mp (sound.safe.holdsOpen addr n (owner_of_pointer points))

theorem drained (nobody : ∀ addr, p.owner addr = none) :
    ∀ n ∈ p.ledger.opened, n ∈ p.ledger.ended := by
  intro n opened
  by_contra notEnded
  obtain ⟨addr, owns⟩ := sound.covered n ⟨opened, notEnded⟩
  rw [nobody addr] at owns
  cases owns

theorem live_delete (held : Option Nat) (n : Nat) :
    (p.delete held).ledger.Open n ↔ ∃ k, (p.delete held).box n = some k := by
  rw [ledger_delete, Ledger.open_ends, sound.live]
  cases held with
  | none => simp [delete]
  | some m =>
      rcases eq_or_ne n m with rfl | other
      · simp [delete]
      · simp [delete, Function.update_of_ne other, Ne.symm other]

end Sound

theorem box_of_delete {p : Pool ι κ} {held : Option Nat} {n : Nat} {k : κ}
    (lives : (p.delete held).box n = some k) :
    p.box n = some k := by
  cases held with
  | none => exact lives
  | some m =>
      simp only [delete, Function.update_apply] at lives
      split at lives
      case isTrue => cases lives
      case isFalse => exact lives

/-- What an operation asked of a box. -/
def callOn (n : Nat) : Op ι ξ ρ × Answer κ α → Option (ρ × α)
  | (.use _ request, .replied m answer) =>
      if m = n then some (request, answer) else none
  | _ => none

/-- The calls that were made on a box, through whichever object held it. -/
def calls (n : Nat) (trace : List (Op ι ξ ρ × Answer κ α)) : List (ρ × α) :=
  trace.filterMap (callOn n)

/-- A box was made by a constructor, and what became of it since is a run of its
own from there. -/
def Lived (kind : Boxed ξ κ ρ α) (trace : List (Op ι ξ ρ × Answer κ α))
    (p : Pool ι κ) (n : Nat) : Prop :=
  ∃ addr args seed last, (.make addr args, .made n) ∈ trace ∧
  kind.build args = some seed ∧
    Run kind.step seed (calls n trace) last ∧ ∀ k, p.box n = some k → k = last

theorem calls_concat {n : Nat} {trace : List (Op ι ξ ρ × Answer κ α)}
    (entry : Op ι ξ ρ × Answer κ α) :
    calls n (trace ++ [entry]) = calls n trace ++ (callOn n entry).toList := by
  simp only [calls, List.filterMap_append, List.filterMap_cons,
    List.filterMap_nil]
  cases callOn n entry <;> rfl

variable {kind : Boxed ξ κ ρ α} {p p' : Pool ι κ}
  {trace : List (Op ι ξ ρ × Answer κ α)} {n : Nat}

theorem Lived.aside {entry : Op ι ξ ρ × Answer κ α}
    (lived : Lived kind trace p n) (aside : callOn n entry = none)
    (kept : ∀ k, p'.box n = some k → p.box n = some k) :
    Lived kind (trace ++ [entry]) p' n := by
  obtain ⟨addr, args, seed, last, made, built, run, current⟩ := lived
  have same : calls n (trace ++ [entry]) = calls n trace := by
    rw [calls_concat, aside]
    exact List.append_nil _
  refine ⟨addr, args, seed, last, List.mem_append_left _ made, built,
    same ▸ run, ?_⟩
  intro k lives
  exact current k (kept k lives)

theorem Lived.called {addr : ι} {request : ρ} {answer : α} {k k' : κ}
    (lived : Lived kind trace p n) (lives : p.box n = some k)
    (step : kind.step k request answer k') (now : p'.box n = some k') :
    Lived kind (trace ++ [(.use addr request, .replied n answer)]) p' n := by
  obtain ⟨maker, args, seed, last, made, built, run, current⟩ := lived
  have same : calls n (trace ++ [(.use addr request, .replied n answer)]) =
      calls n trace ++ [(request, answer)] := by
    rw [calls_concat]
    simp [callOn]
  refine ⟨maker, args, seed, k', List.mem_append_left _ made, built, ?_, ?_⟩
  · rw [same]
    exact run.concat (current k lives ▸ step)
  · intro k'' lives'
    rw [now] at lives'
    exact (Option.some.inj lives').symm

/-- What holds of the boxes after any operations. -/
structure Told (kind : Boxed ξ κ ρ α) (trace : List (Op ι ξ ρ × Answer κ α))
    (p : Pool ι κ) :
    Prop where
  sound : p.Sound
  /-- Nothing was asked of a box before it was made. -/
  quiet : ∀ n, n ∉ p.ledger.opened → calls n trace = []
  lived : ∀ n ∈ p.ledger.opened, Lived kind trace p n

theorem Told.aside {entry : Op ι ξ ρ × Answer κ α} (told : Told kind trace p)
    (sound : p'.Sound) (opened : p'.ledger.opened = p.ledger.opened)
    (aside : ∀ n, callOn n entry = none)
    (kept : ∀ n k, p'.box n = some k → p.box n = some k) :
    Told kind (trace ++ [entry]) p' where
  sound := sound
  quiet := by
    intro n unmade
    rw [opened] at unmade
    rw [calls_concat, told.quiet n unmade, aside]
    rfl
  lived := by
    intro n made
    rw [opened] at made
    exact (told.lived n made).aside (aside n) (kept n)

theorem told_blank : Told kind ([] : List (Op ι ξ ρ × Answer κ α)) .blank where
  sound := sound_blank
  quiet _ _ := rfl
  lived := by
    intro n listed
    cases listed

variable [DecidableEq ι]

def make (p : Pool ι κ) (addr : ι) (k : κ) : Pool ι κ :=
  { pointer :=
      Function.update p.pointer addr (some (some p.ledger.opened.length))
    box := Function.update p.box p.ledger.opened.length (some k)
    ledger := p.ledger.opens p.ledger.opened.length }

/-- The pointer of `source` handed to `addr`. -/
def hand (p : Pool ι κ) (addr source : ι) (held : Option Nat) : Pool ι κ :=
  { p with
    pointer :=
      Function.update (Function.update p.pointer addr (some held)) source
        (some none) }

/-- One operation of a program on its objects.  A program that uses a null
pointer, or an object that is not there, makes no step. -/
inductive Step (kind : Boxed ξ κ ρ α) :
    Pool ι κ → Op ι ξ ρ → Answer κ α → Pool ι κ → Prop where
  | threw {p : Pool ι κ} {addr : ι} {args : ξ} :
      p.pointer addr = none → kind.build args = none →
      Step kind p (.make addr args) .threw p
  | make {p : Pool ι κ} {addr : ι} {args : ξ} {k : κ} :
      p.pointer addr = none → kind.build args = some k →
      Step kind p (.make addr args) (.made p.ledger.opened.length)
        (p.make addr k)
  | moveConstruct {p : Pool ι κ} {addr source : ι} {held : Option Nat} :
      p.pointer addr = none → p.pointer source = some held →
      Step kind p (.moveConstruct addr source) .moved (p.hand addr source held)
  -- what is released first is put back
  | selfAssign {p : Pool ι κ} {addr : ι} {held : Option Nat} :
      p.pointer addr = some held →
      Step kind p (.moveAssign addr addr) (.deleted none) p
  | moveAssign {p : Pool ι κ} {target source : ι} {held given : Option Nat} :
      target ≠ source → p.pointer target = some held →
      p.pointer source = some given →
      Step kind p (.moveAssign target source) (.deleted (p.gone held))
        ((p.delete held).hand target source given)
  | destroy {p : Pool ι κ} {addr : ι} {held : Option Nat} :
      p.pointer addr = some held →
      Step kind p (.destroy addr) (.deleted (p.gone held))
        { p.delete held with pointer := Function.update p.pointer addr none }
  | use {p : Pool ι κ} {addr : ι} {n : Nat} {k k' : κ} {request : ρ}
    {answer : α} :
      p.pointer addr = some (some n) → p.box n = some k →
      kind.step k request answer k' →
      Step kind p (.use addr request) (.replied n answer)
        { p with box := Function.update p.box n (some k') }

namespace Sound

variable {p : Pool ι κ} (sound : p.Sound)

include sound

theorem make {addr : ι} (vacant : p.pointer addr = none) (k : κ) :
    (p.make addr k).Sound := by
  have owners : (p.make addr k).owner =
      Function.update p.owner addr (some p.ledger.opened.length) :=
    Function.comp_update _ _ _ _
  have nobody : p.owner addr = none := owner_of_pointer vacant
  refine ⟨?_, ?_, ?_, ?_⟩
  · rw [owners]
    exact sound.safe.opens sound.unseen
  · rw [owners]
    exact (Ledger.covered_opens nobody sound.unseen).mpr sound.covered
  · intro n
    change (p.ledger.opens _).Open n ↔ _
    rw [Ledger.open_opens]
    rcases eq_or_ne n p.ledger.opened.length with rfl | other
    · have notEnded : p.ledger.opened.length ∉ p.ledger.ended :=
        fun ended => sound.unseen (sound.safe.wasOpened _ ended)
      simp [Pool.make, notEnded]
    · simp only [Pool.make, Function.update_of_ne other, other, or_false]
      exact sound.live n
  · intro n listed
    have length : (p.make addr k).ledger.opened.length =
        p.ledger.opened.length + 1 :=
      List.length_append
    rw [length]
    rcases List.mem_append.mp listed with before | now
    · exact Nat.lt_succ_of_lt (sound.numbered n before)
    · rw [List.mem_singleton.mp now]
      exact Nat.lt_succ_self _

theorem hand {addr source : ι} {held : Option Nat}
    (vacant : p.owner addr = none) (distinct : addr ≠ source)
    (points : p.pointer source = some held) :
    (p.hand addr source held).Sound := by
  have given : p.owner source = held := owner_of_pointer points
  have owners : (p.hand addr source held).owner =
      Function.update (Function.update p.owner addr (p.owner source))
        source none := by
    rw [given]
    exact (Function.comp_update _ _ _ _).trans
      (congrArg (Function.update · source none) (Function.comp_update _ _ _ _))
  refine ⟨?_, ?_, sound.live, sound.numbered⟩
  · rw [owners]
    exact sound.safe.hands distinct vacant
  · rw [owners]
    exact (Ledger.covered_hands distinct vacant).mpr sound.covered

/-- An object that deletes what it holds, and is left with a pointer to nothing
or is not left at all. -/
theorem drop {addr : ι} {held : Option Nat}
    (points : p.pointer addr = some held) {left : Option (Option Nat)}
    (nothing : left.join = none) :
    ({ p.delete held with pointer := Function.update p.pointer addr left } :
      Pool ι κ).Sound := by
  have owned : p.owner addr = held := owner_of_pointer points
  have owners :
      ({ p.delete held with pointer := Function.update p.pointer addr left } :
        Pool ι κ).owner = Function.update p.owner addr none := by
    rw [← nothing]
    exact Function.comp_update _ _ _ _
  refine ⟨?_, ?_, sound.live_delete held, ?_⟩
  · rw [owners, ledger_delete, ← owned]
    exact sound.safe.ends
  · rw [owners, ledger_delete, ← owned]
    exact Ledger.covered_ends.mpr sound.covered
  · intro n listed
    change n < (p.delete held).ledger.opened.length
    rw [opened_delete] at *
    exact sound.numbered n listed

end Sound

theorem hand_delete {target source : ι} {held given : Option Nat} :
    (p.delete held).hand target source given =
      ({ p.delete held with
          pointer := Function.update p.pointer target (some none) } :
        Pool ι κ).hand target source given := by
  have pointers : (p.delete held).pointer = p.pointer := by
    cases held <;> rfl
  simp [hand, pointers]

theorem Step.sound {op : Op ι ξ ρ} {answer : Answer κ α}
    (step : Step kind p op answer p') (sound : p.Sound) : p'.Sound := by
  cases step with
  | threw _ _ => exact sound
  | make vacant _ => exact sound.make vacant _
  | moveConstruct vacant points =>
      refine sound.hand (owner_of_pointer vacant) ?_ points
      intro same
      rw [← same, vacant] at points
      cases points
  | selfAssign _ => exact sound
  | @moveAssign target source _ _ distinct points gives =>
      have nothing : (some none : Option (Option Nat)).join = none := rfl
      have vacated : Function.update p.pointer target (some none) target =
          some none :=
        Function.update_self _ _ _
      rw [hand_delete]
      refine (sound.drop points nothing).hand
        (congrArg Option.join vacated) distinct ?_
      exact (Function.update_of_ne distinct.symm _ _).trans gives
  | destroy points => exact sound.drop points rfl
  | @use addr n k k' request answer points lives _ =>
      refine ⟨sound.safe, sound.covered, ?_, sound.numbered⟩
      intro m
      rcases eq_or_ne m n with rfl | other
      · simp [sound.live, lives]
      · simp [sound.live, Function.update_of_ne other]

theorem Step.told {op : Op ι ξ ρ} {answer : Answer κ α}
    (step : Step kind p op answer p') (told : Told kind trace p) :
    Told kind (trace ++ [(op, answer)]) p' := by
  have sound := step.sound told.sound
  cases step with
  | threw _ _ => exact told.aside sound rfl (fun _ => rfl) fun _ _ lives =>
      lives
  | moveConstruct _ _ =>
      exact told.aside sound rfl (fun _ => rfl) fun _ _ lives => lives
  | selfAssign _ => exact told.aside sound rfl (fun _ => rfl) fun _ _ lives =>
      lives
  | moveAssign _ _ _ =>
      exact told.aside sound (opened_delete p _) (fun _ => rfl) fun _ _ =>
        box_of_delete
  | destroy _ =>
      exact told.aside sound (opened_delete p _) (fun _ => rfl) fun _ _ =>
        box_of_delete
  | @make addr args k vacant built =>
      refine ⟨sound, ?_, ?_⟩
      · intro n unmade
        have before : n ∉ p.ledger.opened :=
          fun listed => unmade (List.mem_append_left _ listed)
        rw [calls_concat, told.quiet n before]
        rfl
      · intro n made
        rcases List.mem_append.mp made with before | now
        · refine (told.lived n before).aside rfl ?_
          intro k' lives
          have other : n ≠ p.ledger.opened.length :=
            Nat.ne_of_lt (told.sound.numbered n before)
          exact (Function.update_of_ne other _ _).symm.trans lives
        · rw [List.mem_singleton.mp now]
          refine ⟨addr, args, k, k, by simp, built, ?_, ?_⟩
          · rw [calls_concat, told.quiet _ told.sound.unseen]
            exact .nil k
          · intro k' lives
            exact Option.some.inj
              (lives.symm.trans (Function.update_self _ _ _))
  | @use addr m k k' request answer points lives exchange =>
      refine ⟨sound, ?_, ?_⟩
      · intro n unmade
        have other : m ≠ n := by
          intro same
          subst same
          exact unmade
            (told.sound.safe.holdsOpen addr m (owner_of_pointer points)).1
        rw [calls_concat, told.quiet n unmade, callOn, if_neg other]
        rfl
      · intro n made
        rcases eq_or_ne n m with rfl | other
        · exact (told.lived n made).called lives exchange
            (Function.update_self _ _ _)
        · refine (told.lived n made).aside (if_neg other.symm) ?_
          intro k'' lives'
          exact (Function.update_of_ne other _ _).symm.trans lives'

/-- Over any run of a program, what is asked of each box is a run of its own
from its constructor, whichever objects it passes through and whatever is done
with the others in between. -/
theorem told_of_run (run : Run (Pool.Step kind) .blank trace p) :
    Told kind trace p :=
  run.history (Told kind) (fun told step => step.told told) told_blank

/-- The boxes that the operations made, each of them once. -/
structure MadeOnce (trace : List (Op ι ξ ρ × Answer κ α)) (p : Pool ι κ) :
    Prop where
  sound : p.Sound
  opened : ∀ {addr args n}, (.make addr args, .made n) ∈ trace →
    n ∈ p.ledger.opened
  once : ∀ {addr addr' args args' n}, (.make addr args, .made n) ∈ trace →
    (.make addr' args', .made n) ∈ trace → args = args'

theorem Step.opened_subset {op : Op ι ξ ρ} {answer : Answer κ α}
    (step : Step kind p op answer p') : p.ledger.opened ⊆ p'.ledger.opened := by
  cases step with
  | threw _ _ => exact List.Subset.refl _
  | make _ _ => exact List.subset_append_left _ _
  | moveConstruct _ _ => exact List.Subset.refl _
  | selfAssign _ => exact List.Subset.refl _
  | moveAssign _ _ _ => exact (opened_delete p _).symm ▸ List.Subset.refl _
  | destroy _ => exact (opened_delete p _).symm ▸ List.Subset.refl _
  | use _ _ _ => exact List.Subset.refl _

theorem Step.made {addr : ι} {args : ξ}
    (step : Step kind p (.make addr args) (.made n) p') (sound : p.Sound) :
    n ∉ p.ledger.opened ∧ n ∈ p'.ledger.opened := by
  cases step with
  | make _ _ => exact ⟨sound.unseen, List.mem_append_right _ List.mem_cons_self⟩

theorem Step.madeOnce {op : Op ι ξ ρ} {answer : Answer κ α}
    (step : Step kind p op answer p') (before : MadeOnce trace p) :
    MadeOnce (trace ++ [(op, answer)]) p' := by
  have here {addr : ι} {args : ξ} {n : Nat}
      (listed : (.make addr args, .made n) ∈ trace ++ [(op, answer)]) :
      (.make addr args, .made n) ∈ trace ∨
      (n ∉ p.ledger.opened ∧ n ∈ p'.ledger.opened ∧
        op = .make addr args) := by
    rcases List.mem_append.mp listed with earlier | now
    · exact .inl earlier
    · obtain ⟨rfl, rfl⟩ := Prod.mk.inj (List.mem_singleton.mp now)
      obtain ⟨unseen, seen⟩ := step.made before.sound
      exact .inr ⟨unseen, seen, rfl⟩
  refine ⟨step.sound before.sound, ?_, ?_⟩
  · intro addr args n listed
    rcases here listed with earlier | ⟨-, seen, -⟩
    · exact step.opened_subset (before.opened earlier)
    · exact seen
  · intro addr addr' args args' n listed listed'
    rcases here listed with earlier | ⟨unseen, -, same⟩
    · rcases here listed' with earlier' | ⟨unseen', -, -⟩
      · exact before.once earlier earlier'
      · exact absurd (before.opened earlier) unseen'
    · rcases here listed' with earlier' | ⟨-, -, same'⟩
      · exact absurd (before.opened earlier') unseen
      · cases same.symm.trans same'
        rfl

theorem madeOnce_of_run (run : Run (Pool.Step kind) .blank trace p) :
    MadeOnce trace p :=
  run.history MadeOnce (fun before step => step.madeOnce before)
    ⟨sound_blank, fun listed => absurd listed List.not_mem_nil,
      fun listed => absurd listed List.not_mem_nil⟩

/-- What was asked of a box that was made so is a run from what its constructor
built. -/
theorem session_of_made (run : Run (Pool.Step kind) .blank trace p) {addr : ι}
    {args : ξ} (made : (.make addr args, .made n) ∈ trace) :
    ∃ seed last, kind.build args = some seed ∧
    Run kind.step seed (calls n trace) last := by
  have once := madeOnce_of_run run
  obtain ⟨addr', args', seed, last, made', built, session, -⟩ :=
    (told_of_run run).lived n (once.opened made)
  obtain rfl := once.once made made'
  exact ⟨seed, last, built, session⟩

end Pool

end Codec
