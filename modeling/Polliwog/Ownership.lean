import Polliwog.Codec.Ledger
import Polliwog.Codec.Run
import Polliwog.Backend
import Polliwog.Format

/-!
# Who ends an engine context

The four handle classes seen by the pointer each of them holds.  Those over
zlib keep a `std::unique_ptr` to a `z_stream` and let the compiler write their
moves; those over zstd keep the context itself and write their moves out.
-/

namespace Polliwog

open Codec

/-- An engine context, by the entry that opened it and its place among all of
them. -/
structure Context where
  entry : Entry
  serial : Nat
  deriving DecidableEq, Repr

abbrev Contexts := Ledger Context

inductive Handle where
  | zlibSqueezer (stream : Option Context)
  | zlibSweller (stream : Option Context)
  | zstdSqueezer (ctx : Option Context) (fmt : Format) (level : Int)
  | zstdSweller (ctx : Option Context) (fmt : Format)

/-- The arguments of a constructor. -/
inductive Making where
  | zlibSqueezer (f : Format) (lvl : ZlibLevel)
  | zlibSweller (f : Format)
  | zstdSqueezer (f : Format) (lvl : ZstdLevel)
  | zstdSweller (f : Format)

namespace Making

/-- The engine entry that a constructor goes through. -/
def entry : Making → Entry
  | .zlibSqueezer _ _ => .deflateInit2
  | .zlibSweller _ => .inflateInit2
  | .zstdSqueezer _ _ => .createCCtx
  | .zstdSweller _ => .createDCtx

def handle (ctx : Context) : Making → Handle
  | .zlibSqueezer _ _ => .zlibSqueezer (some ctx)
  | .zlibSweller _ => .zlibSweller (some ctx)
  | .zstdSqueezer f lvl => .zstdSqueezer (some ctx) f lvl.toInt
  | .zstdSweller f => .zstdSweller (some ctx) f

end Making

namespace Handle

/-- What the pointer of a handle points to. -/
def owned : Handle → Option Context
  | .zlibSqueezer stream => stream
  | .zlibSweller stream => stream
  | .zstdSqueezer ctx _ _ => ctx
  | .zstdSweller ctx _ => ctx

def construct (l : Contexts) (making : Making) : Handle × Contexts :=
  let ctx : Context := { entry := making.entry, serial := l.opened.length }
  (making.handle ctx, l.opens ctx)

/-- The handle that is made, and what is left of the one it is made from. -/
def moveConstruct : Handle → Handle × Handle
  | .zlibSqueezer stream => (.zlibSqueezer stream, .zlibSqueezer none)
  | .zlibSweller stream => (.zlibSweller stream, .zlibSweller none)
  | .zstdSqueezer ctx fmt level =>
      (.zstdSqueezer ctx fmt level, .zstdSqueezer none fmt level)
  | .zstdSweller ctx fmt => (.zstdSweller ctx fmt, .zstdSweller none fmt)

/-- Assignment from another handle of the same class: both handles after it. -/
def moveAssign (l : Contexts) :
    Handle → Handle → Option (Handle × Handle × Contexts)
  -- the `unique_ptr` deletes the `z_stream` it held; nobody ends what is in it
  | .zlibSqueezer _, .zlibSqueezer stream =>
      some (.zlibSqueezer stream, .zlibSqueezer none, l)
  | .zlibSweller _, .zlibSweller stream =>
      some (.zlibSweller stream, .zlibSweller none, l)
  | .zstdSqueezer ctx _ _, .zstdSqueezer ctx' fmt level =>
      some (.zstdSqueezer ctx' fmt level,
        .zstdSqueezer none fmt level, l.ends ctx)
  | .zstdSweller ctx _, .zstdSweller ctx' fmt =>
      some (.zstdSweller ctx' fmt, .zstdSweller none fmt, l.ends ctx)
  | _, _ => none

/-- `deflateEnd`, `inflateEnd`, `ZSTD_freeCCtx` or `ZSTD_freeDCtx`, unless the
pointer is null. -/
def destroy (l : Contexts) : Handle → Contexts
  | .zlibSqueezer stream => l.ends stream
  | .zlibSweller stream => l.ends stream
  | .zstdSqueezer ctx _ _ => l.ends ctx
  | .zstdSweller ctx _ => l.ends ctx

def overZlib : Handle → Bool
  | .zlibSqueezer _ | .zlibSweller _ => true
  | .zstdSqueezer _ _ _ | .zstdSweller _ _ => false

theorem owned_construct (l : Contexts) (making : Making) :
    (construct l making).1.owned = some ⟨making.entry, l.opened.length⟩ ∧
      (construct l making).2 = l.opens ⟨making.entry, l.opened.length⟩ := by
  cases making <;> exact ⟨rfl, rfl⟩

theorem owned_moveConstruct (h : Handle) :
    h.moveConstruct.1.owned = h.owned ∧ h.moveConstruct.2.owned = none := by
  cases h <;> exact ⟨rfl, rfl⟩

theorem destroy_eq (l : Contexts) (h : Handle) :
    h.destroy l = l.ends h.owned := by
  cases h <;> rfl

/-- An assignment hands the pointer over; only zstd ends what was there. -/
theorem owned_moveAssign {l l' : Contexts} {h o h' o' : Handle}
    (assigned : h.moveAssign l o = some (h', o', l')) :
    h'.owned = o.owned ∧ o'.owned = none ∧
      l' = if h.overZlib then l else l.ends h.owned := by
  cases h <;> cases o <;> cases assigned <;> exact ⟨rfl, rfl, rfl⟩

end Handle

/-- The handles that live at their addresses, and the ledger of the engines. -/
structure Store where
  handles : Nat → Option Handle
  ledger : Contexts

inductive Op where
  | construct (addr : Nat) (making : Making)
  | moveConstruct (addr source : Nat)
  | moveAssign (target source : Nat)
  | destroy (addr : Nat)

namespace Store

def empty : Store := { handles := fun _ => none, ledger := .blank }

/-- One operation; `none` where a program has no such operation to make. -/
def apply (s : Store) : Op → Option Store
  | .construct addr making =>
      match s.handles addr with
      | none =>
          let (h, ledger) := Handle.construct s.ledger making
          some { handles := Function.update s.handles addr (some h),
                 ledger := ledger }
      | some _ => none
  | .moveConstruct addr source =>
      match s.handles addr, s.handles source with
      | none, some o =>
          let (h, o') := o.moveConstruct
          let handles := Function.update s.handles addr (some h)
          some { s with handles := Function.update handles source (some o') }
      | _, _ => none
  | .moveAssign target source =>
      match s.handles target, s.handles source with
      | some h, some o =>
          -- zstd asks whether it is itself; a `unique_ptr` then keeps what it
          -- has
          if target = source then some s
          else
            match h.moveAssign s.ledger o with
            | some (h', o', ledger) =>
                let handles := Function.update s.handles target (some h')
                some { handles := Function.update handles source (some o'),
                       ledger := ledger }
            | none => none
      | _, _ => none
  | .destroy addr =>
      match s.handles addr with
      | some h =>
          some { handles := Function.update s.handles addr none,
                 ledger := h.destroy s.ledger }
      | none => none

def Step (s : Store) (op : Op) (_ : Unit) (s' : Store) : Prop :=
  s.apply op = some s'

/-- What the handle at each address owns. -/
def owners (handles : Nat → Option Handle) : Nat → Option Context :=
  (·.bind Handle.owned) ∘ handles

theorem owners_update (handles : Nat → Option Handle) (addr : Nat)
    (h : Option Handle) :
    owners (Function.update handles addr h) =
      Function.update (owners handles) addr (h.bind Handle.owned) :=
  Function.comp_update _ _ _ _

theorem owners_of_handle {handles : Nat → Option Handle} {addr : Nat}
    {h : Handle} (lives : handles addr = some h) :
    owners handles addr = h.owned := by
  simp [owners, lives]

theorem owners_of_vacant {handles : Nat → Option Handle} {addr : Nat}
    (vacant : handles addr = none) : owners handles addr = none := by
  simp [owners, vacant]

/-- The serial numbers of contexts are not used up. -/
def Numbered (l : Contexts) : Prop :=
  ∀ ctx ∈ l.opened, ctx.serial < l.opened.length

/-- What holds whatever is done. -/
def Sane (s : Store) : Prop :=
  s.ledger.Safe (owners s.handles) ∧ Numbered s.ledger

/-- No context is open without an owner. -/
def Covered (s : Store) : Prop := s.ledger.Covered (owners s.handles)

/-- An assignment to a zlib handle that owns a stream. -/
def Overwrites (s : Store) : Op → Prop
  | .moveAssign target source =>
      target ≠ source ∧ ∃ h ctx, s.handles target = some h ∧ h.overZlib = true ∧
        h.owned = some ctx
  | _ => False

section Operations

variable {s s' : Store} (sane : s.Sane)

include sane

theorem construct_spec {addr : Nat} {making : Making}
    (step : s.apply (.construct addr making) = some s') :
    s'.Sane ∧ (s'.Covered ↔ s.Covered) := by
  obtain ⟨safe, numbered⟩ := sane
  obtain ⟨owned, ledger⟩ := Handle.owned_construct s.ledger making
  have unseen : (⟨making.entry, s.ledger.opened.length⟩ : Context) ∉
      s.ledger.opened :=
    fun listed => Nat.lt_irrefl _ (numbered _ listed)
  cases lives : s.handles addr with
  | some h => simp [apply, lives] at step
  | none =>
      simp only [apply, lives] at step
      cases step
      have vacant := owners_of_vacant lives
      simp only [Sane, Covered, owners_update, Option.bind_some, owned, ledger]
      refine ⟨⟨safe.opens unseen, ?_⟩, Ledger.covered_opens vacant unseen⟩
      intro ctx listed
      have length :
          (s.ledger.opens ⟨making.entry,
            s.ledger.opened.length⟩).opened.length =
          s.ledger.opened.length + 1 :=
        List.length_append
      rw [length]
      rcases List.mem_append.mp listed with before | now
      · exact Nat.lt_succ_of_lt (numbered ctx before)
      · rw [List.mem_singleton.mp now]
        exact Nat.lt_succ_self _

theorem moveConstruct_spec {addr source : Nat}
    (step : s.apply (.moveConstruct addr source) = some s') :
    s'.Sane ∧ (s'.Covered ↔ s.Covered) := by
  obtain ⟨safe, numbered⟩ := sane
  cases lives : s.handles addr with
  | some h => simp [apply, lives] at step
  | none =>
      cases livesSource : s.handles source with
      | none => simp [apply, lives, livesSource] at step
      | some o =>
          simp only [apply, lives, livesSource] at step
          cases step
          obtain ⟨made, left⟩ := o.owned_moveConstruct
          have distinct : addr ≠ source := by
            intro same
            subst same
            rw [lives] at livesSource
            cases livesSource
          have vacant := owners_of_vacant lives
          have held := owners_of_handle livesSource
          simp only [Sane, Covered, owners_update, Option.bind_some, made,
            left, ← held]
          exact ⟨⟨safe.hands distinct vacant, numbered⟩,
            Ledger.covered_hands distinct vacant⟩

theorem destroy_spec {addr : Nat} (step : s.apply (.destroy addr) = some s') :
    s'.Sane ∧ (s'.Covered ↔ s.Covered) := by
  obtain ⟨safe, numbered⟩ := sane
  cases lives : s.handles addr with
  | none => simp [apply, lives] at step
  | some h =>
      simp only [apply, lives] at step
      cases step
      have held := owners_of_handle lives
      simp only [Sane, Covered, owners_update, Option.bind_none,
        h.destroy_eq, ← held]
      exact ⟨⟨safe.ends, numbered⟩, Ledger.covered_ends⟩

omit sane in
/-- What overwrites is an assignment to another handle, over zlib, that owns a
stream. -/
theorem overwrites_iff {target source : Nat} {h : Handle}
    (lives : s.handles target = some h) (distinct : target ≠ source) :
    s.Overwrites (.moveAssign target source) ↔ h.overZlib = true ∧
    h.owned ≠ none := by
  constructor
  · intro overwrites
    obtain ⟨-, h', ctx, lives', isZlib, owned⟩ := overwrites
    have same : h = h' := Option.some.inj (lives.symm.trans lives')
    rw [same, owned]
    exact ⟨isZlib, Option.some_ne_none ctx⟩
  · intro overwrites
    obtain ⟨isZlib, owns⟩ := overwrites
    obtain ⟨ctx, owned⟩ := Option.ne_none_iff_exists'.mp owns
    exact ⟨distinct, h, ctx, lives, isZlib, owned⟩

theorem moveAssign_spec {target source : Nat}
    (step : s.apply (.moveAssign target source) = some s') :
    s'.Sane ∧
    (s'.Covered ↔ s.Covered ∧ ¬ s.Overwrites (.moveAssign target source)) := by
  cases lives : s.handles target with
  | none => simp [apply, lives] at step
  | some h =>
      cases livesSource : s.handles source with
      | none => simp [apply, lives, livesSource] at step
      | some o =>
          simp only [apply, lives, livesSource] at step
          split at step
          case isTrue same =>
            cases step
            exact ⟨sane,
              (and_iff_left fun overwrites => overwrites.1 same).symm⟩
          case isFalse distinct =>
            cases assigned : h.moveAssign s.ledger o with
            | none => simp [assigned] at step
            | some after =>
                obtain ⟨h', o', ledger⟩ := after
                simp only [assigned] at step
                cases step
                obtain ⟨handed, left, books⟩ := Handle.owned_moveAssign assigned
                obtain ⟨safe, numbered⟩ := sane
                have held := owners_of_handle lives
                -- the target lets go of what it has, then it is handed the rest
                let vacated := Function.update (owners s.handles) target none
                have vacant : vacated target = none :=
                  Function.update_self _ _ _
                have offered : vacated source = o.owned :=
                  (Function.update_of_ne (Ne.symm distinct) _ _).trans
                    (owners_of_handle livesSource)
                have twice : Function.update (owners s.handles) target o.owned =
                    Function.update vacated target (vacated source) := by
                  rw [offered]
                  exact (Function.update_idem _ _ _).symm
                simp only [Sane, Covered, owners_update, Option.bind_some,
                  handed, left, twice, overwrites_iff lives distinct]
                cases isZlib : h.overZlib with
                | true =>
                    rw [isZlib, if_pos rfl] at books
                    subst books
                    refine ⟨⟨(safe.vacate).hands distinct vacant, numbered⟩, ?_⟩
                    rw [Ledger.covered_hands distinct vacant,
                      Ledger.covered_vacate safe, held]
                    simp
                | false =>
                    rw [isZlib, if_neg Bool.false_ne_true, ← held] at books
                    subst books
                    refine ⟨⟨(safe.ends).hands distinct vacant, numbered⟩, ?_⟩
                    rw [Ledger.covered_hands distinct vacant,
                      Ledger.covered_ends]
                    simp

/-- An operation keeps the store sane, and loses a context exactly when it
overwrites one. -/
theorem step_spec {op : Op} {answer : Unit} (step : s.Step op answer s') :
    s'.Sane ∧ (s'.Covered ↔ s.Covered ∧ ¬ s.Overwrites op) := by
  have tidy : ¬ False := id
  cases op with
  | construct addr making =>
      obtain ⟨kept, covered⟩ := construct_spec sane step
      exact ⟨kept, covered.trans (and_iff_left tidy).symm⟩
  | moveConstruct addr source =>
      obtain ⟨kept, covered⟩ := moveConstruct_spec sane step
      exact ⟨kept, covered.trans (and_iff_left tidy).symm⟩
  | moveAssign target source => exact moveAssign_spec sane step
  | destroy addr =>
      obtain ⟨kept, covered⟩ := destroy_spec sane step
      exact ⟨kept, covered.trans (and_iff_left tidy).symm⟩

end Operations

theorem sane_empty : empty.Sane := by
  refine ⟨Ledger.safe_blank, ?_⟩
  intro ctx listed
  cases listed

theorem covered_empty : empty.Covered := Ledger.covered_blank _

/-- An operation that overwrites nothing. -/
def Tidy (s : Store) (op : Op) (answer : Unit) (s' : Store) : Prop :=
  s.Step op answer s' ∧ ¬ s.Overwrites op

/-- Every context that was opened is ended once, by the handle that owns it. -/
structure EndedOnce (s : Store) : Prop where
  notTwice : s.ledger.ended.Nodup
  owned : ∀ ctx ∈ s.ledger.opened, ctx ∉ s.ledger.ended →
    ∃! addr, ∃ h, s.handles addr = some h ∧ h.owned = some ctx
  drained : (∀ addr, s.handles addr = none) →
    ∀ ctx ∈ s.ledger.opened, ctx ∈ s.ledger.ended

theorem owners_eq_some (s : Store) (addr : Nat) (ctx : Context) :
    owners s.handles addr = some ctx ↔ ∃ h, s.handles addr = some h ∧
    h.owned = some ctx :=
  Option.bind_eq_some_iff

theorem endedOnce_iff {s : Store} (sane : s.Sane) :
    s.EndedOnce ↔ s.Covered := by
  obtain ⟨safe, -⟩ := sane
  constructor
  · intro once ctx isOpen
    obtain ⟨addr, owns, -⟩ := once.owned ctx isOpen.1 isOpen.2
    exact ⟨addr, (s.owners_eq_some addr ctx).mpr owns⟩
  · intro covered
    refine ⟨safe.endedOnce, ?_, ?_⟩
    · intro ctx opened notEnded
      obtain ⟨addr, owns⟩ := covered ctx ⟨opened, notEnded⟩
      refine ⟨addr, (s.owners_eq_some addr ctx).mp owns, ?_⟩
      intro addr' owns'
      exact safe.unique addr' addr ctx
        ((s.owners_eq_some addr' ctx).mpr owns') owns
    · intro destroyed ctx opened
      by_contra notEnded
      obtain ⟨addr, owns⟩ := covered ctx ⟨opened, notEnded⟩
      rw [owners_of_vacant (destroyed addr)] at owns
      cases owns

end Store

/-- Nothing is ever ended twice; and every context is ended once, by the handle
that owns it, if and only if no assignment of the run overwrites a zlib handle
that owns a stream. -/
theorem ended_once_iff {trace : List (Op × Unit)} {s : Store}
    (run : Run Store.Step .empty trace s) :
    s.ledger.ended.Nodup ∧ (s.EndedOnce ↔ Run Store.Tidy .empty trace s) := by
  have sane : s.Sane :=
    (run.always Store.Sane (fun _ _ => True)
      (fun sane step => ⟨trivial, (Store.step_spec sane step).1⟩)
        Store.sane_empty).2
  refine ⟨sane.1.endedOnce, (Store.endedOnce_iff sane).trans ?_⟩
  constructor
  · intro covered
    refine (run.sharpen_of_last Store.Sane Store.Covered ?_
      Store.sane_empty covered).2
    intro s op answer s' sane step
    obtain ⟨kept, covered⟩ := Store.step_spec sane step
    refine ⟨kept, ?_⟩
    intro still
    obtain ⟨before, tidy⟩ := covered.mp still
    exact ⟨before, step, tidy⟩
  · intro tidy
    have invariant : s.Sane ∧ s.Covered := by
      refine (tidy.always (fun s => s.Sane ∧ s.Covered) (fun _ _ => True) ?_
        ⟨Store.sane_empty, Store.covered_empty⟩).2
      intro s op answer s' here exchange
      obtain ⟨kept, covered⟩ := Store.step_spec here.1 exchange.1
      exact ⟨trivial, kept, covered.mpr ⟨here.2, exchange.2⟩⟩
    exact invariant.2

/-- A squeezer made, moved away and moved back, and both handles destroyed. -/
def carriedBack : List (Op × Unit) :=
  [(.construct 0 (.zlibSqueezer .gzip ⟨6⟩), ()), (.moveConstruct 1 0,
    ()), (.moveAssign 0 1, ()), (.destroy 1, ()), (.destroy 0, ())]

theorem ended_once_carriedBack :
    ∃ s, Run Store.Step .empty carriedBack s ∧ s.EndedOnce := by
  obtain ⟨s, tidy⟩ : ∃ s, Run Store.Tidy .empty carriedBack s := by
    refine ⟨_,
      .cons ⟨rfl, id⟩ (.cons ⟨rfl, id⟩ (.cons ⟨rfl, ?_⟩ (.cons ⟨rfl, id⟩
      (.one ⟨rfl, id⟩))))⟩
    intro overwrites
    obtain ⟨-, h, ctx, lives, -, owned⟩ := overwrites
    have emptied : h = .zlibSqueezer none := Option.some.inj lives.symm
    rw [emptied] at owned
    cases owned
  have run : Run Store.Step .empty carriedBack s :=
    tidy.sharpen (fun _ => True)
      (fun _ exchange => ⟨exchange.1, trivial⟩) trivial
  exact ⟨s, run, (ended_once_iff run).2.mpr tidy⟩

/-- Two squeezers made, the second assigned to the first, and both destroyed. -/
def assignedOver : List (Op × Unit) :=
  [(.construct 0 (.zlibSqueezer .gzip ⟨6⟩),
    ()), (.construct 1 (.zlibSqueezer .gzip ⟨6⟩), ()),
    (.moveAssign 0 1, ()), (.destroy 1, ()), (.destroy 0, ())]

/-- The stream of the first is never ended. -/
theorem not_ended_once :
    ∃ s, Run Store.Step .empty assignedOver s ∧ ¬ s.EndedOnce := by
  refine ⟨_, .cons rfl (.cons rfl (.cons rfl (.cons rfl (.one rfl)))), ?_⟩
  intro once
  have first : (⟨.deflateInit2, 0⟩ : Context) ∈ [⟨.deflateInit2, 1⟩] := by
    refine once.drained ?_ _ List.mem_cons_self
    intro addr
    simp only [Function.update_apply, Store.empty]
    split_ifs <;> rfl
  revert first
  decide

end Polliwog
