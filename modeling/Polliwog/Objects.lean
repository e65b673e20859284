import Polliwog.Codec.Pool
import Polliwog.Ownership
import Polliwog.Reference.Build
import Polliwog.Session

/-!
# The objects of a program

`compressor` and `decompressor` each keep a `std::unique_ptr` to an impl, which
keeps one handle, and leave their moves and destructors to the compiler.  A
handle is made as a temporary, moved into the impl, and never assigned to: so
the contexts that an assignment to a handle may lose are not lost here.  The
one-shot functions keep a handle of their own for as long as they run.
-/

namespace Polliwog

open Codec

variable {B : Build}

def compressorImpl (B : Build) :
    Boxed (Format × ZlibLevel) (Compressor B) Compressor.Request
      (Reply (Compressor B) StreamResult) where
  build args := (Compressor.construct B args.1 args.2).object.toOption
  step := Compressor.Step

def decompressorImpl (B : Build) :
    Boxed Format (Decompressor B) Decompressor.Request
      (Reply (Decompressor B) StreamResult) where
  build f := some (.construct B f)
  step := Decompressor.Step

/-- The handle that an alternative is made from, unless it is a stub. -/
def SqueezerVariant.making (f : Format) (lvl : ZlibLevel) :
    SqueezerVariant B → Option Making
  | .zlibSqueezer _ => some (.zlibSqueezer f lvl)
  | .zstdSqueezer _ => some (.zstdSqueezer f ⟨lvl.toInt⟩)
  | .zlibStubSqueezer | .zstdStubSqueezer => none

def SwellerVariant.making (f : Format) : SwellerVariant B → Option Making
  | .zlibSweller _ => some (.zlibSweller f)
  | .zstdSweller _ => some (.zstdSweller f)
  | .zlibStubSweller | .zstdStubSweller => none

def SqueezerVariant.isReal : SqueezerVariant B → Bool
  | .zlibSqueezer _ | .zstdSqueezer _ => true
  | .zlibStubSqueezer | .zstdStubSqueezer => false

def SwellerVariant.isReal : SwellerVariant B → Bool
  | .zlibSweller _ | .zstdSweller _ => true
  | .zlibStubSweller | .zstdStubSweller => false

/-- Where a handle lives before it is moved into an impl, and where one lives
that never is. -/
def temporary : Nat := 0

/-- A handle is made, moved to its place, and destroyed where it came from. -/
def intoCell (cell : Nat) : Option Making → List Op
  | none => []
  | some making =>
      [.construct temporary making, .moveConstruct cell temporary,
        .destroy temporary]

/-- A handle is made, and destroyed at the end of the call. -/
def duringCall : Option Making → List Op
  | none => []
  | some making => [.construct temporary making, .destroy temporary]

/-- Where the impls of a class keep their handles. -/
structure Housing {ξ κ ρ α : Type} (kind : Boxed ξ κ ρ α) where
  cell : Nat → Nat
  making : ξ → Option Making
  isReal : κ → Bool
  apart : Function.Injective cell
  settled : ∀ n, cell n ≠ temporary
  built : ∀ args k, kind.build args = some k → isReal k = (making args).isSome
  kept : ∀ k request answer k', kind.step k request answer k' →
    isReal k' = isReal k

theorem isReal_makeSqueezer (f : Format) (lvl : ZlibLevel) :
    (makeSqueezer B f lvl).isReal =
      ((makeSqueezer B f lvl).making f lvl).isSome := by
  cases makeSqueezer B f lvl <;> rfl

theorem isReal_makeSweller (f : Format) :
    (makeSweller B f).isReal = ((makeSweller B f).making f).isSome := by
  cases makeSweller B f <;> rfl

theorem Compressor.construct_toOption {f : Format} {lvl : ZlibLevel}
    {c : Compressor B} (built : (construct B f lvl).object.toOption = some c) :
    c = .of B f lvl ∧ (f ≠ .zstd → 0 ≤ lvl.toInt ∧ lvl.toInt ≤ 9) := by
  unfold construct at built
  split at built
  case isTrue => cases built
  case isFalse accepted =>
    cases built
    refine ⟨rfl, ?_⟩
    intro notZstd
    by_contra outside
    refine accepted ⟨notZstd, ?_⟩
    omega

/-- No call changes the alternative that a compressor holds. -/
theorem Compressor.isReal_step {c c' : Compressor B} {request : Request}
    {reply : Reply (Compressor B) StreamResult}
    (step : c.Step request reply c') :
    c'.handle.isReal = c.handle.isReal := by
  obtain ⟨handle⟩ := c
  cases handle with
  | zlibSqueezer h =>
      obtain ⟨-, rfl, -⟩ := step_zlib step
      rfl
  | zstdSqueezer h =>
      obtain ⟨-, -, -, rfl⟩ := step_zstd step
      rfl
  | zlibStubSqueezer =>
      obtain ⟨returned, rfl⟩ := step
      cases request <;> cases returned <;> rfl
  | zstdStubSqueezer =>
      obtain ⟨returned, rfl⟩ := step
      cases request <;> cases returned <;> rfl

theorem Decompressor.isReal_step {d d' : Decompressor B} {request : Request}
    {reply : Reply (Decompressor B) StreamResult}
    (step : d.Step request reply d') :
    d'.handle.isReal = d.handle.isReal := by
  obtain ⟨rfl, rfl⟩ := step
  obtain ⟨handle⟩ := d
  cases handle <;> rfl

def compressorHousing (B : Build) : Housing (compressorImpl B) where
  cell n := 2 * n + 1
  making args := (makeSqueezer B args.1 args.2).making args.1 args.2
  isReal c := c.handle.isReal
  apart := by
    intro n m same
    simp only at same
    omega
  settled n := by
    simp [temporary]
  built := by
    intro args c built
    obtain ⟨rfl, -⟩ := Compressor.construct_toOption built
    exact isReal_makeSqueezer args.1 args.2
  kept _ _ _ _ step := Compressor.isReal_step step

def decompressorHousing (B : Build) : Housing (decompressorImpl B) where
  cell n := 2 * n + 2
  making f := (makeSweller B f).making f
  isReal d := d.handle.isReal
  apart := by
    intro n m same
    simp only at same
    omega
  settled n := by
    simp [temporary]
  built := by
    intro f d built
    cases built
    exact isReal_makeSweller f
  kept _ _ _ _ step := Decompressor.isReal_step step

namespace Store

/-- A handle lives at an address. -/
def Lives (s : Store) (addr : Nat) : Prop := ∃ h, s.handles addr = some h

/-- Operations one after another. -/
def Does (s : Store) (ops : List Op) (s' : Store) : Prop :=
  Run Step s (ops.map fun op => (op, ())) s'

variable {s s' : Store}

theorem does_nil : s.Does [] s' ↔ s' = s := by
  constructor
  · intro does
    cases does
    rfl
  · intro same
    exact same ▸ .nil s

theorem does_cons {op : Op} {ops : List Op} :
    s.Does (op :: ops) s' ↔ ∃ mid, s.apply op = some mid ∧ mid.Does ops s' := by
  constructor
  · intro does
    cases does with
    | cons first rest => exact ⟨_, first, rest⟩
  · intro does
    obtain ⟨mid, first, rest⟩ := does
    exact .cons first rest

theorem Does.kept {ops : List Op} (does : s.Does ops s')
    (unassigned : ∀ target source, .moveAssign target source ∉ ops)
    (sane : s.Sane) (covered : s.Covered) : s'.Sane ∧ s'.Covered := by
  induction ops generalizing s with
  | nil =>
      obtain rfl := does_nil.mp does
      exact ⟨sane, covered⟩
  | cons op ops ih =>
      obtain ⟨mid, first, rest⟩ := does_cons.mp does
      have step : s.Step op () mid := first
      obtain ⟨kept, still⟩ := step_spec sane step
      apply ih rest _ kept
      · apply still.mpr ⟨covered, _⟩
        intro overwrites
        cases op with
        | moveAssign target source =>
            exact unassigned target source List.mem_cons_self
        | construct _ _ => exact overwrites
        | moveConstruct _ _ => exact overwrites
        | destroy _ => exact overwrites
      · intro target source listed
        exact unassigned target source (List.mem_cons_of_mem _ listed)

theorem not_lives_iff {addr : Nat} :
    ¬ s.Lives addr ↔ s.handles addr = none := by
  simp [Lives, Option.eq_none_iff_forall_ne_some]

theorem lives_update_some (handles : Nat → Option Handle) (addr a : Nat)
    (h : Handle) (ledger : Contexts) :
    (⟨Function.update handles addr (some h), ledger⟩ : Store).Lives a ↔
      a = addr ∨ (⟨handles, ledger⟩ : Store).Lives a := by
  rcases eq_or_ne a addr with rfl | other
  · simp [Lives]
  · simp [Lives, other]

theorem construct_lives {addr : Nat} (making : Making)
    (vacant : ¬ s.Lives addr) :
    ∃ s', s.apply (.construct addr making) = some s' ∧
      ∀ a, s'.Lives a ↔ a = addr ∨ s.Lives a := by
  rw [not_lives_iff] at vacant
  simp only [apply, vacant]
  exact ⟨_, rfl, fun a => lives_update_some _ _ _ _ _⟩

theorem moveConstruct_lives {addr source : Nat} (vacant : ¬ s.Lives addr)
    (lives : s.Lives source) :
    ∃ s', s.apply (.moveConstruct addr source) = some s' ∧
      ∀ a, s'.Lives a ↔ a = addr ∨ s.Lives a := by
  rw [not_lives_iff] at vacant
  obtain ⟨h, here⟩ := lives
  simp only [apply, vacant, here]
  refine ⟨_, rfl, ?_⟩
  intro a
  rw [lives_update_some, lives_update_some]
  constructor
  · intro there
    rcases there with rfl | there
    · exact .inr ⟨h, here⟩
    · exact there
  · exact .inr

theorem destroy_lives {addr : Nat} (lives : s.Lives addr) :
    ∃ s', s.apply (.destroy addr) = some s' ∧
      ∀ a, s'.Lives a ↔ a ≠ addr ∧ s.Lives a := by
  obtain ⟨h, here⟩ := lives
  simp only [apply, here]
  refine ⟨_, rfl, ?_⟩
  intro a
  rcases eq_or_ne a addr with rfl | other
  · simp [Lives]
  · simp [Lives, other]

theorem does_intoCell {cell : Nat} (making : Making) (apart : cell ≠ temporary)
    (bare : ¬ s.Lives temporary) (vacant : ¬ s.Lives cell) :
    ∃ s', s.Does (intoCell cell (some making)) s' ∧
      ∀ a, s'.Lives a ↔ a = cell ∨ s.Lives a := by
  obtain ⟨s₁, made, lives₁⟩ := construct_lives making bare
  have vacant₁ : ¬ s₁.Lives cell := by
    rw [lives₁]
    exact not_or.mpr ⟨apart, vacant⟩
  obtain ⟨s₂, moved, lives₂⟩ :=
    moveConstruct_lives vacant₁ ((lives₁ _).mpr (.inl rfl))
  have there : s₂.Lives temporary :=
    (lives₂ _).mpr (.inr ((lives₁ _).mpr (.inl rfl)))
  obtain ⟨s₃, ended, lives₃⟩ := destroy_lives there
  refine ⟨s₃, .cons made (.cons moved (.one ended)), ?_⟩
  intro a
  rw [lives₃, lives₂, lives₁]
  constructor
  · intro lives
    obtain ⟨other, inCell | atFirst | before⟩ := lives
    · exact .inl inCell
    · exact absurd atFirst other
    · exact .inr before
  · intro lives
    rcases lives with rfl | before
    · exact ⟨apart, .inl rfl⟩
    · refine ⟨?_, .inr (.inr before)⟩
      intro same
      exact bare (same ▸ before)

theorem does_duringCall (making : Option Making) (bare : ¬ s.Lives temporary) :
    ∃ s', s.Does (duringCall making) s' ∧ ∀ a, s'.Lives a ↔ s.Lives a := by
  cases making with
  | none => exact ⟨s, .nil s, fun a => Iff.rfl⟩
  | some making =>
      obtain ⟨s₁, made, lives₁⟩ := construct_lives making bare
      obtain ⟨s₂, ended, lives₂⟩ := destroy_lives ((lives₁ _).mpr (.inl rfl))
      refine ⟨s₂, .cons made (.one ended), ?_⟩
      intro a
      rw [lives₂, lives₁]
      constructor
      · intro lives
        exact lives.2.resolve_left lives.1
      · intro lives
        refine ⟨?_, .inr lives⟩
        intro same
        exact bare (same ▸ lives)

theorem Does.unique {ops : List Op} {s'' : Store} (does : s.Does ops s')
    (does' : s.Does ops s'') : s' = s'' := by
  induction ops generalizing s with
  | nil => exact (does_nil.mp does).trans (does_nil.mp does').symm
  | cons op ops ih =>
      obtain ⟨mid, first, rest⟩ := does_cons.mp does
      obtain ⟨mid', first', rest'⟩ := does_cons.mp does'
      obtain rfl := Option.some.inj (first.symm.trans first')
      exact ih rest rest'

end Store

namespace Housing

variable {ξ κ ρ α : Type} {kind : Boxed ξ κ ρ α} (housing : Housing kind)

/-- The end of the handle in an impl that is deleted. -/
def release : Option (Nat × κ) → List Op
  | none => []
  | some gone =>
      if housing.isReal gone.2 then [.destroy (housing.cell gone.1)] else []

/-- What an operation on the objects of a class does to the handles. -/
def handleOps : Pool.Op Nat ξ ρ → Pool.Answer κ α → List Op
  | .make _ args, .made n => intoCell (housing.cell n) (housing.making args)
  | _, .deleted gone => housing.release gone
  | _, _ => []

/-- The impl keeps a handle. -/
def Houses (p : Pool Nat κ) (n : Nat) : Prop :=
  ∃ k, p.box n = some k ∧ housing.isReal k = true

/-- Each handle of a class is where an impl keeps it. -/
def AtHome (p : Pool Nat κ) (s : Store) : Prop :=
  ∀ n, s.Lives (housing.cell n) ↔ housing.Houses p n

theorem handleOps_unassigned (op : Pool.Op Nat ξ ρ) (answer : Pool.Answer κ α)
    (target source : Nat) :
    .moveAssign target source ∉ housing.handleOps op answer := by
  have release (gone : Option (Nat × κ)) :
      .moveAssign target source ∉ housing.release gone := by
    cases gone with
    | none => simp [Housing.release]
    | some gone =>
        unfold Housing.release
        split <;> simp
  cases answer with
  | deleted gone => cases op <;> exact release gone
  | made n =>
      cases op with
      | make addr args =>
          cases making :
            housing.making args <;> simp [handleOps, making, intoCell]
      | _ => simp [handleOps]
  | _ => cases op <;> simp [handleOps]

variable {housing} {p p' : Pool Nat κ} {s : Store}

theorem houses_update_some (n m : Nat) (k : κ) :
    housing.Houses { p with box := Function.update p.box n (some k) } m ↔
      (m = n ∧ housing.isReal k = true) ∨ (m ≠ n ∧ housing.Houses p m) := by
  rcases eq_or_ne m n with rfl | other
  · simp [Houses]
  · simp [Houses, other]

theorem houses_delete (n m : Nat) :
    housing.Houses (p.delete (some n)) m ↔ m ≠ n ∧ housing.Houses p m := by
  rcases eq_or_ne m n with rfl | other
  · simp [Houses, Pool.delete]
  · simp [Houses, Pool.delete, other]

/-- What an operation on objects does to the handles can always be done; each
handle of the class is at home again, and no other is touched. -/
structure MovesIn (housing : Housing kind) (p' : Pool Nat κ) (s : Store)
    (ops : List Op) (s' : Store) : Prop where
  does : s.Does ops s'
  home : housing.AtHome p' s'
  others : ∀ a, (∀ n, a ≠ housing.cell n) → (s'.Lives a ↔ s.Lives a)

/-- The handles of another class stay at home. -/
theorem MovesIn.aside {ops : List Op} {s' : Store}
    (moves : housing.MovesIn p' s ops s') {ξ' κ' ρ' α' : Type}
    {kind' : Boxed ξ' κ' ρ' α'} {other : Housing kind'} {q : Pool Nat κ'}
    (apart : ∀ n m, other.cell n ≠ housing.cell m) (home : other.AtHome q s) :
    other.AtHome q s' := by
  intro n
  rw [moves.others _ (apart n)]
  exact home n

theorem movesIn_release {addr : Nat} {held : Option Nat} (sound : p.Sound)
    (home : housing.AtHome p s) (points : p.pointer addr = some held) :
    ∃ s', housing.MovesIn (p.delete held) s
      (housing.release (p.gone held)) s' := by
  cases held with
  | none => exact ⟨s, .nil s, home, fun a _ => Iff.rfl⟩
  | some n =>
      obtain ⟨k, here⟩ := sound.alive points
      have gone : p.gone (some n) = some (n, k) := by
        simp [Pool.gone, here]
      rw [gone]
      cases real : housing.isReal k with
      | false =>
          have nothing : housing.release (some (n, k)) = [] := by
            simp [release, real]
          rw [nothing]
          refine ⟨s, .nil s, ?_, fun a _ => Iff.rfl⟩
          intro m
          rw [home, houses_delete]
          constructor
          · intro houses
            refine ⟨?_, houses⟩
            intro same
            obtain ⟨k', there, real'⟩ := houses
            rw [same, here, Option.some.injEq] at there
            rw [← there, real] at real'
            cases real'
          · exact And.right
      | true =>
          have ends : housing.release (some (n, k)) =
              [.destroy (housing.cell n)] := by
            simp [release, real]
          rw [ends]
          obtain ⟨s', destroyed, lives⟩ :=
            Store.destroy_lives ((home n).mpr ⟨k, here, real⟩)
          refine ⟨s', .one destroyed, ?_, ?_⟩
          · intro m
            rw [lives, home, houses_delete, housing.apart.ne_iff]
          · intro a elsewhere
            rw [lives]
            exact and_iff_right (elsewhere n)

theorem movesIn {op : Pool.Op Nat ξ ρ} {answer : Pool.Answer κ α}
    (step : Pool.Step kind p op answer p') (sound : p.Sound)
    (bare : ¬ s.Lives temporary) (home : housing.AtHome p s) :
    ∃ s', housing.MovesIn p' s (housing.handleOps op answer) s' := by
  cases step with
  | threw _ _ => exact ⟨s, .nil s, home, fun a _ => Iff.rfl⟩
  | moveConstruct _ _ => exact ⟨s, .nil s, home, fun a _ => Iff.rfl⟩
  | selfAssign _ => exact ⟨s, .nil s, home, fun a _ => Iff.rfl⟩
  | moveAssign _ points _ =>
      obtain ⟨s', does, home', others⟩ := movesIn_release sound home points
      exact ⟨s', does, home', others⟩
  | destroy points =>
      obtain ⟨s', does, home', others⟩ := movesIn_release sound home points
      exact ⟨s', does, home', others⟩
  | @use addr n k k' request answer points here exchange =>
      refine ⟨s, .nil s, ?_, fun a _ => Iff.rfl⟩
      intro m
      rw [home, houses_update_some, housing.kept _ _ _ _ exchange]
      rcases eq_or_ne m n with rfl | other
      · simp [Houses, here]
      · simp [other]
  | @make addr args k vacant built =>
      have real := housing.built _ _ built
      have unmade : ¬ housing.Houses p p.ledger.opened.length := by
        intro houses
        obtain ⟨k', here, -⟩ := houses
        exact sound.unseen ((sound.live _).mpr ⟨k', here⟩).1
      have houses (m : Nat) : housing.Houses (p.make addr k) m ↔
          (m = p.ledger.opened.length ∧ housing.isReal k = true) ∨
            (m ≠ p.ledger.opened.length ∧ housing.Houses p m) :=
        houses_update_some _ _ _
      cases making : housing.making args with
      | none =>
          rw [making, Option.isSome_none] at real
          have nothing : housing.handleOps (.make addr args : Pool.Op Nat ξ ρ)
              (.made p.ledger.opened.length : Pool.Answer κ α) = [] := by
            simp [handleOps, making, intoCell]
          rw [nothing]
          refine ⟨s, .nil s, ?_, fun a _ => Iff.rfl⟩
          intro m
          rw [home, houses, real]
          constructor
          · intro there
            refine .inr ⟨?_, there⟩
            intro same
            exact unmade (same ▸ there)
          · intro there
            rcases there with ⟨-, absurdity⟩ | ⟨-, there⟩
            · cases absurdity
            · exact there
      | some plan =>
          rw [making, Option.isSome_some] at real
          have vacantCell : ¬ s.Lives (housing.cell p.ledger.opened.length) :=
            mt (home _).mp unmade
          obtain ⟨s', does, lives⟩ :=
            Store.does_intoCell plan (housing.settled _) bare vacantCell
          have ops : housing.handleOps (.make addr args : Pool.Op Nat ξ ρ)
              (.made p.ledger.opened.length : Pool.Answer κ α) =
                intoCell (housing.cell p.ledger.opened.length) (some plan) := by
            simp [handleOps, making]
          refine ⟨s', ops ▸ does, ?_, ?_⟩
          · intro m
            rw [lives, home, houses, housing.apart.eq_iff, real]
            rcases eq_or_ne m p.ledger.opened.length with rfl | other
            · simp
            · simp [other]
          · intro a elsewhere
            rw [lives]
            exact or_iff_right (elsewhere _)

end Housing

/-- The objects of a program at their addresses, by class, and the handles that
their impls keep. -/
structure World (B : Build) where
  compressors : Pool Nat (Compressor B)
  decompressors : Pool Nat (Decompressor B)
  store : Store

abbrev Compressor.Op := Pool.Op Nat (Format × ZlibLevel) Compressor.Request

abbrev Compressor.Answer (B : Build) :=
  Pool.Answer (Compressor B) (Reply (Compressor B) StreamResult)

abbrev Decompressor.Op := Pool.Op Nat Format Decompressor.Request

abbrev Decompressor.Answer (B : Build) :=
  Pool.Answer (Decompressor B) (Reply (Decompressor B) StreamResult)

/-- The handle that a one-shot call keeps, once it is past its checks. -/
def OneShot.handleOps (call : OneShot) (making : Option Making) : List Op :=
  match call.calls with
  | [] => []
  | _ :: _ => duringCall making

namespace World

inductive Op where
  | compressor (op : Compressor.Op)
  | decompressor (op : Decompressor.Op)
  | squeeze (f : Format) (lvl : ZlibLevel) (input out : Span)
  | swell (f : Format) (input out : Span)

inductive Answer (B : Build) where
  | compressor (answer : Compressor.Answer B)
  | decompressor (answer : Decompressor.Answer B)
  | oneShot (call : OneShot)

def blank : World B := ⟨.blank, .blank, .empty⟩

def compressing (entry : Compressor.Op × Compressor.Answer B) : Op × Answer B :=
  (.compressor entry.1, .compressor entry.2)

/-- One operation of a program. -/
inductive Step : World B → Op → Answer B → World B → Prop where
  | compressor {w : World B} {op : Compressor.Op} {answer : Compressor.Answer B}
      {pool : Pool Nat (Compressor B)} {store : Store} :
      Pool.Step (compressorImpl B) w.compressors op answer pool →
      w.store.Does ((compressorHousing B).handleOps op answer) store →
      Step w (.compressor op) (.compressor answer) ⟨pool,
        w.decompressors, store⟩
  | decompressor {w : World B} {op : Decompressor.Op}
    {answer : Decompressor.Answer B}
      {pool : Pool Nat (Decompressor B)} {store : Store} :
      Pool.Step (decompressorImpl B) w.decompressors op answer pool →
      w.store.Does ((decompressorHousing B).handleOps op answer) store →
      Step w (.decompressor op) (.decompressor answer) ⟨w.compressors,
        pool, store⟩
  | squeeze {w : World B} {f : Format} {lvl : ZlibLevel} {input out : Span}
    {store : Store} :
      w.store.Does ((Polliwog.squeeze B f lvl input out).handleOps
        ((makeSqueezer B f lvl).making f lvl)) store →
      Step w (.squeeze f lvl input out)
        (.oneShot (Polliwog.squeeze B f lvl input out))
        { w with store := store }
  | swell {w : World B} {f : Format} {input out : Span} {store : Store} :
      w.store.Does ((Polliwog.swell B f input out).handleOps
        ((makeSweller B f).making f)) store →
      Step w (.swell f input out) (.oneShot (Polliwog.swell B f input out))
        { w with store := store }

/-- Each handle is at home in the impl that keeps it, and each context with the
handle that owns it. -/
structure Sound (w : World B) : Prop where
  compressors : w.compressors.Sound
  decompressors : w.decompressors.Sound
  sane : w.store.Sane
  covered : w.store.Covered
  compressing : (compressorHousing B).AtHome w.compressors w.store
  decompressing : (decompressorHousing B).AtHome w.decompressors w.store
  nowhere : ∀ addr, (∀ n, addr ≠ (compressorHousing B).cell n) →
    (∀ n, addr ≠ (decompressorHousing B).cell n) → ¬ w.store.Lives addr

theorem cells_apart (n m : Nat) :
    (compressorHousing B).cell n ≠ (decompressorHousing B).cell m := by
  change 2 * n + 1 ≠ 2 * m + 2
  omega

theorem sound_blank : (blank : World B).Sound where
  compressors := Pool.sound_blank
  decompressors := Pool.sound_blank
  sane := Store.sane_empty
  covered := Store.covered_empty
  compressing n := by
    simp [Store.Lives, Housing.Houses, blank, Store.empty, Pool.blank]
  decompressing n := by
    simp [Store.Lives, Housing.Houses, blank, Store.empty, Pool.blank]
  nowhere addr _ _ := by simp [Store.Lives, blank, Store.empty]

namespace Sound

variable {w w' : World B} (sound : w.Sound)

include sound

theorem bare : ¬ w.store.Lives temporary :=
  sound.nowhere temporary
    (fun n same => (compressorHousing B).settled n same.symm)
    fun n same => (decompressorHousing B).settled n same.symm

theorem compressor {op : Compressor.Op} {answer : Compressor.Answer B}
    {pool : Pool Nat (Compressor B)}
    (step : Pool.Step (compressorImpl B) w.compressors op answer pool) :
    ∃ store, w.store.Does ((compressorHousing B).handleOps op answer) store ∧
      (⟨pool, w.decompressors, store⟩ : World B).Sound := by
  obtain ⟨store, moves⟩ :=
    Housing.movesIn step sound.compressors sound.bare sound.compressing
  obtain ⟨sane, covered⟩ := moves.does.kept
    ((compressorHousing B).handleOps_unassigned op answer) sound.sane
      sound.covered
  refine ⟨store, moves.does, step.sound sound.compressors, sound.decompressors,
    sane, covered,
    moves.home,
    moves.aside (fun n m => (cells_apart m n).symm) sound.decompressing, ?_⟩
  intro addr notHere notThere
  rw [moves.others addr notHere]
  exact sound.nowhere addr notHere notThere

theorem decompressor {op : Decompressor.Op} {answer : Decompressor.Answer B}
    {pool : Pool Nat (Decompressor B)}
    (step : Pool.Step (decompressorImpl B) w.decompressors op answer pool) :
    ∃ store, w.store.Does ((decompressorHousing B).handleOps op answer) store ∧
      (⟨w.compressors, pool, store⟩ : World B).Sound := by
  obtain ⟨store, moves⟩ :=
    Housing.movesIn step sound.decompressors sound.bare sound.decompressing
  obtain ⟨sane, covered⟩ := moves.does.kept
    ((decompressorHousing B).handleOps_unassigned op answer) sound.sane
      sound.covered
  refine ⟨store, moves.does, sound.compressors, step.sound sound.decompressors,
    sane, covered, moves.aside cells_apart sound.compressing, moves.home, ?_⟩
  intro addr notHere notThere
  rw [moves.others addr notThere]
  exact sound.nowhere addr notHere notThere

theorem oneShot (call : OneShot) (making : Option Making) :
    ∃ store, w.store.Does (call.handleOps making) store ∧
      ({ w with store := store } : World B).Sound := by
  obtain ⟨store, does, lives⟩ :
      ∃ store, w.store.Does (call.handleOps making) store ∧
      ∀ a, store.Lives a ↔ w.store.Lives a := by
    unfold OneShot.handleOps
    split
    · exact ⟨w.store, .nil _, fun a => Iff.rfl⟩
    · exact Store.does_duringCall making sound.bare
  have unassigned (target source : Nat) :
      .moveAssign target source ∉ call.handleOps making := by
    unfold OneShot.handleOps
    split
    · simp
    · cases making <;> simp [duringCall]
  obtain ⟨sane, covered⟩ := does.kept unassigned sound.sane sound.covered
  refine ⟨store, does, sound.compressors, sound.decompressors, sane,
    covered, ?_, ?_, ?_⟩
  · intro n
    rw [lives]
    exact sound.compressing n
  · intro n
    rw [lives]
    exact sound.decompressing n
  · intro addr notHere notThere
    rw [lives]
    exact sound.nowhere addr notHere notThere

theorem step {op : Op} {answer : Answer B} (step : w.Step op answer w') :
    w'.Sound := by
  cases step with
  | compressor step does =>
      obtain ⟨store, does', kept⟩ := sound.compressor step
      exact does.unique does' ▸ kept
  | decompressor step does =>
      obtain ⟨store, does', kept⟩ := sound.decompressor step
      exact does.unique does' ▸ kept
  | squeeze does =>
      obtain ⟨store, does', kept⟩ := sound.oneShot _ _
      exact does.unique does' ▸ kept
  | swell does =>
      obtain ⟨store, does', kept⟩ := sound.oneShot _ _
      exact does.unique does' ▸ kept

/-- A program that only handles compressors. -/
theorem follow {trace : List (Compressor.Op × Compressor.Answer B)}
    {pool : Pool Nat (Compressor B)}
    (run : Run (Pool.Step (compressorImpl B)) w.compressors trace pool) :
    ∃ w', Run Step w (trace.map World.compressing) w' ∧ w'.compressors = pool ∧
      w'.decompressors = w.decompressors ∧ w'.Sound := by
  generalize begun : w.compressors = start at run
  induction run generalizing w with
  | nil => exact ⟨w, .nil w, begun, rfl, sound⟩
  | cons exchange _ ih =>
      rw [← begun] at exchange
      obtain ⟨store, does, kept⟩ := sound.compressor exchange
      obtain ⟨w', later, same, others, kept'⟩ := ih kept rfl
      exact ⟨w', .cons (.compressor exchange does) later, same, others, kept'⟩

end Sound

/-- The object that a context belongs to: a compressor's address, or a
decompressor's. -/
def Owns (w : World B) : Nat ⊕ Nat → Context → Prop
  | .inl addr, ctx => ∃ n h, w.compressors.pointer addr = some (some n) ∧
      w.store.handles ((compressorHousing B).cell n) = some h ∧
      h.owned = some ctx
  | .inr addr, ctx => ∃ n h, w.decompressors.pointer addr = some (some n) ∧
      w.store.handles ((decompressorHousing B).cell n) = some h ∧
      h.owned = some ctx

/-- Nothing is deleted or ended twice, and whatever is not yet belongs to one
object. -/
structure EndedOnce (w : World B) : Prop where
  deletedOnce : w.compressors.ledger.ended.Nodup ∧
    w.decompressors.ledger.ended.Nodup
  endedOnce : w.store.ledger.ended.Nodup
  /-- What an object points to is there to be called. -/
  alive : (∀ addr n, w.compressors.pointer addr = some (some n) →
      ∃ c, w.compressors.box n = some c) ∧
    ∀ addr n, w.decompressors.pointer addr = some (some n) →
    ∃ d, w.decompressors.box n = some d
  owned : ∀ ctx, w.store.ledger.Open ctx → ∃! object, w.Owns object ctx
  /-- Objects that are gone, or were moved from, leave nothing behind. -/
  drained : (∀ addr, w.compressors.owner addr = none) →
    (∀ addr, w.decompressors.owner addr = none) →
    (∀ n ∈ w.compressors.ledger.opened, n ∈ w.compressors.ledger.ended) ∧
      (∀ n ∈ w.decompressors.ledger.opened, n ∈ w.decompressors.ledger.ended) ∧
      ∀ ctx ∈ w.store.ledger.opened, ctx ∈ w.store.ledger.ended

/-- An impl that keeps a handle belongs to an object. -/
theorem pointer_of_houses {ξ κ ρ α : Type} {kind : Boxed ξ κ ρ α}
    {housing : Housing kind} {p : Pool Nat κ} (sound : p.Sound) {n : Nat}
    (houses : housing.Houses p n) :
    ∃ addr, p.pointer addr = some (some n) := by
  obtain ⟨k, here, -⟩ := houses
  obtain ⟨addr, owns⟩ := sound.covered n ((sound.live n).mpr ⟨k, here⟩)
  exact ⟨addr, Option.join_eq_some_iff.mp owns⟩

theorem Sound.owned {w : World B} (sound : w.Sound) {ctx : Context}
    (isOpen : w.store.ledger.Open ctx) : ∃ object, w.Owns object ctx := by
  obtain ⟨addr, owns⟩ := sound.covered ctx isOpen
  obtain ⟨h, here, owned⟩ := (w.store.owners_eq_some addr ctx).mp owns
  have lives : w.store.Lives addr := ⟨h, here⟩
  by_cases compressing : ∃ n, addr = (compressorHousing B).cell n
  · obtain ⟨n, rfl⟩ := compressing
    obtain ⟨object, points⟩ :=
      pointer_of_houses sound.compressors ((sound.compressing n).mp lives)
    exact ⟨.inl object, n, h, points, here, owned⟩
  · by_cases decompressing : ∃ n, addr = (decompressorHousing B).cell n
    · obtain ⟨n, rfl⟩ := decompressing
      obtain ⟨object, points⟩ :=
        pointer_of_houses sound.decompressors ((sound.decompressing n).mp lives)
      exact ⟨.inr object, n, h, points, here, owned⟩
    · exact absurd lives (sound.nowhere addr (not_exists.mp compressing)
        (not_exists.mp decompressing))

theorem Sound.owner_unique {w : World B} (sound : w.Sound) {ctx : Context}
    {object object' : Nat ⊕ Nat} (owns : w.Owns object ctx)
    (owns' : w.Owns object' ctx) :
    object = object' := by
  have sameCell {a a' : Nat} {h h' : Handle} (here : w.store.handles a = some h)
      (owned : h.owned = some ctx) (here' : w.store.handles a' = some h')
      (owned' : h'.owned = some ctx) : a = a' :=
    sound.sane.1.unique a a' ctx
      ((w.store.owners_eq_some a ctx).mpr ⟨h, here, owned⟩)
      ((w.store.owners_eq_some a' ctx).mpr ⟨h', here', owned'⟩)
  cases object with
  | inl addr =>
      obtain ⟨n, h, points, here, owned⟩ := owns
      cases object' with
      | inl addr' =>
          obtain ⟨n', h', points', here', owned'⟩ := owns'
          obtain rfl :=
            (compressorHousing B).apart (sameCell here owned here' owned')
          exact congrArg _ (sound.compressors.safe.unique addr addr' n
            (Pool.owner_of_pointer points) (Pool.owner_of_pointer points'))
      | inr addr' =>
          obtain ⟨n', h', -, here', owned'⟩ := owns'
          exact absurd (sameCell here owned here' owned') (cells_apart n n')
  | inr addr =>
      obtain ⟨n, h, points, here, owned⟩ := owns
      cases object' with
      | inl addr' =>
          obtain ⟨n', h', -, here', owned'⟩ := owns'
          exact absurd (sameCell here owned here' owned')
            (cells_apart n' n).symm
      | inr addr' =>
          obtain ⟨n', h', points', here', owned'⟩ := owns'
          obtain rfl :=
            (decompressorHousing B).apart (sameCell here owned here' owned')
          exact congrArg _ (sound.decompressors.safe.unique addr addr' n
            (Pool.owner_of_pointer points) (Pool.owner_of_pointer points'))

theorem Sound.endedOnce {w : World B} (sound : w.Sound) : w.EndedOnce where
  deletedOnce :=
    ⟨sound.compressors.safe.endedOnce, sound.decompressors.safe.endedOnce⟩
  endedOnce := sound.sane.1.endedOnce
  alive := ⟨fun _ _ => sound.compressors.alive,
    fun _ _ => sound.decompressors.alive⟩
  owned := by
    intro ctx isOpen
    obtain ⟨object, owns⟩ := sound.owned isOpen
    exact ⟨object, owns, fun object' owns' => sound.owner_unique owns' owns⟩
  drained := by
    intro noCompressor noDecompressor
    refine ⟨sound.compressors.drained noCompressor,
      sound.decompressors.drained noDecompressor, ?_⟩
    intro ctx opened
    by_contra notEnded
    obtain ⟨object, owns⟩ := sound.owned ⟨opened, notEnded⟩
    cases object with
    | inl addr =>
        obtain ⟨n, -, points, -⟩ := owns
        have holds := Pool.owner_of_pointer points
        rw [noCompressor addr] at holds
        cases holds
    | inr addr =>
        obtain ⟨n, -, points, -⟩ := owns
        have holds := Pool.owner_of_pointer points
        rw [noDecompressor addr] at holds
        cases holds

/-- What was done with compressors, among everything that was done. -/
def onCompressors : Op × Answer B → Option (Compressor.Op × Compressor.Answer B)
  | (.compressor op, .compressor answer) => some (op, answer)
  | _ => none

def onDecompressors :
    Op × Answer B → Option (Decompressor.Op × Decompressor.Answer B)
  | (.decompressor op, .decompressor answer) => some (op, answer)
  | _ => none

/-- The calls on one compressor's impl, through whichever object held it. -/
def compressorCalls (n : Nat) (trace : List (Op × Answer B)) :
    Compressor.Trace B :=
  Pool.calls n (trace.filterMap onCompressors)

def decompressorCalls (n : Nat) (trace : List (Op × Answer B)) :
    Decompressor.Trace B :=
  Pool.calls n (trace.filterMap onDecompressors)

variable {w : World B} {trace : List (Op × Answer B)}

theorem compressors_of_run (run : Run Step .blank trace w) :
    Run (Pool.Step (compressorImpl B)) .blank
      (trace.filterMap onCompressors) w.compressors := by
  refine run.project World.compressors onCompressors ?_ ?_
  · intro w op answer w' step unpicked
    cases step with
    | compressor _ _ => cases unpicked
    | decompressor _ _ => rfl
    | squeeze _ => rfl
    | swell _ => rfl
  · intro w op answer w' entry step picked
    cases step with
    | compressor step _ =>
        cases picked
        exact step
    | decompressor _ _ => cases picked
    | squeeze _ => cases picked
    | swell _ => cases picked

theorem decompressors_of_run (run : Run Step .blank trace w) :
    Run (Pool.Step (decompressorImpl B)) .blank
      (trace.filterMap onDecompressors) w.decompressors := by
  refine run.project World.decompressors onDecompressors ?_ ?_
  · intro w op answer w' step unpicked
    cases step with
    | compressor _ _ => rfl
    | decompressor _ _ => cases unpicked
    | squeeze _ => rfl
    | swell _ => rfl
  · intro w op answer w' entry step picked
    cases step with
    | compressor _ _ => cases picked
    | decompressor step _ =>
        cases picked
        exact step
    | squeeze _ => cases picked
    | swell _ => cases picked

/-- The calls on a compressor's impl are a session with a compressor of the
format and level that it was made with. -/
theorem compressor_session (run : Run Step .blank trace w) {addr n : Nat}
    {f : Format} {lvl : ZlibLevel}
    (made : (.compressor (.make addr (f, lvl)), .compressor (.made n)) ∈
      trace) :
    (f ≠ .zstd → 0 ≤ lvl.toInt ∧ lvl.toInt ≤ 9) ∧
      ∃ c, Run Compressor.Step (.of B f lvl) (compressorCalls n trace) c := by
  have listed : (.make addr (f, lvl), .made n) ∈
      trace.filterMap onCompressors :=
    List.mem_filterMap.mpr ⟨_, made, rfl⟩
  obtain ⟨seed, c, built, session⟩ :=
    Pool.session_of_made (compressors_of_run run) listed
  obtain ⟨rfl, accepted⟩ := Compressor.construct_toOption built
  exact ⟨accepted, c, session⟩

theorem decompressor_session (run : Run Step .blank trace w) {addr n : Nat}
    {f : Format}
    (made : (.decompressor (.make addr f), .decompressor (.made n)) ∈ trace) :
    ∃ d, Run Decompressor.Step (.construct B f)
      (decompressorCalls n trace) d := by
  have listed : (.make addr f, .made n) ∈ trace.filterMap onDecompressors :=
    List.mem_filterMap.mpr ⟨_, made, rfl⟩
  obtain ⟨seed, d, built, session⟩ :=
    Pool.session_of_made (decompressors_of_run run) listed
  cases built
  exact ⟨d, session⟩

end World

/-- Whatever a program does with compressors, decompressors and the one-shot
functions, every impl and every context is ended once, by the one object that
it belongs to. -/
theorem objects_end_once {trace : List (World.Op × World.Answer B)}
    {w : World B} (run : Run World.Step .blank trace w) : w.EndedOnce := by
  have sound : w.Sound :=
    (run.always World.Sound (fun _ _ => True)
      (fun sound step => ⟨trivial, sound.step step⟩) World.sound_blank).2
  exact sound.endedOnce

/-- Two compressors made, the second assigned to the first, and both destroyed.
-/
def assignedObjects : List Compressor.Op :=
  [.make 0 (.gzip, ⟨6⟩), .make 1 (.gzip,
    ⟨6⟩), .moveAssign 0 1, .destroy 1, .destroy 0]

theorem objects_end_once_assigned :
    ∃ (trace : List (Compressor.Op × Compressor.Answer unixBuild))
      (w : World unixBuild), trace.map Prod.fst = assignedObjects ∧
        Run World.Step .blank (trace.map World.compressing) w ∧
        w.EndedOnce := by
  have pooled : ∃ trace pool, trace.map Prod.fst = assignedObjects ∧
      Run (Pool.Step (compressorImpl unixBuild)) .blank trace pool :=
    ⟨_, _, rfl, .cons (.make rfl rfl) (.cons (.make rfl rfl)
      (.cons (.moveAssign Nat.zero_ne_one rfl rfl)
        (.cons (.destroy rfl) (.one (.destroy rfl)))))⟩
  obtain ⟨trace, pool, told, run⟩ := pooled
  obtain ⟨w, worldly, -⟩ := World.sound_blank.follow run
  exact ⟨trace, w, told, worldly, objects_end_once worldly⟩

/-- Whatever a program does with its other objects, and wherever a compressor or
a decompressor is moved, the calls on it are a session of its own. -/
theorem sessions_apart {trace : List (World.Op × World.Answer B)} {w : World B}
    (run : Run World.Step .blank trace w) :
    (∀ n ∈ w.compressors.ledger.opened, ∃ addr f lvl c,
      (.compressor (.make addr (f, lvl)), .compressor (.made n)) ∈ trace ∧
        (f ≠ .zstd → 0 ≤ lvl.toInt ∧ lvl.toInt ≤ 9) ∧
        Run Compressor.Step (.of B f lvl) (World.compressorCalls n trace) c ∧
        ∀ c', w.compressors.box n = some c' → c' = c) ∧
    ∀ n ∈ w.decompressors.ledger.opened, ∃ addr f d,
      (.decompressor (.make addr f), .decompressor (.made n)) ∈ trace ∧
        Run Decompressor.Step (.construct B f)
          (World.decompressorCalls n trace) d ∧
        ∀ d', w.decompressors.box n = some d' → d' = d := by
  constructor
  · intro n opened
    have told := Pool.told_of_run (World.compressors_of_run run)
    obtain ⟨addr, args, seed, c, made, built, session, current⟩ :=
      told.lived n opened
    obtain ⟨rfl, accepted⟩ := Compressor.construct_toOption built
    obtain ⟨entry, listed, picked⟩ := List.mem_filterMap.mp made
    refine ⟨addr, args.1, args.2, c, ?_, accepted, session, current⟩
    obtain ⟨op, answer⟩ := entry
    cases op <;> cases answer <;> cases picked
    exact listed
  · intro n opened
    have told := Pool.told_of_run (World.decompressors_of_run run)
    obtain ⟨addr, f, seed, d, made, built, session, current⟩ :=
      told.lived n opened
    cases built
    obtain ⟨entry, listed, picked⟩ := List.mem_filterMap.mp made
    refine ⟨addr, f, d, ?_, session, current⟩
    obtain ⟨op, answer⟩ := entry
    cases op <;> cases answer <;> cases picked
    exact listed

/-- A compressor called, moved, and called where it is then. -/
def movedObject : List (Compressor.Op × Compressor.Answer unixBuild) :=
  let pushed :=
    (Compressor.of unixBuild .gzip ⟨0⟩).push fiveBytes (.zeros 48 (by decide))
  [(.make 0 (.gzip, ⟨0⟩), .made 0),
    (.use 0 (.push fiveBytes (.zeros 48 (by decide))), .replied 0 pushed),
    (.moveConstruct 1 0, .moved),
    (.use 1 (.flush (.zeros 48 (by decide))),
      .replied 0 (pushed.handle.flush (.zeros 48 (by decide))))]

theorem sessions_apart_moved :
    ∃ w : World unixBuild,
    Run World.Step .blank (movedObject.map World.compressing) w ∧
      ∃ f lvl c, Run Compressor.Step (.of unixBuild f lvl)
        (World.compressorCalls 0 (movedObject.map World.compressing)) c := by
  have pooled : ∃ pool,
      Run (Pool.Step (compressorImpl unixBuild)) .blank movedObject pool ∧
      0 ∈ pool.ledger.opened :=
    ⟨_, .cons (.make rfl rfl)
      (.cons (.use rfl rfl ⟨rfl, rfl⟩) (.cons (.moveConstruct rfl rfl)
      (.one (.use rfl rfl ⟨rfl, rfl⟩)))), List.mem_cons_self⟩
  obtain ⟨pool, run, opened⟩ := pooled
  obtain ⟨w, worldly, same, -⟩ := World.sound_blank.follow run
  obtain ⟨addr, f, lvl, c, -, -, session, -⟩ :=
    (sessions_apart worldly).1 0 (same ▸ opened)
  exact ⟨w, worldly, f, lvl, c, session⟩

end Polliwog
