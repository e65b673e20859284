import Polliwog.Streaming.Feeding
import Polliwog.OneShot.Swelling
import Polliwog.Reference.Build

/-!
# Who is blamed for a failure

Every code of an engine but a few is reported as corruption, so that a good
stream is called corrupt when the engine was given no output pointer, found no
memory, or gave up for another reason that is not in the bytes.  Nothing else
has that effect.
-/

namespace Polliwog

open Codec Decompressor

variable {B : Build}

/-- The verdict on a call that was given good bytes. -/
def Fair {α : Type} (starved : Prop) (result : Except Error α) : Prop :=
  ¬ FailsWith .streamCorrupt result ∧ (starved → FailsWith .outOfMemory result)

namespace DecodingLaws

variable (laws : DecodingLaws B)

/-- The engine call of a push runs out of memory. -/
def Starves (d : Decompressor B) (request : Request) : Prop :=
  match d.handle with
  | .zlibSweller h =>
      (B.zlib.inflate (h.stream.load request.input request.out) .noFlush).ret =
        .memError
  | .zstdSweller h =>
      laws.faults.isMemory
        (B.zstd.decompressStream h.ctx { size := request.out.size, pos := 0 }
        { src := request.input.bytes, pos := 0 }).ret = true
  | .zlibStubSweller | .zstdStubSweller => False

/-- The engine call of a swell runs out of memory. -/
def StarvesOnce (f : Format) (src dst : Span) : Prop :=
  if f = .zstd
    then laws.faults.isMemory (B.zstd.decompress dst.size src.bytes).ret = true
  else (B.zlib.inflate ((ZlibSweller.make B.zlib f).stream.load src dst)
    .finish).ret = .memError

/-- The engine call of a swell fails for a reason that is not in the bytes. -/
def FoundersOnce (f : Format) (src dst : Span) : Prop :=
  if f = .zstd
    then laws.faults.Foreign (B.zstd.decompress dst.size src.bytes).ret
  else (B.zlib.inflate ((ZlibSweller.make B.zlib f).stream.load src dst)
    .finish).ret = .memError

variable {laws}

theorem founders_of_starves {d : Decompressor B} {request : Request}
    (starves : laws.Starves d request) : laws.Founders d request := by
  obtain ⟨handle⟩ := d
  cases handle with
  | zlibStubSweller => exact starves.elim
  | zstdStubSweller => exact starves.elim
  | zlibSweller h => exact starves
  | zstdSweller h => exact .inl starves

theorem foundersOnce_of_starves {f : Format} {src dst : Span}
    (starves : laws.StarvesOnce f src dst) : laws.FoundersOnce f src dst := by
  unfold StarvesOnce at starves
  unfold FoundersOnce
  split
  · rw [if_pos ‹_›] at starves
    exact .inl starves
  · rwa [if_neg ‹_›] at starves

variable {f : Format} {s : List UInt8}

/-- On good bytes a push is fair exactly if it is feasible. -/
theorem fair_iff_feasible (complete : (laws.wire f).Complete s) {c c' : Feed B}
    {request : Request} {reply : Reply (Decompressor B) StreamResult}
    (along : laws.Along f s c) (step : c.Step request reply c') :
    (Fair (laws.Starves c.d request) reply.result ↔
      laws.Feasible f c.d request) ∧
      (laws.Feasible f c.d request → laws.Along f s c') := by
  obtain ⟨past, whole, here, owes⟩ := along step.goesOn
  obtain ⟨reached, -⟩ := step.push
  by_cases feasible : laws.Feasible f c.d request
  case neg =>
    have corrupt := laws.push_infeasible here request.input request.out feasible
    rw [reached] at corrupt
    exact ⟨iff_of_false (fun fair => fair.1 corrupt) feasible,
      fun own => absurd own feasible⟩
  obtain ⟨signal, feeds⟩ :=
    laws.push_feeds here owes request.input request.out step.next feasible
  rw [reached] at feeds
  have inside : past ++ request.input.shown f <+: s := by
    rw [← whole]
    exact (List.prefix_append_right_inj past).mpr
      ((request.input.shown_isPrefix f).trans step.next)
  have notBad : signal ≠ .bad :=
    fun bad => complete.not_damaged (.inl inside) (feeds.bad bad)
  have notExtra :
      ¬ (signal = .done ∧ f = .zstd ∧ reply.taken < request.input.size) := by
    intro extra
    obtain ⟨done, rfl, less⟩ := extra
    have isPrefix : past ++ (request.input.shown .zstd).take reply.taken <+:
        past ++ request.input.shown .zstd :=
      (List.prefix_append_right_inj past).mpr (List.take_prefix _ _)
    have same := (laws.wire .zstd).complete_unique (feeds.done done) complete
      (isPrefix.trans inside) List.prefix_rfl
    have long := inside.length_le
    rw [← same, List.length_append, List.length_append, List.length_take,
      Span.length_shown, reach_zstd] at long
    omega
  obtain ⟨r, ok, -⟩ := feeds.verdict.served notBad notExtra
  have fed (starves : laws.Starves c.d request) : False :=
    feasible.1 (founders_of_starves starves)
  refine ⟨iff_of_true ⟨?_, fun starves => (fed starves).elim⟩ feasible,
    fun _ => ?_⟩
  · rw [ok]
    exact FailsWith.not_ok
  · exact laws.along_step whole step feeds ⟨r, ok⟩

variable {src dst : Span}

theorem swell_fair_zlib (member : f ∈ ZlibBackend.formats)
    (has : B.hasZlib = true) (complete : (laws.wire f).Complete src.bytes) :
    Fair (laws.StarvesOnce f src dst) (swell B f src dst).result ↔
      ¬ laws.FoundersOnce f src dst ∧ dst.isNull = false := by
  have foundersIff : laws.FoundersOnce f src dst ↔ (B.zlib.inflate
      ((ZlibSweller.make B.zlib f).stream.load src dst) .finish).ret =
        .memError := by
    rw [FoundersOnce, if_neg (ne_zstd_of_mem member)]
  have fed (own : ¬ laws.FoundersOnce f src dst) :
      ¬ laws.StarvesOnce f src dst :=
    mt foundersOnce_of_starves own
  have verdict := laws.inflate.sweller_verdict member src dst
  rw [Fair, swell_of_zlib member has, OneShot.ofReply, FailsWith.map_iff,
    FailsWith.map_iff]
  let loaded := (ZlibSweller.make B.zlib f).stream.load src dst
  have spoiled (bad : (B.zlib.inflate loaded .finish).ret.signal = .bad) :=
    verdict.spoiled bad
  constructor
  · intro verdictFair
    obtain ⟨fair, -⟩ := verdictFair
    refine ⟨?_, ?_⟩
    · intro founders
      apply fair
      apply spoiled
      rw [foundersIff.mp founders]
      rfl
    · by_contra null
      apply fair
      apply spoiled
      rw [laws.inflate.null_refused loaded .finish (Bool.not_eq_false _ ▸ null)]
      rfl
  · intro feasible
    obtain ⟨own, notNull⟩ := feasible
    refine ⟨?_, fun starves => absurd starves (fed own)⟩
    have reads :=
      laws.inflate.sweller_reads member src notNull (mt foundersIff.mpr own)
    have inside : src.window <+: src.bytes := List.take_prefix _ _
    have notBad : (B.zlib.inflate loaded .finish).ret.signal ≠ .bad :=
      reads.not_bad complete (.inl inside)
    have within : (B.zlib.inflate loaded .finish).taken ≤ src.size :=
      reads.taken_le.trans inside.length_le
    intro corrupt
    rcases Nat.lt_or_ge (B.zlib.inflate loaded .finish).taken src.size
      with less | all
    · cases signal : (B.zlib.inflate loaded .finish).ret.signal with
      | bad => exact notBad signal
      | more =>
          rw [verdict.short signal less, FailsWith.error_iff] at corrupt
          cases corrupt
      | done =>
          obtain ⟨all, same, -⟩ := reads.done_inside signal complete inside
          have long :=
            congrArg List.length (show src.window = src.bytes from same)
          rw [all, long] at less
          exact Nat.lt_irrefl _ less
    · rw [verdict.whole notBad (le_antisymm within all)] at corrupt
      exact FailsWith.not_ok corrupt

theorem swell_fair_zstd (frames : WholeFrameLaws laws) (has : B.hasZstd = true)
    (complete : (laws.wire .zstd).Complete src.bytes)
    (fits : ((laws.wire .zstd).content src.bytes).length ≤ dst.size) :
    Fair (laws.StarvesOnce .zstd src dst) (swell B .zstd src dst).result ↔
      ¬ laws.FoundersOnce .zstd src dst ∧
        B.zstd.isError ((laws.wire .zstd).content src.bytes).length =
          false := by
  have foundersIff : laws.FoundersOnce .zstd src dst ↔
      laws.faults.Foreign (B.zstd.decompress dst.size src.bytes).ret :=
    iff_of_eq (if_pos rfl)
  have corrupt : FailsWith .streamCorrupt (swell B .zstd src dst).result ↔
      B.zstd.isError (B.zstd.decompress dst.size src.bytes).ret = true := by
    rw [swell_of_zstd has, OneShot.ofReply, FailsWith.map_iff]
    simp only [ZstdSweller.push]
    cases B.zstd.isError
      (B.zstd.decompress dst.size src.bytes).ret <;> simp [Zstd.failure]
  rw [Fair, corrupt, Bool.not_eq_true]
  constructor
  · intro verdictFair
    obtain ⟨fair, -⟩ := verdictFair
    have own : ¬ laws.faults.Foreign
        (B.zstd.decompress dst.size src.bytes).ret := by
      intro foreign
      rw [laws.fault_isError _ foreign] at fair
      cases fair
    rw [frames.decompress_frame dst.size _ complete fits own] at fair
    exact ⟨mt foundersIff.mp own, fair⟩
  · intro feasible
    obtain ⟨own, sized⟩ := feasible
    rw [frames.decompress_frame dst.size _ complete fits
      (mt foundersIff.mpr own)]
    exact ⟨sized, fun starves => absurd (foundersOnce_of_starves starves) own⟩

end DecodingLaws

/-- Good bytes are blamed exactly for what was no fault of theirs: a failure of
the engine for a reason that is not in them, a lack of memory among these, and a
null output span of a zlib decompressor or swell.  (The size of a frame's
content that reads as an error is taken for one.) -/
theorem fair_iff {laws : DecodingLaws B} (frames : WholeFrameLaws laws)
    {f : Format} {s : List UInt8} (serves : B.Serves f)
    (complete : (laws.wire f).Complete s) :
    (∀ trace c,
      Run (fun c request reply c' =>
        c.Step request reply c' ∧ Fair (laws.Starves c.d request) reply.result)
        (Feed.start B f s) trace c ↔
      Run (fun c request reply c' =>
        c.Step request reply c' ∧ laws.Feasible f c.d request)
        (Feed.start B f s) trace c) ∧
    (∀ src dst : Span, src.bytes = s →
      ((laws.wire f).content s).length ≤ dst.size →
      (Fair (laws.StarvesOnce f src dst) (swell B f src dst).result ↔
        ¬ laws.FoundersOnce f src dst ∧
          ((f = .zstd ∧
            B.zstd.isError ((laws.wire f).content s).length = false) ∨
            (f ≠ .zstd ∧ dst.isNull = false)))) := by
  refine ⟨?_, ?_⟩
  · intro trace c
    have along := laws.along_start serves s
    constructor
    · intro run
      refine run.sharpen (laws.Along f s) ?_ along
      intro c request reply c' along exchange
      obtain ⟨step, fair⟩ := exchange
      obtain ⟨same, next⟩ := DecodingLaws.fair_iff_feasible complete along step
      exact ⟨⟨step, same.mp fair⟩, next (same.mp fair)⟩
    · intro run
      refine run.sharpen (laws.Along f s) ?_ along
      intro c request reply c' along exchange
      obtain ⟨step, feasible⟩ := exchange
      obtain ⟨same, next⟩ := DecodingLaws.fair_iff_feasible complete along step
      exact ⟨⟨step, same.mpr feasible⟩, next feasible⟩
  · rintro src dst rfl fits
    rcases mem_formats_or_zstd serves with ⟨has, member⟩ | ⟨has, rfl⟩
    · rw [DecodingLaws.swell_fair_zlib member has complete]
      simp [ne_zstd_of_mem member]
    · rw [DecodingLaws.swell_fair_zstd frames has complete fits]
      simp

/-- A zlib stream of five bytes. -/
def fivePacked : Span :=
  .ofBytes (unixLaws.packed .zlib ⟨0⟩ fiveBytes) (by decide)

theorem complete_fivePacked :
    (unixDecoding.wire .zlib).Complete fivePacked.bytes := by
  have complete :
      (unixLaws.wire .zlib).Complete (unixLaws.packed .zlib ⟨0⟩ fiveBytes) :=
    unixLaws.complete_packed (by decide) (by decide)
  exact complete

theorem fair_five :
    Fair (unixDecoding.Starves (.construct unixBuild .zlib) ⟨fivePacked,
      .zeros 5 (by decide)⟩)
      ((Decompressor.construct unixBuild .zlib).push fivePacked
        (.zeros 5 (by decide))).result := by
  let c : Feed unixBuild := .start unixBuild .zlib fivePacked.bytes
  let request : Decompressor.Request := ⟨fivePacked, .zeros 5 (by decide)⟩
  have step :
      c.Step request (c.d.push request.input request.out) (c.after request) :=
    Feed.step_after rfl List.prefix_rfl
  have feasible : unixDecoding.Feasible .zlib c.d request := by
    refine ⟨?_, .inr rfl⟩
    change ¬ (unixBuild.zlib.inflate _ _).ret = _
    decide
  have run :=
    ((fair_iff (storedFrames 64 unix_wide 3) (by decide) complete_fivePacked).1
    [(request, c.d.push request.input request.out)] _).mpr
      (.one ⟨step, feasible⟩)
  cases run with
  | cons exchange _ => exact exchange.2

/-- An empty span without data makes a good zlib stream corrupt. -/
theorem not_fair_five :
    unixBuild.Serves .zlib ∧
      ∃ s, (unixLaws.wire .zlib).Complete s ∧
        ∃ trace c, Run Feed.Step (.start unixBuild .zlib s) trace c ∧
          ∃ entry ∈ trace, FailsWith .streamCorrupt entry.2.result := by
  let c : Feed unixBuild := .start unixBuild .zlib fivePacked.bytes
  let request : Decompressor.Request := ⟨fivePacked, .empty⟩
  have step :
      c.Step request (c.d.push request.input request.out) (c.after request) :=
    Feed.step_after rfl List.prefix_rfl
  have failed :
      FailsWith .streamCorrupt (c.d.push request.input request.out).result := by
    apply unixDecoding.push_infeasible
      (unixDecoding.hasRead_construct (by decide))
    rintro ⟨-, isZstd | notNull⟩
    · cases isZstd
    · cases notNull
  exact ⟨by decide, _, complete_fivePacked, _, _, .one step, _,
    List.mem_singleton.mpr rfl, failed⟩

end Polliwog
