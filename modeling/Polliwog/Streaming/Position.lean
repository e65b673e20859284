import Polliwog.Streaming.Feeding
import Polliwog.OneShot.Swelling
import Polliwog.Reference.Build

/-!
# Where an extra-data error points

The position of the error is a total of the stream in the zlib backend and a
position in the last chunk in the zstd backend.  A one-shot call has only one
chunk; in a session they differ as soon as something was consumed before.
-/

namespace Polliwog

open Codec Decompressor

variable {B : Build}

/-- The text of the error. -/
def extraData : String := "extra data after end of stream"

/-- The extra data of a zlib swell begins at the total of what was read. -/
theorem ZlibSweller.push_extra (h : ZlibSweller B.zlib) {input out : Span}
    {e : Error} (failed : (h.push input out).result = .error e)
    (note : e.note = extraData) :
    let call := B.zlib.inflate (h.stream.load input out) .finish
    call.ret = .streamEnd ∧ e.pos = call.stream.totalIn.toNat := by
  simp only [push] at failed
  split at failed
  case isTrue ended =>
    split at failed
    · cases failed
      exact ⟨ended, rfl⟩
    · cases failed
  case isFalse =>
    have notShort : "" ≠ extraData := by decide
    have notSpoiled : "inflate" ≠ extraData := by decide
    split at failed
    · split at failed <;> cases failed
      exact absurd note notShort
    · cases failed
      exact absurd note notSpoiled

theorem ZlibSweller.pushMore_note (h : ZlibSweller B.zlib) {input out : Span}
    {e : Error}
    (failed : ((⟨.zlibSweller h⟩ : Decompressor B).push input out).result =
      .error e) :
    e.note ≠ extraData := by
  simp only [Decompressor.push, SwellerVariant.pushVisitor, Reply.map,
    pushMore] at failed
  split at failed
  · cases failed
  · split at failed
    · cases failed
    · have different : "inflate" ≠ extraData := by decide
      cases failed
      exact different

/-- The extra data of a zstd decompressor begins where its chunk ended the
frame. -/
theorem ZstdSweller.pushMore_extra
    (names : ∀ ret, B.zstd.getErrorName ret ≠ extraData)
    {h : ZstdSweller B.zstd} {input out : Span} {e : Error}
    (failed : ((⟨.zstdSweller h⟩ : Decompressor B).push input out).result =
      .error e)
    (note : e.note = extraData) :
    let call := B.zstd.decompressStream h.ctx { size := out.size, pos := 0 }
      { src := input.bytes, pos := 0 }
    B.zstd.signal call.ret = .done ∧ e.pos = call.input.pos := by
  simp only [Decompressor.push, SwellerVariant.pushVisitor, Reply.map,
    pushMore] at failed
  split at failed
  case isTrue =>
    cases failed
    exact absurd note (names _)
  case isFalse isOk =>
    split at failed
    case isTrue ended =>
      cases failed
      have done := of_decide_eq_true ended.1
      refine ⟨?_, rfl⟩
      rw [Zstd.signal, if_neg isOk, if_pos done]
    case isFalse => cases failed

namespace DecodingLaws

variable (laws : DecodingLaws B) {f : Format} {s t past left : List UInt8}

theorem along_run {input : List UInt8} {c c' : Feed B} {trace : Trace B}
    (along : laws.Along f input c) (run : Run Feed.Step c trace c')
    (served : ∀ entry ∈ trace, ∃ r, entry.2.result = .ok r) :
    laws.Along f input c' := by
  induction run with
  | nil => exact along
  | @cons c mid c' request reply trace step _ ih =>
      obtain ⟨past, whole, here, owes⟩ := along step.goesOn
      obtain ⟨r, ok⟩ := served _ List.mem_cons_self
      have reached := step.push.1
      have feasible : laws.Feasible f c.d request := by
        by_contra infeasible
        have corrupt :=
          laws.push_infeasible here request.input request.out infeasible
        rw [reached, show reply.result = .ok r from ok] at corrupt
        exact FailsWith.not_ok corrupt
      obtain ⟨signal, feeds⟩ :=
        laws.push_feeds here owes request.input request.out step.next feasible
      rw [reached] at feeds
      apply ih (laws.along_step whole step feeds ⟨r, ok⟩)
      intro entry listed
      exact served entry (List.mem_cons_of_mem _ listed)

/-- An extra-data error of a push points to where its chunk ended the stream. -/
theorem push_extra {d : Decompressor B} (here : laws.HasRead f past d)
    (owes : laws.Owes f past left d)
    (names : ∀ ret, B.zstd.getErrorName ret ≠ extraData) {input out : Span}
    (next : input.bytes <+: left) {e : Error}
    (failed : (d.push input out).result = .error e)
    (note : e.note = extraData) :
    (laws.wire f).Complete (past ++ input.bytes.take e.pos) ∧
    e.pos ≤ input.bytes.length := by
  obtain ⟨handle⟩ := d
  cases handle with
  | zlibStubSweller => exact here.elim
  | zstdStubSweller => exact here.elim
  | zlibSweller h => exact absurd note (h.pushMore_note failed)
  | zstdSweller h =>
      obtain ⟨rfl, opened, rfl⟩ := here
      obtain ⟨done, pos⟩ := ZstdSweller.pushMore_extra names failed note
      let input' : InBuffer := { src := input.bytes, pos := 0 }
      let output' : OutBuffer := { size := out.size, pos := 0 }
      have own : ¬ laws.faults.Foreign
          (B.zstd.decompressStream h.ctx output' input').ret := by
        intro foreign
        rw [Zstd.signal, if_pos (laws.fault_isError _ foreign)] at done
        cases done
      have buffers := laws.zstd.within h.ctx output' input'
      have feeds : laws.ZstdFeeds _ left h output' input' :=
        laws.zstd_feeds opened owes next own
      have taken : e.pos = laws.zstd.taken h.ctx output' input' :=
        pos.trans (buffers.inPos.trans (Nat.zero_add _))
      rw [taken]
      exact ⟨feeds.done done, buffers.taken_le⟩

theorem swell_extra (serves : B.Serves f)
    (names : ∀ ret, B.zstd.getErrorName ret ≠ extraData)
    (complete : (laws.wire f).Complete s) {src dst : Span}
    (bytes : src.bytes = s ++ t) {e : Error}
    (failed : (swell B f src dst).result = .error e)
    (note : e.note = extraData) :
    e.pos = s.length := by
  rcases mem_formats_or_zstd serves with ⟨has, member⟩ | ⟨has, rfl⟩
  case inr =>
    rw [swell_of_zstd has] at failed
    simp only [OneShot.ofReply, ZstdSweller.push] at failed
    split at failed
    · cases failed
      exact absurd note (names _)
    · cases failed
  let loaded := (ZlibSweller.make B.zlib f).stream.load src dst
  have selects := windowContainer_windowBitsFor member
  have zeroIn : loaded.totalIn = 0 := (laws.inflate.open_counts selects).1
  obtain ⟨inCount, -⟩ := laws.inflate.counts loaded .finish
  have refused : ((ZlibSweller.make B.zlib f).push src dst).result =
      .error e := by
    rw [swell_of_zlib member has] at failed
    cases verdict : ((ZlibSweller.make B.zlib f).push src dst).result with
    | ok r =>
        rw [OneShot.result_of_ok verdict] at failed
        cases failed
    | error e' =>
        rw [OneShot.result_of_error verdict] at failed
        cases failed
        rfl
  obtain ⟨ret, pos⟩ := ZlibSweller.push_extra _ refused note
  have notNull : dst.isNull = false := by
    by_contra null
    rw [laws.inflate.null_refused loaded .finish (Bool.not_eq_false _ ▸ null)]
      at ret
    cases ret
  have own : ¬ (B.zlib.inflate loaded .finish).ret = .memError := by
    rw [ret]
    decide
  have reads := laws.inflate.sweller_reads member src notNull own
  simp only [ret] at reads
  have shown : loaded.offered <+: s ++ t := bytes ▸ List.take_prefix _ _
  have same : loaded.offered.take (B.zlib.inflate loaded .finish).taken = s :=
    (laws.wire f).complete_unique (reads.done rfl).1 complete
      ((List.take_prefix _ _).trans shown) (List.prefix_append s t)
  have takenLe : (B.zlib.inflate loaded .finish).taken ≤
      loaded.offered.length := reads.taken_le
  have count := congrArg List.length same
  rw [List.length_take, Nat.min_eq_left takenLe] at count
  have seen : loaded.offered.length < 2 ^ 32 :=
    src.length_window.trans_lt (uInt_lt _)
  have wide := uInt_le_uLong B.zlib
  have zero : (0 : BitVec B.zlib.ulongBits).toNat = 0 := by simp
  rw [pos, inCount, zeroIn, BitVec.toNat_add, BitVec.toNat_ofNat,
    Nat.add_mod_mod, zero, Nat.mod_eq_of_lt (by omega)]
  omega

end DecodingLaws

/-- The position is that of the end of the stream in every one-shot call, and
in a session exactly if nothing was consumed before the push that fails. -/
theorem extra_position_iff (laws : DecodingLaws B) {f : Format}
    {s t : List UInt8} (serves : B.Serves f)
    (complete : (laws.wire f).Complete s)
    (names : ∀ ret, B.zstd.getErrorName ret ≠ extraData) :
    (∀ src dst : Span, src.bytes = s ++ t →
      ∀ e, (swell B f src dst).result = .error e → e.note = extraData →
      e.pos = s.length) ∧
    (∀ trace c, Run Feed.Step (.start B f (s ++ t)) trace c →
      (∀ entry ∈ trace, ∃ r, entry.2.result = .ok r) →
      ∀ request reply c', c.Step request reply c' →
        ∀ e, reply.result = .error e → e.note = extraData →
          (e.pos = s.length ↔ c.left = s ++ t)) := by
  refine ⟨fun src dst bytes e failed note =>
    laws.swell_extra serves names complete bytes failed note, ?_⟩
  intro trace c run served request reply c' step e failed note
  obtain ⟨past, whole, here, owes⟩ :=
    laws.along_run (laws.along_start serves (s ++ t)) run served step.goesOn
  have reached := step.push.1
  rw [← reached] at failed
  obtain ⟨ended, within⟩ :=
    laws.push_extra here owes names step.next failed note
  have inside : past ++ request.input.bytes.take e.pos <+: s ++ t := by
    rw [← whole]
    exact (List.prefix_append_right_inj past).mpr
      ((List.take_prefix _ _).trans step.next)
  have same : past ++ request.input.bytes.take e.pos = s :=
    (laws.wire f).complete_unique ended complete inside (List.prefix_append s t)
  have count := congrArg List.length same
  rw [List.length_append, List.length_take, Nat.min_eq_left within] at count
  have total := congrArg List.length whole
  rw [List.length_append] at total
  constructor
  · intro absolute
    have nothing : past = [] := List.length_eq_zero_iff.mp (by omega)
    rw [← whole, nothing, List.nil_append]
  · intro untouched
    rw [untouched] at total
    omega

theorem unix_names (ret : Nat) :
    unixBuild.zstd.getErrorName ret ≠ extraData := by
  change RawZstd.getErrorName ret ≠ extraData
  unfold RawZstd.getErrorName
  split_ifs <;> decide

/-- A frame of five bytes and one byte more. -/
def frameAndMore : List UInt8 := frame [1, 2, 3, 4, 5] ++ [0]

theorem extra_position_whole :
    ∃ e, ((Decompressor.construct unixBuild .zstd).push
      (.ofBytes frameAndMore (by decide))
        (.zeros 5 (by decide))).result = .error e ∧
      e.pos = (frame [1, 2, 3, 4, 5]).length := by
  let c : Feed unixBuild := .start unixBuild .zstd frameAndMore
  let request : Decompressor.Request :=
    ⟨.ofBytes frameAndMore (by decide), .zeros 5 (by decide)⟩
  have complete : (unixDecoding.wire .zstd).Complete (frame [1, 2, 3, 4, 5]) :=
    (complete_frame [1, 2, 3, 4, 5]).1
  have step :
      c.Step request (c.d.push request.input request.out) (c.after request) :=
    Feed.step_after rfl List.prefix_rfl
  have failed : (c.d.push request.input request.out).result = .error
      { kind := .streamCorrupt, backend := .zstd, pos := 14,
        note := extraData } := by
    decide
  have positions :=
    (extra_position_iff unixDecoding (t := [0]) (by decide) complete
    unix_names).2 [] c (.nil c) (by simp) request _ _ step _ failed rfl
  exact ⟨_, failed, positions.mpr rfl⟩

/-- In two chunks the same error points into the second of them. -/
theorem not_extra_position :
    unixBuild.Serves .zstd ∧
      ∃ s t, (unixLaws.wire .zstd).Complete s ∧ t ≠ [] ∧
        ∃ trace c, Run Feed.Step (.start unixBuild .zstd (s ++ t)) trace c ∧
          ∃ entry ∈ trace, ∃ e, entry.2.result = .error e ∧ e.note = extraData ∧
            e.pos ≠ s.length := by
  let c : Feed unixBuild := .start unixBuild .zstd frameAndMore
  let first : Decompressor.Request :=
    ⟨.ofBytes (frameAndMore.take 7) (by decide), .zeros 5 (by decide)⟩
  let second : Decompressor.Request :=
    ⟨.ofBytes (frameAndMore.drop 7) (by decide), .zeros 5 (by decide)⟩
  let mid := c.after first
  have firstStep : c.Step first (c.d.push first.input first.out) mid :=
    Feed.step_after rfl (List.take_prefix 7 frameAndMore)
  have left : mid.left = frameAndMore.drop 7 := by decide
  have secondStep :
      mid.Step second (mid.d.push second.input second.out) (mid.after second) :=
    Feed.step_after (by decide) (left ▸ List.prefix_rfl)
  have failed : (mid.d.push second.input second.out).result = .error
      { kind := .streamCorrupt, backend := .zstd, pos := 7,
        note := extraData } := by
    decide
  exact ⟨by decide, frame [1, 2, 3, 4, 5], [0],
    (complete_frame [1, 2, 3, 4, 5]).1, by decide,
    _, _, .cons firstStep (.one secondStep), _,
    List.mem_cons_of_mem _ (List.mem_singleton.mpr rfl),
    _, failed, rfl, by decide⟩

end Polliwog
