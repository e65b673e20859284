import Polliwog.Streaming.Decompressing
import Polliwog.Reference.Build

/-!
# Decompression and the cutting of its input

A caller pushes the chunks of an input in order into ample room, presents what
was not taken again, and stops at the first verdict.  What it arrives at is
decided by the input alone, but for two things: zlib is shown only the low half
of a long chunk's size, and of zstd the verdict on extra data depends on where
the chunks meet.
-/

namespace Polliwog

open Codec

variable {B : Build}

/-- What a caller arrives at. -/
inductive Outcome where
  | done (decoded : List UInt8)
  | failed (kind : Kind)
  | incomplete
  deriving DecidableEq

/-- The caller: `calls` counts its pushes, which picks the output span, and
`decoded` is what they have delivered. -/
inductive Drains (outs : Nat → Span) :
    Decompressor B → List Span → (calls : Nat) → (decoded : List UInt8) →
    Outcome → Prop where
  | exhausted {d : Decompressor B} {calls : Nat} {decoded : List UInt8} :
      Drains outs d [] calls decoded .incomplete
  | failed {d : Decompressor B} {chunk : Span} {chunks : List Span}
    {calls : Nat}
      {decoded : List UInt8} {e : Error} :
      (d.push chunk (outs calls)).result = .error e →
      Drains outs d (chunk :: chunks) calls decoded (.failed e.kind)
  | done {d : Decompressor B} {chunk : Span} {chunks : List Span} {calls : Nat}
      {decoded : List UInt8} {r : StreamResult} :
      (d.push chunk (outs calls)).result = .ok r → r.done = true →
      Drains outs d (chunk :: chunks) calls decoded
        (.done (decoded ++ (d.push chunk (outs calls)).written))
  | next {d : Decompressor B} {chunk : Span} {chunks : List Span} {calls : Nat}
      {decoded : List UInt8} {r : StreamResult} {outcome : Outcome} :
      (d.push chunk (outs calls)).result = .ok r → r.done = false →
      (d.push chunk (outs calls)).taken = chunk.size →
      Drains outs (d.push chunk (outs calls)).handle chunks (calls + 1)
        (decoded ++ (d.push chunk (outs calls)).written) outcome →
      Drains outs d (chunk :: chunks) calls decoded outcome
  | again {d : Decompressor B} {chunk : Span} {chunks : List Span} {calls : Nat}
      {decoded : List UInt8} {r : StreamResult} {outcome : Outcome} :
      (d.push chunk (outs calls)).result = .ok r → r.done = false →
      (d.push chunk (outs calls)).taken < chunk.size →
      Drains outs (d.push chunk (outs calls)).handle
        (chunk.subspan (d.push chunk (outs calls)).taken :: chunks) (calls + 1)
        (decoded ++ (d.push chunk (outs calls)).written) outcome →
      Drains outs d (chunk :: chunks) calls decoded outcome

namespace Drains

variable {outs : Nat → Span} {d : Decompressor B} {chunk : Span}
  {chunks : List Span} {calls : Nat} {decoded : List UInt8} {outcome : Outcome}

theorem nil_iff :
    Drains outs d [] calls decoded outcome ↔ outcome = .incomplete := by
  constructor
  · intro drains
    cases drains
    rfl
  · intro same
    subst same
    exact .exhausted

theorem iff_of_failed {kind : Kind}
    (fails : FailsWith kind (d.push chunk (outs calls)).result) :
    Drains outs d (chunk :: chunks) calls decoded outcome ↔
    outcome = .failed kind := by
  obtain ⟨e, failure, rfl⟩ := fails
  constructor
  · intro drains
    cases drains with
    | failed failure' =>
        rw [failure, Except.error.injEq] at failure'
        rw [failure']
    | done ok _ => simp [failure] at ok
    | next ok _ _ _ => simp [failure] at ok
    | again ok _ _ _ => simp [failure] at ok
  · intro same
    subst same
    exact .failed failure

theorem iff_of_done {r : StreamResult}
    (served : (d.push chunk (outs calls)).result = .ok r)
    (isDone : r.done = true) :
    Drains outs d (chunk :: chunks) calls decoded outcome ↔
      outcome = .done (decoded ++ (d.push chunk (outs calls)).written) := by
  constructor
  · intro drains
    cases drains with
    | failed failure => simp [served] at failure
    | done _ _ => rfl
    | next ok notDone _ _ =>
        rw [served, Except.ok.injEq] at ok
        simp [← ok, isDone] at notDone
    | again ok notDone _ _ =>
        rw [served, Except.ok.injEq] at ok
        simp [← ok, isDone] at notDone
  · intro same
    subst same
    exact .done served isDone

theorem iff_of_taken {r : StreamResult}
    (served : (d.push chunk (outs calls)).result = .ok r)
    (notDone : r.done = false)
    (taken : (d.push chunk (outs calls)).taken = chunk.size) :
    Drains outs d (chunk :: chunks) calls decoded outcome ↔
      Drains outs (d.push chunk (outs calls)).handle chunks (calls + 1)
        (decoded ++ (d.push chunk (outs calls)).written) outcome := by
  constructor
  · intro drains
    cases drains with
    | failed failure => simp [served] at failure
    | done ok isDone =>
        rw [served, Except.ok.injEq] at ok
        simp [← ok, notDone] at isDone
    | next _ _ _ rest => exact rest
    | again _ _ less _ => exact absurd taken (Nat.ne_of_lt less)
  · exact .next served notDone taken

theorem iff_of_left {r : StreamResult}
    (served : (d.push chunk (outs calls)).result = .ok r)
    (notDone : r.done = false)
    (less : (d.push chunk (outs calls)).taken < chunk.size) :
    Drains outs d (chunk :: chunks) calls decoded outcome ↔
      Drains outs (d.push chunk (outs calls)).handle
        (chunk.subspan (d.push chunk (outs calls)).taken :: chunks) (calls + 1)
        (decoded ++ (d.push chunk (outs calls)).written) outcome := by
  constructor
  · intro drains
    cases drains with
    | failed failure => simp [served] at failure
    | done ok isDone =>
        rw [served, Except.ok.injEq] at ok
        simp [← ok, notDone] at isDone
    | next _ _ taken _ => exact absurd taken (Nat.ne_of_lt less)
    | again _ _ _ rest => exact rest
  · exact .again served notDone less

end Drains

/-- The bytes of a list of chunks. -/
def joined (chunks : List Span) : List UInt8 := chunks.flatMap Span.bytes

@[simp] theorem joined_nil : joined [] = [] := rfl

@[simp] theorem joined_cons (chunk : Span) (chunks : List Span) :
    joined (chunk :: chunks) = chunk.bytes ++ joined chunks :=
  List.flatMap_cons

/-- A chunk boundary falls right after `p`. -/
def CutAt (past : List UInt8) (chunks : List Span) (p : List UInt8) : Prop :=
  ∃ before after, chunks = before ++ after ∧ past ++ joined before = p

namespace EngineLaws

variable (laws : EngineLaws B)

/-- No chunk that leaves the stream live is longer than the engine can be
shown. -/
def Presentable (f : Format) : (past : List UInt8) → List Span → Prop
  | _, [] => True
  | past, chunk :: chunks =>
      (laws.wire f).Live (past ++ chunk.shown f) →
        reach f chunk.size = chunk.size ∧
        Presentable f (past ++ chunk.bytes) chunks

/-- What an input makes of a caller that can present all of it. -/
inductive ArrivesAt (f : Format) (past : List UInt8) (chunks : List Span) :
    Outcome → Prop where
  | incomplete : (laws.wire f).Live (past ++ joined chunks) →
    ArrivesAt f past chunks .incomplete
  | corrupt {p : List UInt8} : p <+: past ++ joined chunks →
    (laws.wire f).Corrupt p →
      ArrivesAt f past chunks (.failed .streamCorrupt)
  | complete {p : List UInt8} : p <+: past ++ joined chunks →
    (laws.wire f).Complete p →
      (f = .zstd → CutAt past chunks p) →
      ArrivesAt f past chunks (.done ((laws.wire f).content p))
  | extra {p : List UInt8} : p <+: past ++ joined chunks →
    (laws.wire f).Complete p →
      f = .zstd → ¬ CutAt past chunks p →
      ArrivesAt f past chunks (.failed .streamCorrupt)

/-- Room for all that a chunk adds to the content. -/
def Roomy (f : Format) (past : List UInt8) (chunk out : Span) : Prop :=
  ((laws.wire f).content (past ++ chunk.shown f)).length ≤
    ((laws.wire f).content past).length + reach f out.size

instance (f : Format) (past : List UInt8) (chunk out : Span) :
    Decidable (laws.Roomy f past chunk out) :=
  inferInstanceAs (Decidable (_ ≤ _))

/-- Room for every chunk at its push. -/
def Ample (f : Format) (outs : Nat → Span) :
    (calls : Nat) → (past : List UInt8) →
    List Span → Prop
  | _, _, [] => True
  | calls, past, chunk :: chunks =>
      laws.Roomy f past chunk (outs calls) ∧
        Ample f outs (calls + 1) (past ++ chunk.bytes) chunks

/-- Room to spare for every chunk that shows damage. -/
def Spare (f : Format) (outs : Nat → Span) :
    (calls : Nat) → (past : List UInt8) →
    List Span → Prop
  | _, _, [] => True
  | calls, past, chunk :: chunks =>
      ((laws.wire f).Damaged (past ++ chunk.shown f) →
          ((laws.wire f).content (past ++ chunk.shown f)).length <
            ((laws.wire f).content past).length + reach f (outs calls).size) ∧
        Spare f outs (calls + 1) (past ++ chunk.bytes) chunks

/-- The decompressor has read `past` and delivered its content. -/
structure At (f : Format) (past : List UInt8) (d : Decompressor B) : Prop where
  holds : laws.Decompresses f d
  opened : laws.status d = .opened
  decoder : laws.decoder d = ⟨past, (laws.wire f).content past⟩

variable {laws} {f : Format} {past : List UInt8} {outs : Nat → Span}
  {d : Decompressor B} {chunk out : Span} {calls : Nat}

theorem spare_of_complete {s : List UInt8} (complete : (laws.wire f).Complete s)
    {chunks : List Span} (begins : s <+: past ++ joined chunks) :
    laws.Spare f outs calls past chunks := by
  induction chunks generalizing past calls with
  | nil => trivial
  | cons chunk chunks ih =>
      have whole : past ++ joined (chunk :: chunks) =
          past ++ chunk.bytes ++ joined chunks := by
        rw [joined_cons, List.append_assoc]
      have shown : past ++ chunk.shown f <+:
          past ++ joined (chunk :: chunks) := by
        rw [List.prefix_append_right_inj, joined_cons]
        exact (chunk.shown_isPrefix f).trans (List.prefix_append _ _)
      refine ⟨fun damaged => ?_, ih (whole ▸ begins)⟩
      exact absurd damaged
        (complete.not_damaged (List.prefix_or_prefix_of_prefix shown begins))

theorem At.push_reads (here : laws.At f past d) (chunk : Span)
    (nonempty : 0 < out.size) :
    ∃ taken signal, laws.Reads f d chunk out (d.push chunk out) taken signal ∧
      Dec.Reads (laws.wire f) ⟨past, (laws.wire f).content past⟩ (chunk.shown f)
        (reach f out.size) taken (d.push chunk out).written signal := by
  obtain ⟨taken, signal, reads⟩ := laws.push_reads here.holds here.opened chunk
    (.inr (Span.notNull_of_size_pos nonempty))
  exact ⟨taken, signal, reads, here.decoder ▸ reads.decoder⟩

theorem At.push_live (here : laws.At f past d) (nonempty : 0 < out.size)
    (roomy : laws.Roomy f past chunk out)
    (live : (laws.wire f).Live (past ++ chunk.shown f)) :
    (∃ r, (d.push chunk out).result = .ok r ∧ r.done = false) ∧
      (d.push chunk out).taken = reach f chunk.size ∧
      (laws.wire f).content past ++ (d.push chunk out).written =
        (laws.wire f).content (past ++ chunk.shown f) ∧
      laws.At f (past ++ chunk.shown f) (d.push chunk out).handle := by
  obtain ⟨taken, signal, reads, decoder⟩ := here.push_reads chunk nonempty
  obtain ⟨isMore, all, delivered⟩ := decoder.starves live roomy
  subst isMore
  obtain ⟨r, result, done, -⟩ := reads.verdict.served (by decide) (by simp)
  have advanced := reads.advances (by decide)
  rw [here.decoder, Dec.Reads.take_all all] at advanced
  refine ⟨⟨r, result, by simpa using done⟩, ?_, delivered, reads.holds,
    reads.status (by decide), ?_⟩
  · rw [reads.ledger, all, Span.length_shown]
  · rw [advanced, ← delivered]
    rfl

theorem At.push_complete (here : laws.At f past d) (nonempty : 0 < out.size)
    (roomy : laws.Roomy f past chunk out) {p : List UInt8}
    (complete : (laws.wire f).Complete p)
    (reached : p <+: past ++ chunk.shown f) :
    past ++ chunk.bytes.take (d.push chunk out).taken = p ∧
      (d.push chunk out).taken ≤ chunk.size ∧
      (f = .zstd → (d.push chunk out).taken < chunk.size →
        FailsWith .streamCorrupt (d.push chunk out).result) ∧
      (¬ (f = .zstd ∧ (d.push chunk out).taken < chunk.size) →
        (∃ r, (d.push chunk out).result = .ok r ∧ r.done = true) ∧
          (laws.wire f).content past ++ (d.push chunk out).written =
            (laws.wire f).content p) := by
  obtain ⟨taken, signal, reads, decoder⟩ := here.push_reads chunk nonempty
  have content : (laws.wire f).content (past ++ chunk.shown f) =
      (laws.wire f).content p :=
    (laws.wire f).content_final complete reached
  rw [Roomy, content] at roomy
  obtain ⟨isDone, same, delivered⟩ := decoder.ends complete reached roomy
  subst isDone
  have takenLe := decoder.taken_le
  rw [Span.length_shown] at takenLe
  rw [Span.shown, List.take_take, Nat.min_eq_left takenLe] at same
  rw [reads.ledger]
  refine ⟨same, takenLe.trans (reach_le f chunk.size),
    fun isZstd less => reads.verdict.extra rfl isZstd less, ?_⟩
  intro notExtra
  obtain ⟨r, result, done, -⟩ :=
    reads.verdict.served (by decide) (by simpa using notExtra)
  exact ⟨⟨r, result, done.mpr rfl⟩, delivered⟩

/-- A push that reaches the damage of a stream is refused, if the engines are
prompt or there is room to spare. -/
theorem At.push_damaged (here : laws.At f past d) (nonempty : 0 < out.size)
    (roomy : laws.Roomy f past chunk out)
    (reveals : PromptLaws laws ∨
      ((laws.wire f).Damaged (past ++ chunk.shown f) →
        ((laws.wire f).content (past ++ chunk.shown f)).length <
          ((laws.wire f).content past).length + reach f out.size))
    (damaged : (laws.wire f).Damaged (past ++ chunk.shown f)) :
    FailsWith .streamCorrupt (d.push chunk out).result := by
  obtain ⟨taken, signal, reads, decoder⟩ := here.push_reads chunk nonempty
  apply reads.verdict.spoiled
  rcases reveals with prompt | spare
  · exact (here.decoder ▸ reads.prompt prompt) damaged roomy
  · exact decoder.breaks damaged (spare damaged)

theorem At.push_hidden (here : laws.At f past d) (nonempty : 0 < out.size)
    (live : (laws.wire f).Live past) (hidden : reach f chunk.size = 0) :
    (∃ r, (d.push chunk out).result = .ok r ∧ r.done = false) ∧
      (d.push chunk out).taken = 0 ∧
      laws.At f past (d.push chunk out).handle := by
  have nothing : past ++ chunk.shown f = past := by
    rw [Span.shown, hidden, List.take_zero, List.append_nil]
  have roomy : laws.Roomy f past chunk out := by
    rw [Roomy, nothing]
    exact Nat.le_add_right _ _
  obtain ⟨served, taken, -, next⟩ :=
    here.push_live nonempty roomy (nothing.symm ▸ live)
  rw [nothing] at next
  exact ⟨served, taken.trans hidden, next⟩

/-- A remainder that the engine is shown nothing of is presented for ever. -/
theorem not_drains_of_hidden (nonempty : ∀ calls, 0 < (outs calls).size)
    (live : (laws.wire f).Live past) {chunks presented : List Span}
    {decoded : List UInt8} {outcome : Outcome}
    (drains : Drains outs d presented calls decoded outcome)
    (shape : presented = chunk :: chunks) (here : laws.At f past d)
    (remains : 0 < chunk.size) (hidden : reach f chunk.size = 0) : False := by
  induction drains generalizing chunk with
  | exhausted => cases shape
  | @failed d chunk' chunks' calls decoded e failure =>
      cases shape
      obtain ⟨⟨r, served, -⟩, -, -⟩ :=
        here.push_hidden (nonempty calls) live hidden
      rw [failure] at served
      cases served
  | @done d chunk' chunks' calls decoded r ok isDone =>
      cases shape
      obtain ⟨⟨r', served, notDone⟩, -, -⟩ :=
        here.push_hidden (nonempty calls) live hidden
      rw [ok] at served
      cases served
      rw [isDone] at notDone
      cases notDone
  | @next d chunk' chunks' calls decoded r outcome ok notDone taken _ _ =>
      cases shape
      obtain ⟨-, none, -⟩ := here.push_hidden (nonempty calls) live hidden
      omega
  | @again d chunk' chunks' calls decoded r outcome ok notDone taken _ ih =>
      cases shape
      obtain ⟨-, none, next⟩ := here.push_hidden (nonempty calls) live hidden
      apply ih rfl next
      · rw [none, Span.size_subspan]
        exact remains
      · rw [none, Span.size_subspan]
        exact hidden

/-- What is left of a chunk that was not shown whole is not shown at all. -/
theorem reach_rest {size : Nat} (short : reach f size < size) :
    0 < size - reach f size ∧ reach f (size - reach f size) = 0 := by
  refine ⟨Nat.sub_pos_of_lt short, ?_⟩
  unfold reach at short ⊢
  by_cases isZstd : f = .zstd
  · simp [isZstd] at short
  · simp only [isZstd, if_false, uInt] at short ⊢
    omega

theorem arrivesAt_iff_of_live {chunks : List Span} {outcome : Outcome}
    (live : (laws.wire f).Live (past ++ joined chunks)) :
    laws.ArrivesAt f past chunks outcome ↔ outcome = .incomplete := by
  constructor
  · intro arrives
    cases arrives with
    | incomplete _ => rfl
    | corrupt isPrefix corrupt => exact absurd corrupt (live _ isPrefix).2
    | complete isPrefix complete _ => exact absurd complete (live _ isPrefix).1
    | extra isPrefix complete _ _ => exact absurd complete (live _ isPrefix).1
  · intro same
    subst same
    exact .incomplete live

theorem arrivesAt_iff_of_corrupt {chunks : List Span} {outcome : Outcome}
    {p : List UInt8} (corrupt : (laws.wire f).Corrupt p)
    (isPrefix : p <+: past ++ joined chunks) :
    laws.ArrivesAt f past chunks outcome ↔
    outcome = .failed .streamCorrupt := by
  constructor
  · intro arrives
    cases arrives with
    | incomplete live => exact absurd corrupt (live _ isPrefix).2
    | corrupt _ _ => rfl
    | complete inside complete _ =>
        exact absurd corrupt
          (Wire.not_corrupt_of_complete complete inside isPrefix)
    | extra _ _ _ _ => rfl
  · intro same
    subst same
    exact .corrupt isPrefix corrupt

theorem arrivesAt_iff_of_complete {chunks : List Span} {outcome : Outcome}
    {p : List UInt8} (complete : (laws.wire f).Complete p)
    (isPrefix : p <+: past ++ joined chunks) :
    laws.ArrivesAt f past chunks outcome ↔
      (f = .zstd → CutAt past chunks p) ∧
      outcome = .done ((laws.wire f).content p) ∨
      (f = .zstd ∧ ¬ CutAt past chunks p) ∧
      outcome = .failed .streamCorrupt := by
  constructor
  · intro arrives
    cases arrives with
    | incomplete live => exact absurd complete (live _ isPrefix).1
    | corrupt inside corrupt =>
        exact absurd corrupt
          (Wire.not_corrupt_of_complete complete isPrefix inside)
    | complete inside complete' cut =>
        have same := Wire.complete_unique complete complete' isPrefix inside
        subst same
        exact .inl ⟨cut, rfl⟩
    | extra inside complete' isZstd cut =>
        have same := Wire.complete_unique complete complete' isPrefix inside
        subst same
        exact .inr ⟨⟨isZstd, cut⟩, rfl⟩
  · intro cause
    rcases cause with ⟨cut, rfl⟩ | ⟨⟨isZstd, cut⟩, rfl⟩
    · exact .complete isPrefix complete cut
    · exact .extra isPrefix complete isZstd cut

theorem arrivesAt_cons {chunks : List Span} {outcome : Outcome}
    (live : (laws.wire f).Live (past ++ chunk.bytes)) :
    laws.ArrivesAt f past (chunk :: chunks) outcome ↔
      laws.ArrivesAt f (past ++ chunk.bytes) chunks outcome := by
  have sameInput : past ++ joined (chunk :: chunks) =
      (past ++ chunk.bytes) ++ joined chunks := by
    rw [joined_cons, List.append_assoc]
  have sameCuts {p : List UInt8} (complete : (laws.wire f).Complete p) :
      CutAt past (chunk :: chunks) p ↔
      CutAt (past ++ chunk.bytes) chunks p := by
    constructor
    · intro passes
      obtain ⟨before, after, parts, rfl⟩ := passes
      cases before with
      | nil =>
          exfalso
          simp only [joined_nil, List.append_nil] at complete
          exact live.not_complete (List.prefix_append _ _) complete
      | cons first before =>
          simp only [List.cons_append, List.cons.injEq] at parts
          obtain ⟨rfl, rfl⟩ := parts
          exact ⟨before, after, rfl, by rw [joined_cons, List.append_assoc]⟩
    · intro passes
      obtain ⟨before, after, rfl, rfl⟩ := passes
      exact ⟨chunk :: before, after, rfl,
        by rw [joined_cons, List.append_assoc]⟩
  rcases (laws.wire f).live_or_settled (past ++ joined (chunk :: chunks)) with
    alive | ⟨p, isPrefix, complete⟩ | ⟨p, isPrefix, corrupt⟩
  · rw [arrivesAt_iff_of_live alive, arrivesAt_iff_of_live (sameInput ▸ alive)]
  · rw [arrivesAt_iff_of_complete complete isPrefix,
      arrivesAt_iff_of_complete complete (sameInput ▸ isPrefix),
      sameCuts complete]
  · rw [arrivesAt_iff_of_corrupt corrupt isPrefix,
      arrivesAt_iff_of_corrupt corrupt (sameInput ▸ isPrefix)]

/-- Nothing of a stream's last chunk is left over if and only if the cut falls
there. -/
theorem cutAt_cons_iff {p : List UInt8} {chunks : List Span} {taken : Nat}
    (same : past ++ chunk.bytes.take taken = p) (within : taken ≤ chunk.size)
    (live : (laws.wire f).Live past) (complete : (laws.wire f).Complete p) :
    CutAt past (chunk :: chunks) p ↔ ¬ taken < chunk.size := by
  have long := congrArg List.length same
  simp only [List.length_append, List.length_take] at long
  constructor
  · rintro ⟨before, after, parts, cut⟩ less
    cases before with
    | nil =>
        rw [joined_nil, List.append_nil] at cut
        exact live.not_complete (cut ▸ List.prefix_rfl) complete
    | cons first before =>
        simp only [List.cons_append, List.cons.injEq] at parts
        obtain ⟨rfl, -⟩ := parts
        have longer := congrArg List.length cut
        simp only [joined_cons, List.length_append] at longer
        simp only [Span.size] at less
        omega
  · intro all
    have whole : taken = chunk.size :=
      Nat.le_antisymm within (Nat.le_of_not_lt all)
    refine ⟨[chunk], chunks, rfl, ?_⟩
    rw [← same, whole, Span.size, List.take_length, joined_cons, joined_nil,
      List.append_nil]

/-- A caller that can present all of its input arrives where the input leads,
and no other caller arrives anywhere. -/
theorem drains_iff (nonempty : ∀ calls, 0 < (outs calls).size)
    {chunks : List Span} (ample : laws.Ample f outs calls past chunks)
    (reveals : PromptLaws laws ∨ laws.Spare f outs calls past chunks)
    (here : laws.At f past d) (live : (laws.wire f).Live past)
    {outcome : Outcome} :
    Drains outs d chunks calls ((laws.wire f).content past) outcome ↔
      laws.Presentable f past chunks ∧
      laws.ArrivesAt f past chunks outcome := by
  induction chunks generalizing past d calls with
  | nil =>
      rw [arrivesAt_iff_of_live (by simpa using live), Drains.nil_iff]
      exact (and_iff_right trivial).symm
  | cons chunk chunks ih =>
      obtain ⟨roomy, ampleLater⟩ := ample
      have revealsLater := reveals.imp_right And.right
      have inside : past ++ chunk.shown f <+:
          past ++ joined (chunk :: chunks) := by
        rw [List.prefix_append_right_inj, joined_cons]
        exact (chunk.shown_isPrefix f).trans (List.prefix_append _ _)
      have presentable (settled :
          ¬ (laws.wire f).Live (past ++ chunk.shown f)) :
          laws.Presentable f past (chunk :: chunks) :=
            fun alive => absurd alive settled
      rcases (laws.wire f).live_or_settled (past ++ chunk.shown f) with
        alive | ⟨p, reached, complete⟩ | damaged
      · obtain ⟨⟨r, served, notDone⟩, taken, delivered, next⟩ :=
          here.push_live (nonempty calls) roomy alive
        rcases Nat.eq_or_lt_of_le (reach_le f chunk.size) with whole | short
        · have shown : chunk.shown f = chunk.bytes := by
            rw [Span.shown, whole, Span.size, List.take_length]
          rw [shown] at alive delivered next
          rw [Drains.iff_of_taken served notDone (taken.trans whole), delivered,
            ih ampleLater revealsLater next alive, arrivesAt_cons alive,
            Presentable, shown,
            imp_iff_right alive, and_iff_right whole]
        · constructor
          · intro drains
            rw [Drains.iff_of_left served notDone (taken.symm ▸ short)]
              at drains
            obtain ⟨remains, hidden⟩ := reach_rest short
            exact (not_drains_of_hidden nonempty alive drains rfl next
              (by rw [taken, Span.size_subspan]; exact remains)
              (by rw [taken, Span.size_subspan]; exact hidden)).elim
          · intro drains
            obtain ⟨presents, -⟩ := drains
            exact absurd (presents alive).1 (Nat.ne_of_lt short)
      · obtain ⟨same, within, extra, ends⟩ :=
          here.push_complete (nonempty calls) roomy complete reached
        have settled : ¬ (laws.wire f).Live (past ++ chunk.shown f) :=
          fun alive => alive.not_complete reached complete
        rw [and_iff_right (presentable settled),
          arrivesAt_iff_of_complete complete (reached.trans inside),
          cutAt_cons_iff same within live complete]
        by_cases left : f = .zstd ∧
          (d.push chunk (outs calls)).taken < chunk.size
        · rw [Drains.iff_of_failed (extra left.1 left.2)]
          simp [left.1, left.2]
        · obtain ⟨⟨r, served, isDone⟩, delivered⟩ := ends left
          have noneLeft : f = .zstd →
              ¬ (d.push chunk (outs calls)).taken < chunk.size :=
            fun isZstd less => left ⟨isZstd, less⟩
          rw [Drains.iff_of_done served isDone, delivered,
            and_iff_right noneLeft, or_iff_left]
          intro cause
          obtain ⟨⟨isZstd, less⟩, -⟩ := cause
          exact less (noneLeft isZstd)
      · have settled : ¬ (laws.wire f).Live (past ++ chunk.shown f) :=
          fun alive => alive.not_damaged damaged
        have fails :=
          here.push_damaged (nonempty calls) roomy
            (reveals.imp_right And.left) damaged
        obtain ⟨p, reached, corrupt⟩ := damaged
        rw [and_iff_right (presentable settled),
          arrivesAt_iff_of_corrupt corrupt (reached.trans inside),
          Drains.iff_of_failed fails]

theorem drains_construct_iff (serves : B.Serves f)
    (nonempty : ∀ calls, 0 < (outs calls).size) {chunks : List Span}
    (ample : laws.Ample f outs 0 [] chunks)
    (reveals : PromptLaws laws ∨ laws.Spare f outs 0 [] chunks)
    {outcome : Outcome} :
    Drains outs (.construct B f) chunks 0 [] outcome ↔
      laws.Presentable f [] chunks ∧ laws.ArrivesAt f [] chunks outcome := by
  obtain ⟨holds, decoder, opened⟩ := laws.decompresses_construct serves
  have nothing : (laws.wire f).content [] = [] := (laws.wire f).content_nil
  have here : laws.At f [] (.construct B f) :=
    ⟨holds, opened, by rw [decoder, nothing]; rfl⟩
  have drains : Drains outs (.construct B f) chunks 0
      ((laws.wire f).content []) outcome ↔ _ :=
    drains_iff nonempty ample reveals here (laws.wire f).live_nil
  rwa [nothing] at drains

/-- Two cuttings of one input lead to one place if and only if they agree on
whether the end of a zstd frame falls on a cut. -/
theorem arrive_together_iff {cut cut' : List Span}
    (same : joined cut = joined cut') :
    (∃ outcome, laws.ArrivesAt f [] cut outcome ∧
      laws.ArrivesAt f [] cut' outcome) ↔
      (f = .zstd → ∀ p, (laws.wire f).Complete p → p <+: joined cut →
        (CutAt [] cut p ↔ CutAt [] cut' p)) := by
  rcases (laws.wire f).live_or_settled (joined cut) with
    alive | ⟨p, isPrefix, complete⟩ | ⟨p, isPrefix, corrupt⟩
  · apply iff_of_true
    · exact ⟨.incomplete, .incomplete alive, .incomplete (same ▸ alive)⟩
    · exact fun _ q complete inside => absurd complete (alive q inside).1
  · have inside : p <+: [] ++ joined cut := isPrefix
    have inside' : p <+: [] ++ joined cut' := same ▸ isPrefix
    simp only [arrivesAt_iff_of_complete complete inside,
      arrivesAt_iff_of_complete complete inside']
    constructor
    · rintro ⟨outcome, left, right⟩ isZstd q complete' inside
      rw [Wire.complete_unique complete' complete inside isPrefix]
      rcases left with ⟨cuts, rfl⟩ | ⟨⟨-, noCut⟩, rfl⟩
      · rcases right with ⟨cuts', -⟩ | ⟨-, different⟩
        · exact iff_of_true (cuts isZstd) (cuts' isZstd)
        · cases different
      · rcases right with ⟨-, different⟩ | ⟨⟨-, noCut'⟩, -⟩
        · cases different
        · exact iff_of_false noCut noCut'
    · intro agree
      by_cases cuts : f = .zstd → CutAt [] cut p
      · exact ⟨_, .inl ⟨cuts, rfl⟩,
          .inl ⟨fun isZstd => (agree isZstd p complete isPrefix).mp
            (cuts isZstd), rfl⟩⟩
      · rw [Classical.not_imp] at cuts
        obtain ⟨isZstd, noCut⟩ := cuts
        exact ⟨_, .inr ⟨⟨isZstd, noCut⟩, rfl⟩,
          .inr ⟨⟨isZstd, mt (agree isZstd p complete isPrefix).mpr noCut⟩, rfl⟩⟩
  · apply iff_of_true
    · exact ⟨.failed .streamCorrupt, .corrupt isPrefix corrupt,
        .corrupt (same ▸ isPrefix) corrupt⟩
    · exact fun _ q complete inside =>
        absurd corrupt (Wire.not_corrupt_of_complete complete inside isPrefix)

end EngineLaws

/-- Two callers arrive at the same outcome. -/
def SameOutcome (B : Build) (f : Format) (cut cut' : List Span)
    (outs outs' : Nat → Span) :
    Prop :=
  ∃ outcome, Drains outs (.construct B f) cut 0 [] outcome ∧
    Drains outs' (.construct B f) cut' 0 [] outcome

/-- Two cuttings of one input lead to the same outcome exactly when zlib can be
shown every chunk of both, and the end of a zstd frame falls on a cut of both
or of neither. -/
theorem same_outcome_iff (laws : EngineLaws B) {f : Format}
    (serves : B.Serves f) {cut cut' : List Span}
    (same : joined cut = joined cut') {outs outs' : Nat → Span}
    (nonempty : ∀ calls, 0 < (outs calls).size)
    (nonempty' : ∀ calls, 0 < (outs' calls).size)
    (ample : laws.Ample f outs 0 [] cut) (ample' : laws.Ample f outs' 0 [] cut')
    (reveals : PromptLaws laws ∨
      (laws.Spare f outs 0 [] cut ∧ laws.Spare f outs' 0 [] cut')) :
    SameOutcome B f cut cut' outs outs' ↔
      laws.Presentable f [] cut ∧ laws.Presentable f [] cut' ∧
        (f = .zstd → ∀ p, (laws.wire f).Complete p → p <+: joined cut →
          (CutAt [] cut p ↔ CutAt [] cut' p)) := by
  simp only [SameOutcome,
    EngineLaws.drains_construct_iff serves nonempty ample
      (reveals.imp_right And.left),
    EngineLaws.drains_construct_iff serves nonempty' ample'
      (reveals.imp_right And.right)]
  rw [← EngineLaws.arrive_together_iff same]
  constructor
  · intro agree
    obtain ⟨outcome, ⟨presents, arrives⟩, presents', arrives'⟩ := agree
    exact ⟨presents, presents', outcome, arrives, arrives'⟩
  · intro agree
    obtain ⟨presents, presents', outcome, arrives, arrives'⟩ := agree
    exact ⟨outcome, ⟨presents, arrives⟩, presents', arrives'⟩

/-- The frame of five bytes. -/
def fiveFrame : Span := .ofBytes (frame [1, 2, 3, 4, 5]) (by decide)

/-- Its first seven bytes, and the rest. -/
def fiveHalves : List Span :=
  [.ofBytes (fiveFrame.bytes.take 7) (by decide), .ofBytes
    (fiveFrame.bytes.drop 7) (by decide)]

def fiveRoom (_ : Nat) : Span := .zeros 5 (by decide)

theorem fiveRoom_pos (calls : Nat) : 0 < (fiveRoom calls).size := by
  change 0 < (Span.zeros 5 (by decide)).size
  decide

theorem same_outcome_halves :
    SameOutcome unixBuild .zstd [fiveFrame] fiveHalves fiveRoom fiveRoom := by
  have whole : joined [fiveFrame] = fiveFrame.bytes := by decide
  have halves : joined fiveHalves = fiveFrame.bytes := by decide
  have ample : unixLaws.Ample .zstd fiveRoom 0 [] [fiveFrame] :=
    ⟨by decide, trivial⟩
  have ample' : unixLaws.Ample .zstd fiveRoom 0 [] fiveHalves :=
    ⟨by decide, by decide, trivial⟩
  apply (same_outcome_iff unixLaws (by decide)
    (whole.trans halves.symm) fiveRoom_pos
    fiveRoom_pos ample ample' (.inl (storedPrompt 64 unix_wide 3))).mpr
  refine ⟨fun _ => ⟨rfl, trivial⟩, fun _ => ⟨rfl, fun _ => ⟨rfl, trivial⟩⟩, ?_⟩
  intro _ p complete isPrefix
  have completeFrame : (unixLaws.wire .zstd).Complete fiveFrame.bytes :=
    (complete_frame [1, 2, 3, 4, 5]).1
  have ends : fiveFrame.bytes = p :=
    Wire.complete_unique completeFrame complete
      (whole ▸ List.prefix_rfl) isPrefix
  exact iff_of_true ⟨[fiveFrame], [], rfl, whole.trans ends⟩
    ⟨fiveHalves, [], rfl, halves.trans ends⟩

/-- One extra byte is refused in one chunk with the frame, and not looked at in
a chunk of its own. -/
theorem not_same_outcome_extra :
    unixBuild.Serves .zstd ∧
      ∃ extra both : Span, joined [both] = joined [fiveFrame, extra] ∧
        (∀ calls, 0 < (fiveRoom calls).size) ∧
        unixLaws.Ample .zstd fiveRoom 0 [] [both] ∧
        unixLaws.Ample .zstd fiveRoom 0 [] [fiveFrame, extra] ∧
        ¬ SameOutcome unixBuild .zstd [both] [fiveFrame, extra] fiveRoom
          fiveRoom := by
  let extra : Span := .ofBytes [0] (by decide)
  let both : Span := .ofBytes (fiveFrame.bytes ++ [0]) (by decide)
  let d := Decompressor.construct unixBuild .zstd
  have same : joined [both] = joined [fiveFrame, extra] := by decide
  have ample : unixLaws.Ample .zstd fiveRoom 0 [] [both] := ⟨by decide, trivial⟩
  have ample' : unixLaws.Ample .zstd fiveRoom 0 [] [fiveFrame, extra] :=
    ⟨by decide, by decide, trivial⟩
  have fails : FailsWith .streamCorrupt (d.push both (fiveRoom 0)).result :=
    ⟨_, rfl, rfl⟩
  have ends : (d.push fiveFrame (fiveRoom 0)).result =
      .ok { bytesConsumed := 14, bytesProduced := 5, done := true } := by
    decide
  refine ⟨by decide, extra, both, same, fiveRoom_pos, ample, ample', ?_⟩
  intro agree
  obtain ⟨outcome, drains, drains'⟩ := agree
  rw [Drains.iff_of_failed fails] at drains
  rw [Drains.iff_of_done ends rfl, drains] at drains'
  cases drains'

end Polliwog
