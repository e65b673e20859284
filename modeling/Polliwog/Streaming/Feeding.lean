import Polliwog.Streaming.Decompressing

/-!
# Feeding a decompressor

A caller presents an input in order, in chunks of its own choice, and presents
again what was not taken, until it is told of the end.  The engine may fail at
any call for a reason that is not in the bytes.
-/

namespace Polliwog

open Codec

variable {B : Build}

/-- The end of a stream is reported. -/
def ReportsDone {σ : Type} (reply : Reply σ StreamResult) : Prop :=
  ∃ r, reply.result = .ok r ∧ r.done = true

namespace Decompressor

/-- A caller: its object, what it has left to present, and whether it was told
of the end. -/
structure Feed (B : Build) where
  d : Decompressor B
  left : List UInt8
  told : Bool

namespace Feed

def start (B : Build) (f : Format) (input : List UInt8) : Feed B :=
  { d := .construct B f, left := input, told := false }

/-- A push of the next bytes. -/
structure Step (c : Feed B) (request : Request)
    (reply : Reply (Decompressor B) StreamResult) (c' : Feed B) : Prop where
  goesOn : c.told = false
  next : request.input.bytes <+: c.left
  push : c.d.Step request reply c'.d
  left : c'.left = c.left.drop reply.taken
  told : c'.told = true ↔ ReportsDone reply

/-- The caller after a push. -/
def after (c : Feed B) (request : Request) : Feed B :=
  let reply := c.d.push request.input request.out
  { d := reply.handle
    left := c.left.drop reply.taken
    told :=
      match reply.result with
      | .ok r => r.done
      | .error _ => false }

theorem step_after {c : Feed B} {request : Request} (goesOn : c.told = false)
    (next : request.input.bytes <+: c.left) :
    c.Step request (c.d.push request.input request.out) (c.after request) := by
  refine ⟨goesOn, next, ⟨rfl, rfl⟩, rfl, ?_⟩
  simp only [after, ReportsDone]
  cases (c.d.push request.input request.out).result with
  | ok r => simp
  | error e => simp

end Feed

end Decompressor

open Decompressor

namespace DecodingLaws

variable (laws : DecodingLaws B)

/-- The decompressor has read `past` of a stream of a format and can go on. -/
def HasRead (f : Format) (past : List UInt8) (d : Decompressor B) : Prop :=
  match d.handle with
  | .zlibSweller h =>
      f ∈ ZlibBackend.formats ∧ laws.inflate.container h.stream.state = f ∧
        laws.inflate.status h.stream.state = .opened ∧
        (laws.inflate.view h.stream.state).read = past
  | .zstdSweller h =>
      f = .zstd ∧ laws.zstd.status h.ctx = .opened ∧
        (laws.zstd.view h.ctx).read = past
  | .zlibStubSweller | .zstdStubSweller => False

/-- If the decompressor withholds a byte of a frame, it is the one that is
presented next. -/
def Owes (f : Format) (past left : List UInt8) (d : Decompressor B) : Prop :=
  match d.handle with
  | .zstdSweller h =>
      laws.Withholds h.ctx →
        ∃ last rest, left = last :: rest ∧
        (laws.wire f).Complete (past ++ [last])
  | .zlibSweller _ | .zlibStubSweller | .zstdStubSweller => True

/-- The engine call of a push fails for a reason that is not in the bytes. -/
def Founders (d : Decompressor B) (request : Request) : Prop :=
  match d.handle with
  | .zlibSweller h =>
      (B.zlib.inflate (h.stream.load request.input request.out) .noFlush).ret =
        .memError
  | .zstdSweller h =>
      laws.faults.Foreign
        (B.zstd.decompressStream h.ctx { size := request.out.size, pos := 0 }
        { src := request.input.bytes, pos := 0 }).ret
  | .zlibStubSweller | .zstdStubSweller => False

/-- The engine has all it needs, and somewhere to write. -/
def Feasible (f : Format) (d : Decompressor B) (request : Request) : Prop :=
  ¬ laws.Founders d request ∧ (f = .zstd ∨ request.out.isNull = false)

variable {f : Format} {past left : List UInt8} {d : Decompressor B}
  {input out : Span}

theorem hasRead_construct (serves : B.Serves f) :
    laws.HasRead f [] (.construct B f) := by
  rcases mem_formats_or_zstd serves with ⟨has, member⟩ | ⟨has, rfl⟩
  · have selects := windowContainer_windowBitsFor member
    simp only [construct, makeSweller_of_zlib member has, HasRead]
    exact ⟨member, laws.inflate.open_container selects,
      laws.inflate.open_status selects,
      congrArg Dec.read (laws.inflate.open_view selects)⟩
  · simp only [construct, makeSweller_of_zstd has, HasRead]
    exact ⟨trivial, laws.zstd.open_status,
      congrArg Dec.read laws.zstd.open_view⟩

theorem owes_construct (serves : B.Serves f) :
    laws.Owes f [] left (.construct B f) := by
  rcases mem_formats_or_zstd serves with ⟨has, member⟩ | ⟨has, rfl⟩
  · simp only [construct, makeSweller_of_zlib member has, Owes]
  · simp only [construct, makeSweller_of_zstd has, Owes]
    exact fun withholds => absurd withholds laws.zstd.open_free

/-- What a feasible push does with the next bytes. -/
structure Feeds (f : Format) (past left : List UInt8) (input : Span)
    (reply : Reply (Decompressor B) StreamResult) (signal : Signal) : Prop where
  taken_le : reply.taken ≤ (input.shown f).length
  done : signal = .done →
    (laws.wire f).Complete (past ++ (input.shown f).take reply.taken)
  bad : signal = .bad → (laws.wire f).Damaged (past ++ input.shown f)
  goesOn : signal = .more →
    laws.HasRead f (past ++ (input.shown f).take reply.taken) reply.handle ∧
      laws.Owes f (past ++ (input.shown f).take reply.taken)
        (left.drop reply.taken) reply.handle
  verdict : PushVerdict B f input reply.taken reply.written signal reply.result

/-- What a call on a zstd context does with the next bytes, a byte that it
withholds among them or not. -/
structure ZstdFeeds (past left : List UInt8) (h : ZstdSweller B.zstd)
    (output : OutBuffer) (input : InBuffer) : Prop where
  done : B.zstd.signal (B.zstd.decompressStream h.ctx output input).ret =
    .done → (laws.wire .zstd).Complete
      (past ++ input.offered.take (laws.zstd.taken h.ctx output input))
  bad : B.zstd.signal (B.zstd.decompressStream h.ctx output input).ret = .bad →
    (laws.wire .zstd).Damaged (past ++ input.offered)
  owes : B.zstd.signal (B.zstd.decompressStream h.ctx output input).ret =
    .more → laws.Withholds (B.zstd.decompressStream h.ctx output input).ctx →
    ∃ last rest, left.drop (laws.zstd.taken h.ctx output input) = last :: rest ∧
      (laws.wire .zstd).Complete
        (past ++ input.offered.take
          (laws.zstd.taken h.ctx output input) ++ [last])

theorem zstd_feeds {h : ZstdSweller B.zstd}
    (opened : laws.zstd.status h.ctx = .opened)
    (owes : laws.Owes .zstd (laws.zstd.view h.ctx).read left ⟨.zstdSweller h⟩)
    {output : OutBuffer} {input : InBuffer} (next : input.offered <+: left)
    (own : ¬ laws.faults.Foreign
      (B.zstd.decompressStream h.ctx output input).ret) :
    laws.ZstdFeeds (laws.zstd.view h.ctx).read left h output input := by
  have within := (laws.zstd.within h.ctx output input).taken_le
  by_cases held : laws.Withholds h.ctx
  case pos =>
    obtain ⟨last, rest, rfl, complete⟩ := owes held
    rcases laws.hostage.ends h.ctx output input opened held own with
      ⟨done, released⟩ | ⟨more, nothing, still⟩
    · refine ⟨fun _ => ?_, ?_, ?_⟩
      · rw [released] at within ⊢
        obtain ⟨rest', same⟩ := next
        cases offered : input.offered with
        | nil => simp [offered] at within
        | cons first others =>
            rw [offered, List.cons_append, List.cons.injEq] at same
            rw [List.take_one, List.head?_cons, same.1]
            exact complete
      all_goals
        rw [done]
        intro other
        cases other
    · refine ⟨?_, ?_, fun _ _ => ⟨last, rest, ?_, ?_⟩⟩
      · rw [more]
        intro other
        cases other
      · rw [more]
        intro other
        cases other
      · rw [nothing, List.drop_zero]
      · rw [nothing, List.take_zero, List.append_nil]
        exact complete
  case neg =>
    by_cases holds :
      laws.Withholds (B.zstd.decompressStream h.ctx output input).ctx
    · obtain ⟨more, last, rest, offered, complete⟩ :=
        laws.hostage.begins h.ctx output input opened held holds own
      refine ⟨?_, ?_, fun _ _ => ?_⟩
      · rw [more]
        intro other
        cases other
      · rw [more]
        intro other
        cases other
      · obtain ⟨more', rfl⟩ := next
        refine ⟨last, rest ++ more', ?_, complete⟩
        rw [List.drop_append_of_le_length within, offered, List.cons_append]
    · have reads := laws.zstd.reads h.ctx output input opened held holds own
      exact ⟨fun done => (reads.done done).1, reads.bad,
        fun _ withholds => absurd withholds holds⟩

theorem push_feeds (here : laws.HasRead f past d)
    (owes : laws.Owes f past left d) (input out : Span)
    (next : input.bytes <+: left) (feasible : laws.Feasible f d ⟨input, out⟩) :
    ∃ signal, laws.Feeds f past left input (d.push input out) signal := by
  obtain ⟨own, memory⟩ := feasible
  obtain ⟨handle⟩ := d
  cases handle with
  | zlibStubSweller => exact here.elim
  | zstdStubSweller => exact here.elim
  | zlibSweller h =>
      obtain ⟨member, container, opened, rfl⟩ := here
      have notNull : out.isNull = false :=
        memory.resolve_left (ne_zstd_of_mem member)
      let loaded := h.stream.load input out
      have reads := laws.inflate.reads loaded .noFlush notNull opened own
      have sameContainer : laws.inflate.container loaded.state = f := container
      have shown : input.shown f = loaded.offered :=
        Span.shown_of_mem member input
      have ledger : ((⟨.zlibSweller h⟩ : Decompressor B).push input out).taken =
          (B.zlib.inflate loaded .noFlush).taken :=
        Nat.add_zero _
      rw [sameContainer] at reads
      refine ⟨(B.zlib.inflate loaded .noFlush).ret.signal, ?_, ?_, ?_, ?_, ?_⟩
      · rw [shown, ledger]
        exact reads.taken_le
      · rw [shown, ledger]
        exact fun done => (reads.done done).1
      · rw [shown]
        exact reads.bad
      · intro more
        have notBad : (B.zlib.inflate loaded .noFlush).ret.signal ≠ .bad := by
          rw [more]
          decide
        obtain ⟨view, status⟩ :=
          laws.inflate.advances loaded .noFlush notNull opened notBad
        have kept := laws.inflate.container_kept loaded .noFlush
        rw [shown, ledger]
        rw [more] at status
        exact ⟨⟨member, kept.trans container, status, congrArg Dec.read view⟩,
          trivial⟩
      · rw [ledger]
        exact laws.inflate.push_verdict member h input out
  | zstdSweller h =>
      obtain ⟨rfl, opened, rfl⟩ := here
      let input' : InBuffer := { src := input.bytes, pos := 0 }
      let output' : OutBuffer := { size := out.size, pos := 0 }
      have buffers := laws.zstd.within h.ctx output' input'
      have feeds : laws.ZstdFeeds _ left h output' input' :=
        laws.zstd_feeds opened owes next own
      have ledger : ((⟨.zstdSweller h⟩ : Decompressor B).push input out).taken =
          laws.zstd.taken h.ctx output' input' := by
        have moved := buffers.inPos
        change (B.zstd.decompressStream h.ctx output' input').input.pos - 0 +
            0 = _
        rw [moved, Nat.add_zero, Nat.sub_zero, Nat.zero_add]
      refine ⟨B.zstd.signal (B.zstd.decompressStream h.ctx output' input').ret,
        ?_, ?_, ?_, ?_, ?_⟩
      · rw [Span.shown_zstd, ledger]
        exact buffers.taken_le
      · rw [Span.shown_zstd, ledger]
        exact feeds.done
      · rw [Span.shown_zstd]
        exact feeds.bad
      · intro more
        have notBad :
            B.zstd.signal (B.zstd.decompressStream h.ctx output' input').ret ≠
              .bad := by
          rw [more]
          decide
        obtain ⟨view, status⟩ :=
          laws.zstd.advances h.ctx output' input' opened notBad
        rw [Span.shown_zstd, ledger]
        rw [more] at status
        exact ⟨⟨rfl, status, congrArg Dec.read view⟩, feeds.owes more⟩
      · rw [ledger]
        exact h.push_verdict input out buffers

/-- An infeasible push is reported as corruption. -/
theorem push_infeasible (here : laws.HasRead f past d) (input out : Span)
    (infeasible : ¬ laws.Feasible f d ⟨input, out⟩) :
    FailsWith .streamCorrupt (d.push input out).result := by
  obtain ⟨handle⟩ := d
  cases handle with
  | zlibStubSweller => exact here.elim
  | zstdStubSweller => exact here.elim
  | zlibSweller h =>
      have member := here.1
      apply (laws.inflate.push_verdict member h input out).spoiled
      by_cases founders : laws.Founders ⟨.zlibSweller h⟩ ⟨input, out⟩
      · have ret : (B.zlib.inflate (h.stream.load input out) .noFlush).ret =
            .memError :=
          founders
        rw [ret]
        rfl
      · have null : out.isNull = true := by
          by_contra notNull
          exact infeasible ⟨founders, .inr (Bool.eq_false_iff.mpr notNull)⟩
        rw [laws.inflate.null_refused (h.stream.load input out) .noFlush null]
        rfl
  | zstdSweller h =>
      obtain ⟨rfl, -⟩ := here
      have founders : laws.Founders ⟨.zstdSweller h⟩ ⟨input, out⟩ := by
        by_contra own
        exact infeasible ⟨own, .inl rfl⟩
      apply (h.push_verdict input out (laws.zstd.within h.ctx _ _)).spoiled
      rw [Zstd.signal, laws.fault_isError _ founders]
      rfl

/-- A caller that has not been told of the end is somewhere along its input. -/
def Along (f : Format) (input : List UInt8) (c : Feed B) : Prop :=
  c.told = false → ∃ past, past ++ c.left = input ∧ laws.HasRead f past c.d ∧
    laws.Owes f past c.left c.d

theorem along_start (serves : B.Serves f) (input : List UInt8) :
    laws.Along f input (.start B f input) :=
  fun _ => ⟨[], rfl, laws.hasRead_construct serves, laws.owes_construct serves⟩

theorem along_step {c c' : Feed B} {request : Request}
    {reply : Reply (Decompressor B) StreamResult} {s : List UInt8}
    {signal : Signal} (whole : past ++ c.left = s)
    (step : c.Step request reply c')
    (feeds : laws.Feeds f past c.left request.input reply signal)
    (served : ∃ r, reply.result = .ok r) : laws.Along f s c' := by
  intro goesOn
  obtain ⟨r, ok⟩ := served
  obtain ⟨notBad, done, -⟩ := feeds.verdict.of_ok ok
  have more : signal = .more := by
    cases signal with
    | more => rfl
    | bad => exact absurd rfl notBad
    | done =>
        have told := step.told.mpr ⟨r, ok, done.mpr rfl⟩
        rw [goesOn] at told
        cases told
  have handle : reply.handle = c'.d := step.push.2
  have shown : (request.input.shown f).take reply.taken =
      c.left.take reply.taken := by
    have inside := (request.input.shown_isPrefix f).trans step.next
    rw [List.prefix_iff_eq_take.mp inside, List.take_take,
      Nat.min_eq_left feeds.taken_le]
  refine ⟨past ++ c.left.take reply.taken, ?_, ?_⟩
  · rw [step.left, List.append_assoc, List.take_append_drop, whole]
  · rw [step.left, ← shown, ← handle]
    exact feeds.goesOn more

end DecodingLaws

end Polliwog
