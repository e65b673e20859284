import Polliwog.Streaming.Verdict

/-!
# A compressor and a decompressor on one pipe

One party compresses and sends what it is told was produced, the other takes
what has arrived, in pieces of its own choice, and presents again what it is
told was not consumed.  Their calls come in any order, failed ones included.
-/

namespace Polliwog

open Codec

variable {B : Build}

/-- A call that ends the stream. -/
def Compressor.Request.closes : Compressor.Request → Bool
  | .finish _ => true
  | _ => false

/-- Both parties, and the bytes between them.  `consumed` and `delivered` are
what the two objects reported of. -/
structure Pipe (B : Build) where
  sender : Compressor B
  receiver : Decompressor B
  channel : List UInt8
  consumed : List UInt8
  delivered : List UInt8
  /-- A finish has been called. -/
  closing : Bool
  /-- The receiver was told of the end. -/
  told : Bool

namespace Pipe

inductive Request where
  | send (request : Compressor.Request)
  | receive (input out : Span)

def start (B : Build) (f : Format) (lvl : ZlibLevel) : Pipe B :=
  { sender := .of B f lvl
    receiver := .construct B f
    channel := []
    consumed := []
    delivered := []
    closing := false
    told := false }

/-- The pipe after a call on the compressor. -/
def sent (p : Pipe B) (request : Compressor.Request)
    (reply : Reply (Compressor B) StreamResult) : Pipe B :=
  let moved :=
    { p with sender := reply.handle, closing := p.closing || request.closes }
  match reply.result with
  | .error _ => moved
  | .ok r =>
      { moved with
        consumed := p.consumed ++ request.input.bytes.take r.bytesConsumed
        channel :=
          p.channel ++ (request.out.overwrite reply.written).take
            r.bytesProduced }

/-- The pipe after a push on the decompressor. -/
def received (p : Pipe B) (out : Span)
    (reply : Reply (Decompressor B) StreamResult) : Pipe B :=
  let moved := { p with receiver := reply.handle }
  match reply.result with
  | .error _ => moved
  | .ok r =>
      { moved with
        channel := p.channel.drop r.bytesConsumed
        delivered :=
          p.delivered ++ (out.overwrite reply.written).take r.bytesProduced
        told := r.done }

/-- What there is left for the receiver to take and to deliver. -/
def left (p : Pipe B) : Nat :=
  p.channel.length + (p.consumed.length - p.delivered.length)

/-- A call of either party.  The sender pushes and flushes until it begins to
finish, and finishes as long as bytes are left; the receiver goes on until it
is told of the end. -/
inductive Step (laws : EngineLaws B) :
    Pipe B → Request → Except Error StreamResult → Pipe B → Prop where
  | send {p : Pipe B} {request : Compressor.Request}
      {reply : Reply (Compressor B) StreamResult} :
      (p.closing = true → request.closes = true) →
      ¬ (laws.encoder p.sender).Ended →
      p.sender.call request = some reply →
      Step laws p (.send request) reply.result (p.sent request reply)
  | receive {p : Pipe B} {input out : Span} :
      p.told = false → input.bytes <+: p.channel →
      Step laws p (.receive input out) (p.receiver.push input out).result
        (p.received out (p.receiver.push input out))

theorem Step.of_send {laws : EngineLaws B} {p p' : Pipe B}
    {request : Compressor.Request} {answer : Except Error StreamResult}
    (step : Step laws p (.send request) answer p') :
    (p.closing = true → request.closes = true) ∧
    ¬ (laws.encoder p.sender).Ended ∧
      ∃ reply, p.sender.call request = some reply ∧ reply.result = answer ∧
        p' = p.sent request reply := by
  cases step with
  | send order opened returned => exact ⟨order, opened, _, returned, rfl, rfl⟩

theorem Step.of_receive {laws : EngineLaws B} {p p' : Pipe B} {input out : Span}
    {answer : Except Error StreamResult}
    (step : Step laws p (.receive input out) answer p') :
    p.told = false ∧ input.bytes <+: p.channel ∧
    (p.receiver.push input out).result = answer ∧
      p' = p.received out (p.receiver.push input out) := by
  cases step with
  | receive listening front => exact ⟨listening, front, rfl, rfl⟩

/-- A call of the receiver. -/
def Receives (laws : EngineLaws B) (p : Pipe B) (request : Request)
    (answer : Except Error StreamResult) (p' : Pipe B) : Prop :=
  Step laws p request answer p' ∧ ∃ input out, request = .receive input out

/-- A call of the sender. -/
def Sends (laws : EngineLaws B) (p : Pipe B) (request : Request)
    (answer : Except Error StreamResult) (p' : Pipe B) : Prop :=
  Step laws p request answer p' ∧ ∃ sent, request = .send sent

theorem run_of_sends {laws : EngineLaws B} {p p' : Pipe B}
    {trace : List (Request × Except Error StreamResult)}
    (run : Run (Sends laws) p trace p') :
    Run (Step laws) p trace p' :=
  run.sharpen (fun _ => True) (fun _ sends => ⟨sends.1, trivial⟩) trivial

/-- A push with some room that is shown some of the channel, or comes when the
channel is empty. -/
def Useful (f : Format) (p : Pipe B) : Request → Prop
  | .send _ => False
  | .receive input out =>
      Shows f out.size ∧ (Shows f input.size ∨ p.channel = [])

end Pipe

namespace EncodingLaws

variable (laws : EncodingLaws B) {f : Format}

/-- A call that is booked as it was served: what the caller counts as consumed
and produced is what the encoder absorbed and emitted. -/
structure Books (c : Compressor B) (request : Compressor.Request)
    (reply : Reply (Compressor B) StreamResult) (r : StreamResult) : Prop where
  result : reply.result = .ok r
  source : (laws.encoder reply.handle).source =
    (laws.encoder c).source ++ request.input.bytes.take r.bytesConsumed
  output : (laws.encoder reply.handle).output =
    (laws.encoder c).output ++
    (request.out.overwrite reply.written).take r.bytesProduced

variable {laws}

theorem Absorbs.books {c : Compressor B} {input out : Span}
    {reply : Reply (Compressor B) StreamResult} {taken : Nat}
    (exact : CountsExact B f)
    (absorbs : laws.Absorbs f c input out reply taken) :
    ∃ r, laws.Books c (.push input out) reply r := by
  obtain ⟨r, result, -, counts⟩ := absorbs.result
  obtain ⟨inCount, outCount⟩ := counts exact
  refine ⟨r, result, ?_, ?_⟩
  · rw [absorbs.encoder.source, inCount,
      Carries.take_front (input.shown_isPrefix f) absorbs.encoder.taken_le]
    rfl
  · rw [absorbs.encoder.output, outCount, Span.take_overwrite]

theorem Syncs.books {c : Compressor B} {out : Span}
    {reply : Reply (Compressor B) StreamResult} (exact : CountsExact B f)
    (syncs : laws.Syncs f c out reply) :
    ∃ r, laws.Books c (.flush out) reply r := by
  obtain ⟨r, result, -, -, count⟩ := syncs.result
  refine ⟨r, result, ?_, ?_⟩
  · rw [syncs.encoder.source, List.take_nil]
    exact congrArg _ List.take_nil.symm
  · rw [syncs.encoder.output, count exact, Span.take_overwrite]

theorem Finishes.books {c : Compressor B} {out : Span}
    {reply : Reply (Compressor B) StreamResult} (exact : CountsExact B f)
    (finishes : laws.Finishes f c out reply) :
    ∃ r, laws.Books c (.finish out) reply r := by
  obtain ⟨r, result, -, count⟩ := finishes.result
  refine ⟨r, result, ?_, ?_⟩
  · rw [finishes.encoder.source]
    exact (List.append_nil _).symm.trans (congrArg _ List.take_nil.symm)
  · rw [finishes.encoder.output, count exact, Span.take_overwrite]

/-- A finish that left room emitted the end of the stream. -/
theorem finish_slack (exact : CountsExact B f) {c : Compressor B}
    (holds : laws.Compresses f c) (opened : ¬ (laws.encoder c).Ended)
    {out : Span} {reply : Reply (Compressor B) StreamResult}
    (returned : c.finish out = some reply) {r : StreamResult}
    (ok : reply.result = .ok r)
    (roomLeft : r.bytesProduced < reach f out.size) :
    (laws.encoder reply.handle).Ended := by
  obtain ⟨reply', returned', -, served⟩ := laws.finish_spec holds opened out
  obtain rfl := Option.some.inj (returned'.symm.trans returned)
  rcases served with ⟨idle, -⟩ | finishes
  · obtain ⟨e, failed⟩ := idle.failed
    rw [ok] at failed
    cases failed
  · obtain ⟨r', result, -, count⟩ := finishes.result
    have same : r = r' := Except.ok.inj (ok.symm.trans result)
    subst same
    have produced := count exact
    rw [finishes.encoder.ended_iff]
    by_contra tooLong
    have filled := (finishes.encoder.short (Nat.lt_of_not_le tooLong)).1
    omega

/-- A call on a compressor that may be called is refused and changes nothing, or
is booked as it was served. -/
theorem call_books (exact : CountsExact B f) {c : Compressor B}
    (holds : laws.Compresses f c) (opened : ¬ (laws.encoder c).Ended)
    {request : Compressor.Request}
    (writing : request.closes = false → laws.Writing c)
    {reply : Reply (Compressor B) StreamResult}
    (returned : c.call request = some reply) :
    laws.Compresses f reply.handle ∧
    (request.closes = false → laws.Writing reply.handle) ∧
      (laws.Idles c reply ∨ ∃ r, laws.Books c request reply r) := by
  cases request with
  | push input out =>
      obtain ⟨kept, still, served⟩ :=
        laws.push_spec holds (writing rfl) input out
      cases returned
      exact ⟨kept, fun _ => still,
        served.imp_right fun ⟨_, absorbs⟩ => absorbs.books exact⟩
  | flush out =>
      obtain ⟨kept, still, served⟩ := laws.flush_spec holds (writing rfl) out
      cases returned
      exact ⟨kept, fun _ => still, served.imp_right (Syncs.books exact)⟩
  | finish out =>
      obtain ⟨reply', returned', kept, served⟩ :=
        laws.finish_spec holds opened out
      obtain rfl := Option.some.inj (returned'.symm.trans returned)
      exact ⟨kept, fun open_ => Bool.noConfusion open_,
        served.imp And.left (Finishes.books exact)⟩

end EncodingLaws

namespace EngineLaws

variable (laws : EngineLaws B) {f : Format}

/-- What holds of a pipe, whoever moves next. -/
structure Flows (f : Format) (p : Pipe B) : Prop where
  compresses : laws.Compresses f p.sender
  writing : p.closing = false → laws.Writing p.sender
  consumed : (laws.encoder p.sender).source = p.consumed
  decompresses : laws.Decompresses f p.receiver
  delivered : (laws.decoder p.receiver).delivered = p.delivered
  carries : Carries (laws.wire f) (laws.encoder p.sender)
    (laws.decoder p.receiver) p.channel
  receiving : p.told = false → laws.status p.receiver = .opened ∧
    (laws.decoder p.receiver).Open (laws.wire f)
  done : p.told = true → (laws.encoder p.sender).Ended ∧ p.channel = [] ∧
    p.delivered = p.consumed

variable {laws}

theorem flows_start {lvl : ZlibLevel} (serves : B.Serves f)
    (accepted : Accepts f lvl) :
    laws.Flows f (.start B f lvl) := by
  obtain ⟨compresses, source, output, writing⟩ :=
    laws.compresses_of lvl serves accepted
  obtain ⟨decompresses, decoder, opened⟩ := laws.decompresses_construct serves
  refine ⟨compresses, fun _ => writing, source, decompresses, ?_, ?_, ?_,
    fun told => Bool.noConfusion told⟩
  · exact congrArg Dec.delivered decoder
  · have fresh := Carries.fresh compresses.sound output
    rw [← decoder] at fresh
    exact fresh
  · intro _
    refine ⟨opened, ?_⟩
    have fresh := Dec.open_fresh (laws.wire f)
    rw [← decoder] at fresh
    exact fresh

theorem Flows.sent {p : Pipe B} (flows : laws.Flows f p)
    (exact : CountsExact B f) {request : Compressor.Request}
    {reply : Reply (Compressor B) StreamResult}
    (order : p.closing = true → request.closes = true)
    (opened : ¬ (laws.encoder p.sender).Ended)
    (returned : p.sender.call request = some reply) :
    laws.Flows f (p.sent request reply) := by
  have writing : request.closes = false → laws.Writing p.sender := by
    intro goesOn
    apply flows.writing
    cases closing : p.closing with
    | false => rfl
    | true =>
        rw [order closing] at goesOn
        cases goesOn
  have listening : p.told = false := by
    cases told : p.told with
    | false => rfl
    | true => exact absurd (flows.done told).1 opened
  obtain ⟨kept, still, idle | ⟨r, books⟩⟩ :=
    EncodingLaws.call_books exact flows.compresses opened writing returned
  · obtain ⟨e, failed⟩ := idle.failed
    have moved : p.sent request reply =
        { p with
          sender := reply.handle
          closing := p.closing || request.closes } := by
      simp [Pipe.sent, failed]
    rw [moved]
    refine ⟨kept, ?_, ?_, flows.decompresses, flows.delivered, ?_,
      flows.receiving, ?_⟩
    · intro goesOn
      exact still (Bool.or_eq_false_iff.mp goesOn).2
    · rw [← flows.consumed]
      exact congrArg Enc.source idle.encoder
    · have same := flows.carries
      rw [← idle.encoder] at same
      exact same
    · intro told
      rw [listening] at told
      cases told
  · have moved : p.sent request reply =
        { p with
          sender := reply.handle
          closing := p.closing || request.closes
          consumed := p.consumed ++ request.input.bytes.take r.bytesConsumed
          channel :=
            p.channel ++ (request.out.overwrite reply.written).take
              r.bytesProduced } := by
      simp [Pipe.sent, books.result]
    rw [moved]
    refine ⟨kept, ?_, ?_, flows.decompresses, flows.delivered, ?_,
      flows.receiving, ?_⟩
    · intro goesOn
      exact still (Bool.or_eq_false_iff.mp goesOn).2
    · rw [books.source, flows.consumed]
    · exact flows.carries.emits kept.sound books.output
    · intro told
      rw [listening] at told
      cases told

/-- A push of what stands at the front of the channel is refused for want of
memory, or reads and is booked as it was served. -/
structure Takes (f : Format) (p : Pipe B) (input out : Span) (signal : Signal)
    (r : StreamResult) : Prop where
  result : (p.receiver.push input out).result = .ok r
  reads : (laws.decoder p.receiver).Reads (laws.wire f) (input.shown f)
    (reach f out.size)
    r.bytesConsumed (p.receiver.push input out).written signal
  front : input.shown f <+: p.channel
  produced : r.bytesProduced = (p.receiver.push input out).written.length
  done : r.done = true ↔ signal = .done
  flows : laws.Flows f (p.received out (p.receiver.push input out))

theorem Flows.refused {p : Pipe B} (flows : laws.Flows f p)
    (idle : InflateIdleLaws laws.inflate) (listening : p.told = false)
    (input : Span) {out : Span} (nowhere : ¬ (f = .zstd ∨ out.isNull = false)) :
    laws.Flows f (p.received out (p.receiver.push input out)) := by
  obtain ⟨opened, isOpen⟩ := flows.receiving listening
  obtain ⟨-, -, -, -, e, failed⟩ := push_null flows.decompresses input nowhere
  obtain ⟨kept, still, decoder⟩ :=
    push_null_idle idle flows.decompresses input nowhere
  have moved : p.received out (p.receiver.push input out) =
      { p with receiver := (p.receiver.push input out).handle } := by
    simp [Pipe.received, failed]
  rw [moved]
  refine ⟨flows.compresses, flows.writing, flows.consumed, kept, ?_, ?_,
    ?_, flows.done⟩
  · rw [← flows.delivered]
    exact congrArg Dec.delivered decoder
  · have same := flows.carries
    rw [← decoder] at same
    exact same
  · intro _
    rw [← decoder] at isOpen
    exact ⟨still.trans opened, isOpen⟩

theorem Flows.takes {p : Pipe B} (flows : laws.Flows f p)
    (exact : CountsExact B f) (listening : p.told = false) {input out : Span}
    (front : input.bytes <+: p.channel)
    (memory : f = .zstd ∨ out.isNull = false) :
    ∃ signal r, laws.Takes f p input out signal r := by
  obtain ⟨opened, isOpen⟩ := flows.receiving listening
  obtain ⟨taken, signal, ⟨reads, -, -, kept, advances, status, -, verdict⟩⟩ :=
    laws.push_reads flows.decompresses opened input memory
  have shownFront : input.shown f <+: p.channel :=
    (input.shown_isPrefix f).trans front
  have notBad : signal ≠ .bad := flows.carries.not_bad reads shownFront
  have notExtra : ¬ (signal = .done ∧ f = .zstd ∧ taken < input.size) := by
    intro extra
    obtain ⟨isDone, -, less⟩ := extra
    obtain ⟨-, nothing, -⟩ := flows.carries.done reads shownFront isDone
    have long := front.length_le
    have cut := List.drop_eq_nil_iff.mp nothing
    change input.size ≤ _ at long
    omega
  obtain ⟨r, result, told, counts⟩ := verdict.served notBad notExtra
  obtain ⟨rfl, outCount⟩ := counts exact
  have moved : p.received out (p.receiver.push input out) =
      { p with
        receiver := (p.receiver.push input out).handle
        channel := p.channel.drop r.bytesConsumed
        delivered := p.delivered ++ (p.receiver.push input out).written
        told := r.done } := by
    simp [Pipe.received, result, outCount, Span.take_overwrite]
  have decoder := advances notBad
  refine ⟨signal, r, result, reads, shownFront, outCount, told, ?_⟩
  rw [moved]
  refine ⟨flows.compresses, flows.writing, flows.consumed, kept, ?_, ?_, ?_, ?_⟩
  · rw [decoder, ← flows.delivered]
    rfl
  · have after := flows.carries.receives reads shownFront
    rw [← decoder] at after
    exact after
  · intro goesOn
    have isMore : signal = .more := by
      cases signal with
      | bad => exact absurd rfl notBad
      | more => rfl
      | done =>
          have short : r.done = false := goesOn
          have isDone := told.mpr rfl
          rw [short] at isDone
          cases isDone
    subst isMore
    have goingOn := reads.more rfl
    rw [← decoder] at goingOn
    exact ⟨status notBad, goingOn⟩
  · intro isDone
    obtain ⟨ended, nothing, all⟩ :=
      flows.carries.done reads shownFront (told.mp isDone)
    rw [flows.delivered, flows.consumed] at all
    exact ⟨ended, nothing, all⟩

theorem Flows.step {p p' : Pipe B} (flows : laws.Flows f p)
    (exact : CountsExact B f) (idle : InflateIdleLaws laws.inflate)
    {request : Pipe.Request} {answer : Except Error StreamResult}
    (step : Pipe.Step laws p request answer p') :
    laws.Flows f p' ∧ ∀ input out, request = .receive input out →
      (∃ e, answer = .error e) → f ≠ .zstd ∧ out.isNull = true := by
  cases step with
  | send order opened returned =>
      exact ⟨flows.sent exact order opened returned,
        fun _ _ same => by cases same⟩
  | @receive input out listening front =>
      by_cases memory : f = .zstd ∨ out.isNull = false
      · obtain ⟨signal, r, takes⟩ := flows.takes exact listening front memory
        refine ⟨takes.flows, ?_⟩
        intro _ _ _ failed
        obtain ⟨e, failed⟩ := failed
        rw [takes.result] at failed
        cases failed
      · refine ⟨flows.refused idle listening input memory, ?_⟩
        intro input' out' same _
        cases same
        obtain ⟨notZstd, notMemory⟩ := not_or.mp memory
        exact ⟨notZstd, Bool.eq_true_of_not_eq_false notMemory⟩

theorem flows_of_run {lvl : ZlibLevel} (exact : CountsExact B f)
    (idle : InflateIdleLaws laws.inflate) (serves : B.Serves f)
    (accepted : Accepts f lvl)
    {trace : List (Pipe.Request × Except Error StreamResult)} {p : Pipe B}
    (run : Run (Pipe.Step laws) (.start B f lvl) trace p) : laws.Flows f p :=
  (run.always (laws.Flows f) (fun _ _ => True)
    (fun flows step => ⟨trivial, (flows.step exact idle step).1⟩)
      (flows_start serves accepted)).2

/-- After a flush that left room all that was consumed can be decoded. -/
theorem Flows.flushed {p p' : Pipe B} (flows : laws.Flows f p)
    (exact : CountsExact B f) {out : Span} {r : StreamResult}
    (step : Pipe.Step laws p (.send (.flush out)) (.ok r) p')
    (roomLeft : r.bytesProduced < reach f out.size) :
    (laws.wire f).content (laws.encoder p'.sender).output =
      (laws.encoder p'.sender).source := by
  obtain ⟨order, -, reply, returned, ok, rfl⟩ := step.of_send
  cases returned
  have writing : laws.Writing p.sender := by
    apply flows.writing
    cases closing : p.closing with
    | false => rfl
    | true => exact absurd (order closing) Bool.false_ne_true
  obtain ⟨-, -, idle | syncs⟩ := laws.flush_spec flows.compresses writing out
  · obtain ⟨e, failed⟩ := idle.failed
    rw [failed] at ok
    cases ok
  · obtain ⟨r', result, -, -, count⟩ := syncs.result
    rw [ok, Except.ok.injEq] at result
    subst result
    have synced := syncs.encoder.synced (count exact ▸ roomLeft)
    simpa [Pipe.sent, ok] using synced

theorem Flows.receives {p p' : Pipe B} (flows : laws.Flows f p)
    (exact : CountsExact B f) (idle : InflateIdleLaws laws.inflate)
    {request : Pipe.Request} {answer : Except Error StreamResult}
    (receives : Pipe.Receives laws p request answer p') :
    laws.Flows f p' ∧ p'.sender = p.sender ∧ p'.consumed = p.consumed := by
  obtain ⟨step, input, out, rfl⟩ := receives
  refine ⟨(flows.step exact idle step).1, ?_⟩
  obtain ⟨-, -, -, rfl⟩ := step.of_receive
  cases result : (p.receiver.push input out).result with
  | error e => simp [Pipe.received, result]
  | ok r => simp [Pipe.received, result]

theorem Takes.caughtUp {p : Pipe B} {input out : Span} {signal : Signal}
    {r : StreamResult} (takes : laws.Takes f p input out signal r)
    (flows : laws.Flows f p)
    (synced : (laws.wire f).content (laws.encoder p.sender).output =
      (laws.encoder p.sender).source)
    (isEmpty : (p.received out (p.receiver.push input out)).channel = [])
    (roomLeft : r.bytesProduced < reach f out.size) :
    (p.received out (p.receiver.push input out)).delivered = p.consumed := by
  have taken : p.channel.drop r.bytesConsumed = [] := by
    simpa [Pipe.received, takes.result] using isEmpty
  have all := flows.carries.caughtUp takes.reads takes.front synced taken
    (takes.produced ▸ roomLeft)
  rw [flows.delivered, flows.consumed] at all
  simpa [Pipe.received, takes.result, takes.produced,
    Span.take_overwrite] using all

/-- After the end of the compressed stream every useful push leaves less to do,
or tells of the end. -/
theorem Flows.spends {p p' : Pipe B} (flows : laws.Flows f p)
    (exact : CountsExact B f) (ended : (laws.encoder p.sender).Ended)
    {request : Pipe.Request} {answer : Except Error StreamResult}
    (step : Pipe.Step laws p request answer p') (useful : p.Useful f request) :
    (laws.encoder p'.sender).Ended ∧
    (p'.told = false → p.told = false ∧ p'.left < p.left) := by
  cases step with
  | send _ opened _ => exact absurd ended opened
  | @receive input out listening front =>
      obtain ⟨room, offers⟩ := useful
      have memory : out.isNull = false :=
        Span.notNull_of_size_pos (room.trans_le (reach_le f out.size))
      obtain ⟨signal, r, takes⟩ :=
        flows.takes exact listening front (.inr memory)
      have moved : p.received out (p.receiver.push input out) =
          { p with
            receiver := (p.receiver.push input out).handle
            channel := p.channel.drop r.bytesConsumed
            delivered := p.delivered ++ (p.receiver.push input out).written
            told := r.done } := by
        simp [Pipe.received, takes.result, takes.produced, Span.take_overwrite]
      have after := takes.flows
      rw [moved] at after ⊢
      refine ⟨ended, ?_⟩
      intro goesOn
      have short : r.done = false := goesOn
      have isMore : signal = .more := by
        cases signal with
        | bad =>
            exact absurd rfl (flows.carries.not_bad takes.reads takes.front)
        | more => rfl
        | done =>
            have isDone := takes.done.mpr rfl
            rw [short] at isDone
            cases isDone
      have some : input.shown f ≠ [] ∨
          (p.channel = [] ∧ (laws.encoder p.sender).Ended) := by
        rcases offers with shown | nothing
        · left
          apply List.length_pos_iff.mp
          rwa [input.length_shown f]
        · exact .inr ⟨nothing, ended⟩
      have used :=
        flows.carries.moves takes.reads
          (flows.receiving listening).2 isMore room some
      have inside := after.carries.delivered_isPrefix.length_le
      rw [after.delivered, after.consumed] at inside
      have front := takes.front.length_le
      have takenLe := takes.reads.taken_le
      refine ⟨listening, ?_⟩
      simp only [Pipe.left, List.length_drop, List.length_append] at inside ⊢
      omega

theorem flows_of_sends {lvl : ZlibLevel} (exact : CountsExact B f)
    (serves : B.Serves f) (accepted : Accepts f lvl)
    {trace : List (Pipe.Request × Except Error StreamResult)} {p : Pipe B}
    (run : Run (Pipe.Sends laws) (.start B f lvl) trace p) :
    laws.Flows f p ∧ (laws.decoder p.receiver).read = [] := by
  let Unread (p : Pipe B) : Prop :=
    laws.Flows f p ∧ (laws.decoder p.receiver).read = []
  refine (run.always Unread (fun _ _ => True) ?_ ?_).2
  · intro p request answer p' holds sends
    obtain ⟨flows, unread⟩ := holds
    obtain ⟨step, sent, rfl⟩ := sends
    obtain ⟨order, opened, reply, returned, -, rfl⟩ := step.of_send
    refine ⟨trivial, flows.sent exact order opened returned, ?_⟩
    cases result : reply.result with
    | error e => simpa [Pipe.sent, result] using unread
    | ok r => simpa [Pipe.sent, result] using unread
  · exact ⟨flows_start serves accepted,
      congrArg Dec.read (laws.decompresses_construct serves).2.1⟩

end EngineLaws

/-- Whichever party moves next, and whatever calls fail, what the receiver has
delivered is a prefix of what the sender has consumed, no push on the receiver
fails but for want of memory to write to, and once the receiver is told of the
end it has delivered everything. -/
theorem pipe_delivers (laws : EngineLaws B)
    (idle : InflateIdleLaws laws.inflate) {f : Format} {lvl : ZlibLevel}
    (exact : CountsExact B f) (serves : B.Serves f) (accepted : Accepts f lvl)
    {trace : List (Pipe.Request × Except Error StreamResult)} {p : Pipe B}
    (run : Run (Pipe.Step laws) (.start B f lvl) trace p) :
    p.delivered <+: p.consumed ∧
      (∀ input out e, (.receive input out, .error e) ∈ trace → f ≠ .zstd ∧
        out.isNull = true) ∧
      (p.told = true →
        (laws.encoder p.sender).Ended ∧ p.channel = [] ∧
        p.delivered = p.consumed) := by
  obtain ⟨served, flows⟩ := run.always (laws.Flows f)
    (fun request answer => ∀ input out, request = .receive input out →
      (∃ e, answer = .error e) → f ≠ .zstd ∧ out.isNull = true)
    (fun flows step => (flows.step exact idle step).symm)
      (EngineLaws.flows_start serves accepted)
  refine ⟨?_, ?_, flows.done⟩
  · rw [← flows.delivered, ← flows.consumed]
    exact flows.carries.delivered_isPrefix
  · intro input out e listed
    exact served _ listed input out rfl ⟨e, rfl⟩

/-- Room for all of a small stream. -/
def pipeRoom : Span := .zeros 36 (by decide)

/-- A gzip pipe into which five bytes have been pushed. -/
def pipedFive : Pipe unixBuild :=
  (Pipe.start unixBuild .gzip ⟨0⟩).sent (.push fiveBytes pipeRoom)
    ((Compressor.of unixBuild .gzip ⟨0⟩).push fiveBytes pipeRoom)

theorem sends_pipedFive :
    ∃ trace,
    Run (Pipe.Sends unixLaws) (.start unixBuild .gzip ⟨0⟩) trace pipedFive := by
  have opened :
      ¬ (unixLaws.encoder (Pipe.start unixBuild .gzip ⟨0⟩).sender).Ended := by
        decide
  have first : Pipe.Step unixLaws (.start unixBuild .gzip ⟨0⟩)
      (.send (.push fiveBytes pipeRoom)) _ pipedFive :=
    .send (fun closing => absurd closing Bool.false_ne_true) opened rfl
  exact ⟨_, .one ⟨first, _, rfl⟩⟩

theorem run_pipedFive :
    ∃ trace,
    Run (Pipe.Step unixLaws) (.start unixBuild .gzip ⟨0⟩) trace pipedFive := by
  obtain ⟨trace, run⟩ := sends_pipedFive
  exact ⟨trace, Pipe.run_of_sends run⟩

/-- The pipe after a finish with room for what was left. -/
def closedFive : Pipe unixBuild :=
  pipedFive.sent (.finish pipeRoom)
    ((pipedFive.sender.finish pipeRoom).get (by decide))

theorem sends_closedFive :
    ∃ trace, Run (Pipe.Sends unixLaws)
      (.start unixBuild .gzip ⟨0⟩) trace closedFive := by
  have opened : ¬ (unixLaws.encoder pipedFive.sender).Ended := by decide
  have last :
      Pipe.Step unixLaws pipedFive (.send (.finish pipeRoom)) _ closedFive :=
    .send (fun _ => rfl) opened (by rfl)
  obtain ⟨trace, run⟩ := sends_pipedFive
  exact ⟨_, run.concat ⟨last, _, rfl⟩⟩

theorem run_closedFive :
    ∃ trace,
    Run (Pipe.Step unixLaws) (.start unixBuild .gzip ⟨0⟩) trace closedFive := by
  obtain ⟨trace, run⟩ := sends_closedFive
  exact ⟨trace, Pipe.run_of_sends run⟩

/-- The pipe after a push of all that the receiver can see. -/
def Pipe.emptied (p : Pipe unixBuild) (fits : p.channel.length < 2 ^ 64)
    (out : Span) :
    Pipe unixBuild :=
  p.received out (p.receiver.push (.ofBytes p.channel fits) out)

theorem Pipe.emptied_step {p : Pipe unixBuild}
    (fits : p.channel.length < 2 ^ 64) (out : Span)
    (listening : p.told = false) :
    Step unixLaws p (.receive (.ofBytes p.channel fits) out)
      (p.receiver.push (.ofBytes p.channel fits) out).result
        (p.emptied fits out) :=
  .receive listening List.prefix_rfl

theorem pipe_delivers_five :
    let p := closedFive.emptied (by decide) (.zeros 6 (by decide))
    p.delivered <+: p.consumed ∧ (unixLaws.encoder p.sender).Ended ∧
      p.channel = [] ∧ p.delivered = p.consumed := by
  obtain ⟨trace, run⟩ := run_closedFive
  have told :
      (closedFive.emptied (by decide) (.zeros 6 (by decide))).told = true := by
    decide +kernel
  obtain ⟨inside, -, done⟩ :=
    pipe_delivers unixLaws (storedIdle 64 unix_wide 3) (.inr rfl)
      (by decide) (by decide)
    (run.concat (Pipe.emptied_step (by decide) (.zeros 6 (by decide))
      (by decide)))
  exact ⟨inside, done told⟩

/-- A flush that left room makes everything consumed reach the receiver: once
the sender's flush has come through, and only pushes of the receiver followed,
the push that empties the channel into room to spare has delivered it all. -/
theorem pipe_catches_up (laws : EngineLaws B)
    (idle : InflateIdleLaws laws.inflate) {f : Format} {lvl : ZlibLevel}
    (exact : CountsExact B f) (serves : B.Serves f) (accepted : Accepts f lvl)
    {trace later : List (Pipe.Request × Except Error StreamResult)}
    {p p₁ p₂ p₃ : Pipe B} (run : Run (Pipe.Step laws) (.start B f lvl) trace p)
    {out : Span} {r : StreamResult}
    (flushed : Pipe.Step laws p (.send (.flush out)) (.ok r) p₁)
    (roomLeft : r.bytesProduced < reach f out.size)
    (receiving : Run (Pipe.Receives laws) p₁ later p₂) {input' out' : Span}
    {r' : StreamResult}
    (last : Pipe.Step laws p₂ (.receive input' out') (.ok r') p₃)
    (roomLeft' : r'.bytesProduced < reach f out'.size)
    (isEmpty : p₃.channel = []) :
    p₃.delivered = p₁.consumed ∧ p₃.consumed = p₁.consumed := by
  have atFlush := EngineLaws.flows_of_run exact idle serves accepted run
  have synced := atFlush.flushed exact flushed roomLeft
  have after : laws.Flows f p₁ := (atFlush.step exact idle flushed).1
  let Waits (p : Pipe B) : Prop :=
    laws.Flows f p ∧ p.sender = p₁.sender ∧ p.consumed = p₁.consumed
  have waits : Waits p₂ := by
    refine (receiving.always Waits (fun _ _ => True) ?_ ⟨after, rfl, rfl⟩).2
    intro p request answer p' holds receives
    obtain ⟨flows, sender, consumed⟩ := holds
    obtain ⟨kept, sameSender, sameConsumed⟩ :=
      flows.receives exact idle receives
    exact ⟨trivial, kept, sameSender.trans sender, sameConsumed.trans consumed⟩
  obtain ⟨flows, sender, consumed⟩ := waits
  obtain ⟨-, -, sameConsumed⟩ := flows.receives exact idle ⟨last, _, _, rfl⟩
  obtain ⟨listening, front, ok, rfl⟩ := last.of_receive
  by_cases memory : f = .zstd ∨ out'.isNull = false
  · obtain ⟨signal, r, takes⟩ := flows.takes exact listening front memory
    have same : r = r' := Except.ok.inj (takes.result.symm.trans ok)
    subst same
    rw [← sender] at synced
    exact ⟨(takes.caughtUp flows synced isEmpty roomLeft').trans consumed,
      sameConsumed.trans consumed⟩
  · obtain ⟨-, -, -, -, e, failed⟩ :=
      EngineLaws.push_null flows.decompresses input' memory
    rw [failed] at ok
    cases ok

/-- The pipe after a flush with room to spare. -/
def flushedFive : Pipe unixBuild :=
  pipedFive.sent (.flush pipeRoom) (pipedFive.sender.flush pipeRoom)

theorem pipe_catches_up_five :
    let p := flushedFive.emptied (by decide) (.zeros 1 (by decide))
    let p' := p.emptied (by decide) (.zeros 6 (by decide))
    p'.delivered = flushedFive.consumed ∧
      p'.consumed = flushedFive.consumed := by
  obtain ⟨trace, run⟩ := run_pipedFive
  let p := flushedFive.emptied (by decide) (.zeros 1 (by decide))
  have opened : ¬ (unixLaws.encoder pipedFive.sender).Ended := by decide
  have flushed : (pipedFive.sender.flush pipeRoom).result =
      .ok { bytesConsumed := 0, bytesProduced := 15, done := false } := by
    decide
  have sent : Pipe.Step unixLaws pipedFive (.send (.flush pipeRoom))
      (pipedFive.sender.flush pipeRoom).result flushedFive :=
    .send (fun closing => absurd closing Bool.false_ne_true) opened rfl
  have first :=
    Pipe.emptied_step (p := flushedFive) (by decide)
      (.zeros 1 (by decide)) (by decide)
  have second :=
    Pipe.emptied_step (p := p) (by decide) (.zeros 6 (by decide)) (by decide)
  have pushed :
      (p.receiver.push (.ofBytes p.channel (by decide))
        (.zeros 6 (by decide))).result =
      .ok { bytesConsumed := 9, bytesProduced := 4, done := false } := by
    decide
  rw [flushed] at sent
  rw [pushed] at second
  exact pipe_catches_up unixLaws (storedIdle 64 unix_wide 3) (.inr rfl)
    (by decide) (by decide) run sent (by decide)
    (.one ⟨first, _, _, rfl⟩) second (by decide) (by decide)

/-- Once the sender has emitted the end of its stream, the receiver is told of
it, and has everything, within as many useful pushes as there are bytes to take
and to deliver. -/
theorem pipe_completes (laws : EngineLaws B)
    (idle : InflateIdleLaws laws.inflate) {f : Format} {lvl : ZlibLevel}
    (exact : CountsExact B f) (serves : B.Serves f) (accepted : Accepts f lvl)
    {trace later : List (Pipe.Request × Except Error StreamResult)}
    {p p' : Pipe B} (run : Run (Pipe.Step laws) (.start B f lvl) trace p)
    (ended : (laws.encoder p.sender).Ended)
    (receiving :
      Run (fun p request answer p' => Pipe.Step laws p request answer p' ∧
        p.Useful f request) p later p') :
    (p'.told = false → later.length < p.left) ∧
      (p'.told = true → p'.channel = [] ∧ p'.delivered = p'.consumed) := by
  let Ends (p : Pipe B) : Prop := laws.Flows f p ∧ (laws.encoder p.sender).Ended
  have kept {p p' : Pipe B} {request : Pipe.Request}
      {answer : Except Error StreamResult}
      (ends : Ends p) (exchange : Pipe.Step laws p request answer p' ∧
        p.Useful f request) :
      Ends p' ∧ (p'.told = false → p.told = false ∧ p'.left < p.left) := by
    obtain ⟨still, spends⟩ := ends.1.spends exact ends.2 exchange.1 exchange.2
    exact ⟨⟨(ends.1.step exact idle exchange.1).1, still⟩, spends⟩
  have start : Ends p :=
    ⟨EngineLaws.flows_of_run exact idle serves accepted run, ended⟩
  obtain ⟨-, flows, still⟩ := receiving.always Ends (fun _ _ => True)
    (fun ends exchange => ⟨trivial, (kept ends exchange).1⟩) start
  refine ⟨?_, fun told => (flows.done told).2⟩
  intro goesOn
  obtain ⟨-, spent⟩ :=
    receiving.length_le Ends (fun p => p.told =
      false) Pipe.left kept start goesOn
  have unfinished := flows.carries.unfinished (flows.receiving goesOn).2 still
  rw [flows.delivered, flows.consumed] at unfinished
  exact (Nat.lt_add_of_pos_right unfinished).trans_le spent

theorem pipe_completes_five :
    (closedFive.emptied (by decide) (.zeros 1 (by decide))).told = false ∧
    1 < closedFive.left ∧
      (closedFive.emptied (by decide) (.zeros 6 (by decide))).delivered =
        fiveBytes.bytes := by
  obtain ⟨trace, run⟩ := run_closedFive
  have ended : (unixLaws.encoder closedFive.sender).Ended := by decide
  have slow :=
    Pipe.emptied_step (p := closedFive) (by decide)
      (.zeros 1 (by decide)) (by decide)
  have quick :=
    Pipe.emptied_step (p := closedFive) (by decide)
      (.zeros 6 (by decide)) (by decide)
  have goesOn : (closedFive.emptied (by decide) (.zeros 1 (by decide))).told =
      false := by decide
  have told :
      (closedFive.emptied (by decide) (.zeros 6 (by decide))).told = true := by
    decide +kernel
  have shown : Shows .gzip 1 ∧ Shows .gzip 6 ∧
      Shows .gzip closedFive.channel.length := by decide
  have waits :=
    (pipe_completes unixLaws (storedIdle 64 unix_wide 3) (.inr rfl) (by decide)
      (by decide) run ended
    (.one ⟨slow, shown.1, .inl shown.2.2⟩)).1 goesOn
  have ends :=
    (pipe_completes unixLaws (storedIdle 64 unix_wide 3) (.inr rfl) (by decide)
      (by decide) run ended
    (.one ⟨quick, shown.2.1, .inl shown.2.2⟩)).2 told
  exact ⟨goesOn, waits, ends.2.trans (by decide +kernel)⟩

end Polliwog
