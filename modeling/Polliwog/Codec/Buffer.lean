import Polliwog.Codec.Encoder

/-!
# Encoders that buffer

A buffered encoder keeps what it has absorbed until it is told to sync or to
close, and hands out what is ready as far as there is room.  A framing says
what the pieces of a stream look like; the encoder is sound for any framing.
-/

namespace Codec

variable {β : Type}

/-- The pieces of a stream: whole, or opened, then block by block, then closed
by what it takes to end it with the pending bytes in. -/
structure Framing (W : Wire β) where
  whole : List β → List β
  opening : List β
  block : List β → List β
  closing : (source pending : List β) → List β
  closing_ne_nil : ∀ source pending, closing source pending ≠ []
  whole_complete : ∀ u, W.Complete (whole u) ∧ W.content (whole u) = u
  synced : ∀ chunks : List (List β),
    W.content (opening ++ chunks.flatMap block) = chunks.flatten
  complete : ∀ (chunks : List (List β)) (pending : List β),
    W.Complete (opening ++ chunks.flatMap block ++
        closing (chunks.flatten ++ pending) pending) ∧
      W.content (opening ++ chunks.flatMap block ++
        closing (chunks.flatten ++ pending) pending) = chunks.flatten ++ pending

namespace Framing

variable {W : Wire β} (F : Framing W)

/-- What has been committed to, once the stream is opened. -/
def body : Option (List (List β)) → List β
  | none => []
  | some chunks => F.opening ++ chunks.flatMap F.block

/-- What would end the stream. -/
def tail : Option (List (List β)) → List β → List β
  | none, pending => F.whole pending
  | some chunks, pending => F.closing (chunks.flatten ++ pending) pending

/-- What has been taken in. -/
def source (_F : Framing W) : Option (List (List β)) → List β → List β
  | none, pending => pending
  | some chunks, pending => chunks.flatten ++ pending

variable {F}

theorem tail_ne_nil (chunks : Option (List (List β))) (pending : List β) :
    F.tail chunks pending ≠ [] := by
  cases chunks with
  | none =>
      intro blank
      have complete := (F.whole_complete pending).1
      rw [show F.whole pending = [] from blank] at complete
      exact W.not_complete_nil complete
  | some chunks => exact F.closing_ne_nil _ _

theorem stream_complete (chunks : Option (List (List β))) (pending : List β) :
    W.Complete (F.body chunks ++ F.tail chunks pending) ∧
      W.content (F.body chunks ++ F.tail chunks pending) =
        F.source chunks pending := by
  cases chunks with
  | none => exact F.whole_complete pending
  | some chunks => exact F.complete chunks pending

end Framing

/-- A buffered encoder.  Once it is closing, its whole stream is ready. -/
structure Buffer {W : Wire β} (F : Framing W) where
  chunks : Option (List (List β))
  pending : List β
  closing : Bool
  emitted : Nat
  inside : emitted ≤
    (if closing then F.body chunks ++ F.tail chunks pending
      else F.body chunks).length

namespace Buffer

variable {W : Wire β} {F : Framing W}

def fresh (F : Framing W) : Buffer F :=
  { chunks := none, pending := [], closing := false, emitted := 0,
    inside := Nat.zero_le _ }

/-- The whole stream, were it closed now. -/
def stream (b : Buffer F) : List β :=
  F.body b.chunks ++ F.tail b.chunks b.pending

/-- What may be handed out. -/
def ready (b : Buffer F) : List β :=
  if b.closing then b.stream else F.body b.chunks

def view (b : Buffer F) : Enc β :=
  { source := F.source b.chunks b.pending
    output := b.stream.take b.emitted
    rest := b.stream.drop b.emitted }

variable (b : Buffer F)

theorem ready_isPrefix : b.ready <+: b.stream := by
  unfold ready
  split
  · exact List.prefix_rfl
  · exact List.prefix_append _ _

theorem emitted_le : b.emitted ≤ b.ready.length := b.inside

theorem sound : b.view.Sound W := by
  obtain ⟨complete, content⟩ :=
    Framing.stream_complete (F := F) b.chunks b.pending
  constructor <;> simpa only [view, List.take_append_drop]

theorem not_ended {b : Buffer F} (writing : b.closing = false) :
    ¬ b.view.Ended := by
  intro ended
  have inside := b.emitted_le
  have long :=
    congrArg List.length (show b.stream.drop b.emitted = [] from ended)
  have positive :=
    List.length_pos_iff.mpr (Framing.tail_ne_nil (F := F) b.chunks b.pending)
  simp only [ready, writing, Bool.false_eq_true, ↓reduceIte] at inside
  simp only [stream, List.length_drop, List.length_append,
    List.length_nil] at long
  omega

/-- Commit to more of the stream. -/
def commit (b : Buffer F) (writing : b.closing = false)
    (chunks : Option (List (List β))) (pending : List β)
    (grows : F.body b.chunks <+: F.body chunks) : Buffer F :=
  { chunks := chunks
    pending := pending
    closing := false
    emitted := b.emitted
    inside := by
      have inside := b.emitted_le
      simp only [ready, writing, Bool.false_eq_true, ↓reduceIte] at inside ⊢
      exact inside.trans grows.length_le }

theorem output_commit {writing : b.closing = false}
    {chunks : Option (List (List β))} {pending : List β}
    {grows : F.body b.chunks <+: F.body chunks} :
    (b.commit writing chunks pending grows).view.output = b.view.output := by
  have inside := b.emitted_le
  simp only [ready, writing, Bool.false_eq_true, ↓reduceIte] at inside
  have before : b.stream.take b.emitted = (F.body b.chunks).take b.emitted :=
    List.take_append_of_le_length inside
  have after : (b.commit writing chunks pending grows).stream.take b.emitted =
      (F.body chunks).take b.emitted :=
    List.take_append_of_le_length (inside.trans grows.length_le)
  obtain ⟨t, more⟩ := grows
  change (b.commit writing chunks pending _).stream.take b.emitted =
      b.stream.take b.emitted
  rw [after, before, ← more, List.take_append_of_le_length inside]

theorem body_getD (F : Framing W) (chunks : Option (List (List β))) :
    F.body chunks <+: F.body (some (chunks.getD [])) := by
  cases chunks with
  | none => exact List.nil_prefix
  | some chunks => exact List.prefix_rfl

theorem body_append (F : Framing W) (chunks : Option (List (List β)))
    (chunk : List β) :
    F.body chunks <+: F.body (some (chunks.getD [] ++ [chunk])) := by
  refine (body_getD F chunks).trans ?_
  simp only [Framing.body, List.flatMap_append, ← List.append_assoc]
  exact List.prefix_append _ _

/-- Take bytes in. -/
def absorb (bytes : List β) : Buffer F :=
  if writing : b.closing = false then
    b.commit writing (some (b.chunks.getD [])) (b.pending ++ bytes)
      (body_getD F b.chunks)
  else b

/-- Commit to a block of what is pending. -/
def sync : Buffer F :=
  if writing : b.closing = false then
    if b.pending = [] then b
    else b.commit writing (some (b.chunks.getD [] ++ [b.pending])) []
      (body_append F b.chunks b.pending)
  else b

/-- Commit to the end of the stream. -/
def close : Buffer F :=
  { b with
    closing := true
    inside := b.emitted_le.trans b.ready_isPrefix.length_le }

/-- What there is room to hand out. -/
def written (room : Nat) : List β := (b.ready.drop b.emitted).take room

def emit (room : Nat) : Buffer F :=
  { b with
    emitted := b.emitted + (b.written room).length
    inside := by
      have inside := b.emitted_le
      simp only [written, List.length_take, List.length_drop]
      change _ ≤ b.ready.length
      omega }

variable {b}

theorem closing_absorb (bytes : List β) :
    (b.absorb bytes).closing = b.closing := by
  unfold absorb
  split
  case isTrue writing => exact writing.symm
  case isFalse => rfl

theorem closing_sync : b.sync.closing = b.closing := by
  unfold sync
  split
  case isTrue writing =>
      split
      · rfl
      · exact writing.symm
  case isFalse => rfl

theorem view_absorb (writing : b.closing = false) (bytes : List β) :
    (b.absorb bytes).view.source = b.view.source ++ bytes ∧
      (b.absorb bytes).view.output = b.view.output := by
  simp only [absorb, writing, ↓reduceDIte]
  refine ⟨?_, output_commit b⟩
  change F.source (some (b.chunks.getD [])) (b.pending ++ bytes) =
    F.source b.chunks b.pending ++ bytes
  cases b.chunks <;> simp [Framing.source]

theorem view_sync (writing : b.closing = false) :
    b.sync.view.source = b.view.source ∧
    b.sync.view.output = b.view.output := by
  simp only [sync, writing, ↓reduceDIte]
  split
  · exact ⟨rfl, rfl⟩
  · refine ⟨?_, output_commit b⟩
    change F.source (some (b.chunks.getD [] ++ [b.pending])) [] =
        F.source b.chunks b.pending
    cases b.chunks <;> simp [Framing.source]

theorem view_close : b.close.view = b.view := rfl

theorem length_written (room : Nat) : (b.written room).length ≤ room :=
  List.length_take_le _ _

theorem written_isPrefix (room : Nat) : b.written room <+: b.view.rest :=
  (List.take_prefix _ _).trans (b.ready_isPrefix.drop b.emitted)

theorem view_emit (room : Nat) :
    (b.emit room).view.source = b.view.source ∧
      (b.emit room).view.output = b.view.output ++ b.written room ∧
      b.view.rest = b.written room ++ (b.emit room).view.rest := by
  obtain ⟨t, split⟩ := b.written_isPrefix room
  have rest : b.stream.drop b.emitted = b.written room ++ t := split.symm
  refine ⟨rfl, ?_, ?_⟩
  · change b.stream.take (b.emitted + (b.written room).length) =
        b.stream.take b.emitted ++ _
    rw [List.take_add, rest, List.take_left]
  · change b.stream.drop b.emitted =
      b.written room ++ b.stream.drop (b.emitted + (b.written room).length)
    rw [← List.drop_drop, rest, List.drop_left]

theorem written_closing (closing : b.closing = true) (room : Nat) :
    b.written room = b.view.rest.take room := by
  simp only [written, ready, closing, ↓reduceIte, view]

theorem finishes (closing : b.closing = true) (room : Nat) :
    b.view.Finishes room (b.written room) (b.emit room).view := by
  obtain ⟨source, output, rest⟩ := b.view_emit room
  have written := written_closing closing room
  have long := congrArg List.length rest
  simp only [List.length_append] at long
  have filled := congrArg List.length written
  simp only [List.length_take] at filled
  refine ⟨source, output, ?_, ?_⟩
  · intro fits
    refine ⟨by rw [written, List.take_of_length_le fits], ?_⟩
    exact List.length_eq_zero_iff.mp (by omega)
  · intro short
    refine ⟨by omega, ?_⟩
    intro ended
    have nothing : (b.emit room).view.rest = [] := ended
    rw [nothing, List.length_nil] at long
    omega

theorem output_of_room (writing : b.closing = false) {room : Nat}
    (left : (b.written room).length < room) :
    (b.emit room).view.output = F.body b.chunks := by
  have inside := b.emitted_le
  simp only [ready, writing, Bool.false_eq_true, ↓reduceIte] at inside
  have all : b.emitted + (b.written room).length =
      (F.body b.chunks).length := by
    simp only [written, ready, writing, Bool.false_eq_true, ↓reduceIte,
      List.length_take, List.length_drop] at left ⊢
    omega
  change b.stream.take (b.emitted + (b.written room).length) = _
  rw [all]
  exact List.take_left

theorem synced (writing : b.closing = false) {room : Nat}
    (left : (b.sync.written room).length < room) :
    W.content (b.sync.emit room).view.output =
      (b.sync.emit room).view.source := by
  rw [output_of_room (closing_sync.trans writing) left, (view_emit room).1]
  by_cases blank : b.pending = []
  · have same : b.sync = b := by simp [sync, writing, blank]
    rw [same]
    cases chunks : b.chunks with
    | none =>
        simp only [view, chunks, Framing.body, Framing.source, blank,
          W.content_nil]
    | some chunks =>
        simp only [view, chunks, Framing.body, Framing.source, blank, F.synced,
          List.append_nil]
  · have committed : b.sync.chunks = some (b.chunks.getD [] ++ [b.pending]) ∧
        b.sync.pending = [] := by
      simp [sync, writing, blank, commit]
    simp only [view, committed, Framing.body, Framing.source, F.synced,
      List.append_nil]

section Alike

variable {W' : Wire β} {F' : Framing W'}

/-- Two encoders at the same place of one session, under two framings. -/
structure Alike (b : Buffer F) (b' : Buffer F') : Prop where
  chunks : b'.chunks = b.chunks
  pending : b'.pending = b.pending
  closing : b'.closing = b.closing
  emitted : b'.emitted = b.emitted

variable {b' : Buffer F'}

theorem Alike.absorb (alike : b.Alike b') (bytes : List β) :
    (b.absorb bytes).Alike (b'.absorb bytes) := by
  cases closing : b.closing with
  | true => simpa [Buffer.absorb, alike.closing, closing] using alike
  | false =>
      simp only [Buffer.absorb, alike.closing, closing, ↓reduceDIte]
      exact ⟨by simp [commit, alike.chunks],
        by simp [commit, alike.pending], rfl, alike.emitted⟩

theorem Alike.sync (alike : b.Alike b') : b.sync.Alike b'.sync := by
  cases closing : b.closing with
  | true => simpa [Buffer.sync, alike.closing, closing] using alike
  | false =>
      by_cases blank : b.pending = []
      · simpa [Buffer.sync, alike.closing, closing, alike.pending,
          blank] using alike
      · simp only [Buffer.sync, alike.closing, closing, alike.pending, blank,
          ↓reduceDIte, ↓reduceIte]
        exact ⟨by simp [commit, alike.chunks], rfl, rfl, alike.emitted⟩

theorem Alike.close (alike : b.Alike b') : b.close.Alike b'.close :=
  ⟨alike.chunks, alike.pending, rfl, alike.emitted⟩

theorem Alike.emit (alike : b.Alike b') {room : Nat}
    (length : (b'.written room).length = (b.written room).length) :
    (b.emit room).Alike (b'.emit room) :=
  ⟨alike.chunks, alike.pending, alike.closing,
    congrArg₂ (· + ·) alike.emitted length⟩

end Alike

end Buffer

end Codec
