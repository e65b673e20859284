import Polliwog.Codec.Serial

/-!
# Streams of fields and copied bytes

Many wire formats are a sequence of fields of known width, some of which
announce a number of bytes to be copied to the content.  A grammar says what
each field leads to, and its machine reads the format.
-/

namespace Codec

variable {β φ : Type}

/-- What a field leads to; nothing after a copy is the end of the stream. -/
inductive Turn (φ : Type) where
  | bad
  | done
  | field (f : φ)
  | copy (count : Nat) (after : Option φ)

structure Grammar (β φ : Type) where
  start : φ
  width : φ → Nat
  next : φ → (content field : List β) → Turn φ

namespace Grammar

inductive Phase (β φ : Type) where
  | field (f : φ) (seen : List β)
  /-- One byte more than `left` is still to be copied. -/
  | copying (left : Nat) (after : Option φ)
  | done
  | bad

structure State (β φ : Type) where
  phase : Phase β φ
  content : List β

def Phase.after : Option φ → Phase β φ
  | none => .done
  | some f => .field f []

def Phase.turn : Turn φ → Phase β φ
  | .bad => .bad
  | .done => .done
  | .field f => .field f []
  | .copy 0 after => .after after
  | .copy (left + 1) after => .copying left after

def step (G : Grammar β φ) (s : State β φ) (b : β) : State β φ × Option β :=
  match s.phase with
  | .field f seen =>
      let seen := seen ++ [b]
      let phase := if seen.length < G.width f then .field f seen
        else .turn (G.next f s.content seen)
      ({ s with phase := phase }, none)
  | .copying 0 after =>
      ({ phase := .after after, content := s.content ++ [b] }, some b)
  | .copying (left + 1) after =>
      ({ phase := .copying left after, content := s.content ++ [b] }, some b)
  | .done | .bad => (s, none)

def signal (s : State β φ) : Signal :=
  match s.phase with
  | .field _ _ | .copying _ _ => .more
  | .done => .done
  | .bad => .bad

def machine (G : Grammar β φ) : Serial β (State β φ) where
  start := { phase := .field G.start [], content := [] }
  step := G.step
  signal := signal
  signal_start := rfl

def wire (G : Grammar β φ) : Wire β := G.machine.wire

variable {G : Grammar β φ}

theorem content_state (s : State β φ) (p : List β) :
    (G.machine.state s p).content = s.content ++ G.machine.output s p := by
  induction p generalizing s with
  | nil => simp [Serial.state, Serial.output]
  | cons b p ih =>
      have stepped : (G.machine.next s b).1.content =
          s.content ++ (G.machine.next s b).2.toList := by
        obtain ⟨phase, content⟩ := s
        cases phase with
        | field f seen => simp [Serial.next, machine, signal, step]
        | copying left after =>
            cases left <;> simp [Serial.next, machine, signal, step]
        | done => simp [Serial.next, machine, signal]
        | bad => simp [Serial.next, machine, signal]
      rw [Serial.state, Serial.output, ih, stepped, List.append_assoc]

theorem state_partial {f : φ} {seen content p : List β}
    (short : seen.length + p.length < G.width f) :
    G.machine.state ⟨.field f seen, content⟩ p =
      ⟨.field f (seen ++ p), content⟩ := by
  induction p generalizing seen with
  | nil => simp [Serial.state]
  | cons b p ih =>
      simp only [List.length_cons] at short
      have stepped : (G.machine.next ⟨.field f seen, content⟩ b).1 =
          ⟨.field f (seen ++ [b]), content⟩ := by
        have inside : seen.length + 1 < G.width f := by omega
        simp [Serial.next, machine, signal, step, inside]
      rw [Serial.state, stepped,
        ih (by simp only [List.length_append, List.length_singleton]; omega)]
      simp

theorem state_last {f : φ} {seen content : List β} {b : β}
    (full : seen.length + 1 = G.width f) :
    G.machine.state ⟨.field f seen, content⟩ [b] =
      ⟨.turn (G.next f content (seen ++ [b])), content⟩ := by
  have whole : ¬ seen.length + 1 < G.width f := by omega
  simp [Serial.state, Serial.next, machine, signal, step, whole]

theorem state_copying {left : Nat} {after : Option φ} {content p : List β}
    (short : p.length ≤ left) :
    G.machine.state ⟨.copying left after, content⟩ p =
      ⟨.copying (left - p.length) after, content ++ p⟩ := by
  induction p generalizing left content with
  | nil => simp [Serial.state]
  | cons b p ih =>
      simp only [List.length_cons] at short
      obtain ⟨left, rfl⟩ : ∃ less, left = less + 1 := ⟨left - 1, by omega⟩
      have stepped : (G.machine.next ⟨.copying (left + 1) after, content⟩ b).1 =
          ⟨.copying left after, content ++ [b]⟩ := by
        simp [Serial.next, machine, signal, step]
      rw [Serial.state, stepped, ih (by omega)]
      simp

theorem state_copied {after : Option φ} {content : List β} {b : β} :
    G.machine.state ⟨.copying 0 after, content⟩ [b] =
      ⟨.after after, content ++ [b]⟩ := by
  simp [Serial.state, Serial.next, machine, signal, step]

theorem copies_of_step {p : List β} {b : β}
    (more : G.machine.signal (G.machine.state G.machine.start p) = .more)
    (decodes : (G.machine.step (G.machine.state G.machine.start p) b).2 ≠
      none) :
    G.wire.Copies p := by
  intro c
  have one : G.machine.output (G.machine.state G.machine.start p) [c] =
      [c] := by
    rw [Serial.output, Serial.output, Serial.next, if_pos more, List.append_nil]
    generalize G.machine.state G.machine.start p = s at decodes more ⊢
    obtain ⟨phase, content⟩ := s
    cases phase with
    | field f seen => simp [machine, step] at decodes
    | copying left after => cases left <;> rfl
    | done => simp [machine, step] at decodes
    | bad => simp [machine, step] at decodes
  change G.machine.output G.machine.start (p ++ [c]) = _
  rw [Serial.output_append, one]
  rfl

/-- A drive that leaves input unread leaves a byte to be copied. -/
theorem copies_of_stopped {offered : List β} {room : Nat}
    (more : G.machine.signal
      (G.machine.drive G.machine.start offered room).state = .more)
    (left : (G.machine.drive G.machine.start offered room).taken <
      offered.length) :
    G.wire.Copies
      (offered.take (G.machine.drive G.machine.start offered room).taken) := by
  obtain ⟨b, rest, x, -, decodes⟩ := Serial.drive_stopped more left
  have drives :=
    Serial.drives_drive (M := G.machine) G.machine.start offered room
  rw [drives.state] at more decodes
  exact copies_of_step more (decodes ▸ Option.some_ne_none x)

/-- After `p` the machine is about to read a field, `content` behind it. -/
def Reaches (G : Grammar β φ) (p : List β) (f : φ) (content : List β) : Prop :=
  G.machine.state G.machine.start p = ⟨.field f [], content⟩

namespace Reaches

variable {p q r content : List β} {f g : φ}

theorem start : G.Reaches [] G.start [] := rfl

theorem content_eq (reaches : G.Reaches p f content) :
    G.wire.content p = content := by
  have kept := content_state (G := G) G.machine.start p
  rw [reaches] at kept
  exact kept.symm

theorem turn (reaches : G.Reaches p f content) (whole : q.length = G.width f)
    (nonempty : q ≠ []) :
    G.machine.state G.machine.start (p ++ q) =
      ⟨.turn (G.next f content q), content⟩ ∧ ∃ init b, q = init ++ [b] ∧
        signal (G.machine.state G.machine.start (p ++ init)) = .more := by
  obtain ⟨init, b, rfl⟩ : ∃ init b, q = init ++ [b] :=
    ⟨q.dropLast, q.getLast nonempty,
      (List.dropLast_append_getLast nonempty).symm⟩
  rw [List.length_append, List.length_singleton] at whole
  have before : G.machine.state G.machine.start (p ++ init) =
      ⟨.field f init, content⟩ := by
    rw [Serial.state_append, reaches,
      state_partial (by rw [List.length_nil]; omega)]
    rfl
  refine ⟨?_, init, b, rfl, by rw [before]; rfl⟩
  rw [← List.append_assoc, Serial.state_append, before, state_last whole]

theorem copied {after : Option φ}
    (turned : G.machine.state G.machine.start p =
      ⟨.turn (.copy r.length after), content⟩) :
    G.machine.state G.machine.start (p ++ r) =
      ⟨.after after, content ++ r⟩ := by
  rw [Serial.state_append, turned]
  rcases List.eq_nil_or_concat r with rfl | ⟨init, b, rfl⟩
  · simp [Serial.state, Phase.turn]
  · simp only [List.concat_eq_append, List.length_append,
      List.length_singleton, Phase.turn]
    rw [Serial.state_append, state_copying le_rfl, Nat.sub_self, state_copied,
      List.append_assoc]

theorem field (reaches : G.Reaches p f content) (whole : q.length = G.width f)
    (nonempty : q ≠ []) (next : G.next f content q = .field g) :
    G.Reaches (p ++ q) g content := by
  rw [Reaches, (reaches.turn whole nonempty).1, next]
  rfl

theorem copy (reaches : G.Reaches p f content) (whole : q.length = G.width f)
    (nonempty : q ≠ []) (next : G.next f content q = .copy r.length (some g)) :
    G.Reaches (p ++ q ++ r) g (content ++ r) := by
  have turned := (reaches.turn whole nonempty).1
  rw [next] at turned
  exact copied turned

theorem done (reaches : G.Reaches p f content) (whole : q.length = G.width f)
    (nonempty : q ≠ []) (next : G.next f content q = .done) :
    G.wire.Complete (p ++ q) ∧ G.wire.content (p ++ q) = content := by
  obtain ⟨turned, init, b, rfl, more⟩ := reaches.turn whole nonempty
  rw [next] at turned
  constructor
  · rw [← List.append_assoc] at turned ⊢
    exact Serial.complete_of_last more (congrArg signal turned)
  · have kept := content_state (G := G) G.machine.start (p ++ (init ++ [b]))
    rw [turned] at kept
    exact kept.symm

theorem done_copy (reaches : G.Reaches p f content)
    (whole : q.length = G.width f) (nonempty : q ≠ [])
    (next : G.next f content q = .copy r.length none) :
    G.wire.Complete (p ++ q ++ r) ∧
    G.wire.content (p ++ q ++ r) = content ++ r := by
  obtain ⟨turned, init, b, split, more⟩ := reaches.turn whole nonempty
  rw [next] at turned
  have ended := copied turned
  constructor
  · rcases List.eq_nil_or_concat r with rfl | ⟨first, c, rfl⟩
    · subst split
      rw [List.append_nil, ← List.append_assoc] at ended ⊢
      exact Serial.complete_of_last more (congrArg signal ended)
    · rw [List.concat_eq_append] at turned ended ⊢
      rw [← List.append_assoc] at ended ⊢
      refine Serial.complete_of_last ?_ (congrArg signal ended)
      simp only [List.length_append, List.length_singleton,
        Phase.turn] at turned
      rw [Serial.state_append, turned, state_copying le_rfl]
      rfl
  · have kept := content_state (G := G) G.machine.start (p ++ q ++ r)
    rw [ended] at kept
    exact kept.symm

end Reaches

/-- Bytes in pieces of at most `limit`, the last of them marked as asked. -/
def pieces (limit : Nat) (piece : Bool → List β → List β) (last : Bool) :
    (fuel : Nat) → List β → List β
  | 0, u => piece last u
  | fuel + 1, u =>
      if u.length ≤ limit then piece last u
      else piece false (u.take limit) ++
        pieces limit piece last fuel (u.drop limit)

theorem pieces_of_short {limit fuel : Nat} {piece : Bool → List β → List β}
    {last : Bool} {u : List β} (short : u.length ≤ limit) :
    pieces limit piece last fuel u = piece last u := by
  cases fuel with
  | zero => rfl
  | succ fuel => exact if_pos short

theorem enough_fuel {limit : Nat} (u : List β) (positive : 0 < limit) :
    u.length ≤ limit * (u.length / limit + 1) := by
  rw [Nat.mul_succ]
  have split := Nat.div_add_mod u.length limit
  have less := Nat.mod_lt u.length positive
  omega

/-- What pieces do one by one they do together. -/
theorem reaches_pieces {limit fuel : Nat} {piece : Bool → List β → List β}
    {last : Bool} {f : φ} (Goal : List β → List β → Prop)
    (inner : ∀ {p content u}, G.Reaches p f content → u.length ≤ limit →
      G.Reaches (p ++ piece false u) f (content ++ u))
    (final : ∀ {p content u}, G.Reaches p f content → u.length ≤ limit →
      Goal (p ++ piece last u) (content ++ u))
    {p content u : List β} (reaches : G.Reaches p f content)
    (enough : u.length ≤ limit * (fuel + 1)) :
    Goal (p ++ pieces limit piece last fuel u) (content ++ u) := by
  induction fuel generalizing p content u with
  | zero => exact final reaches (by simpa using enough)
  | succ fuel ih =>
      unfold pieces
      split
      case isTrue short => exact final reaches short
      case isFalse long =>
          have first : (u.take limit).length ≤ limit := List.length_take_le _ _
          have rest : (u.drop limit).length ≤ limit * (fuel + 1) := by
            rw [List.length_drop]
            rw [Nat.mul_succ] at enough
            omega
          have whole := ih (inner reaches first) rest
          rwa [List.append_assoc, List.append_assoc, List.take_append_drop]
            at whole

/-- What pieces cost is paid once for every full one, and once more. -/
theorem length_pieces_le {limit fuel cost : Nat}
    {piece : Bool → List β → List β} {last : Bool}
    (length : ∀ last u, (piece last u).length = u.length + cost) (u : List β) :
    u.length + cost ≤ (pieces limit piece last fuel u).length ∧
      (pieces limit piece last fuel u).length ≤
        u.length + cost * (fuel + 1) := by
  induction fuel generalizing u with
  | zero => simp [pieces, length]
  | succ fuel ih =>
      obtain ⟨least, most⟩ := ih (u.drop limit)
      unfold pieces
      split
      case isTrue =>
          rw [length, Nat.mul_succ]
          omega
      case isFalse long =>
          simp only [List.length_append, length, List.length_take,
            List.length_drop] at *
          rw [Nat.mul_succ]
          omega

end Grammar

end Codec
