import Polliwog.Codec.Buffer
import Polliwog.Codec.Bytes
import Polliwog.Codec.Grammar
import Polliwog.Format

/-!
# Stored deflate streams

The containers around deflate, of which the bodies are stored blocks: what
level 0 makes, and what a decoder of stored blocks accepts.
-/

namespace Polliwog

open Codec

def adler32 (bytes : List UInt8) : Nat :=
  let (a, b) := bytes.foldl
    (fun (a, b) byte => ((a + byte.toNat) % 65521,
      (b + a + byte.toNat) % 65521)) (1, 0)
  b * 65536 + a

/-- One bit of the cyclic redundancy check. -/
def crcBit (crc : Nat) : Nat :=
  if crc % 2 = 1 then (crc / 2) ^^^ 0xedb88320 else crc / 2

def crc32 (bytes : List UInt8) : Nat :=
  (bytes.foldl (fun crc byte => Nat.repeat crcBit 8 (crc ^^^ byte.toNat))
    0xffffffff) ^^^ 0xffffffff

/-- The check at the end of a container. -/
def trailer (f : Format) (content : List UInt8) : List UInt8 :=
  match f with
  | .zlib => (littleEndian 4 (adler32 content)).reverse
  | .gzip => littleEndian 4 (crc32 content) ++ littleEndian 4 content.length
  | _ => []

inductive Part where
  | header
  | block
  | trailer

/-- What a decoder checks of a header. -/
def headerOk (f : Format) (field : List UInt8) : Bool :=
  match f, field with
  | .zlib, [cmf, flg] =>
      (cmf.toNat * 256 + flg.toNat) % 31 = 0 ∧ cmf.toNat % 16 = 8 ∧
        cmf.toNat / 16 ≤ 7 ∧ flg.toNat / 32 % 2 = 0
  | .gzip, field => field.take 4 = [0x1f, 0x8b, 8, 0]
  | _, _ => false

/-- Stored deflate in a container. -/
def storedGrammar (f : Format) : Grammar UInt8 Part where
  start := if f = .zlib ∨ f = .gzip then .header else .block
  width
    | .header => if f = .zlib then 2 else 10
    | .block => 5
    | .trailer => if f = .zlib then 4 else 8
  next
    | .header, _, field => if headerOk f field then .field .block else .bad
    | .block, _, field =>
        let flags := readLittleEndian (field.take 1) % 8
        let count := readLittleEndian ((field.drop 1).take 2)
        let complement := readLittleEndian (field.drop 3)
        if flags ≤ 1 ∧ count + complement = 65535 then
          .copy count
            (if flags = 0 then some .block
              else if f = .zlib ∨ f = .gzip then some .trailer else none)
        else .bad
    | .trailer, content, field =>
        if field = Polliwog.trailer f content then .done else .bad

/-- The level as a zlib header tells it. -/
def levelFlags (lvl : Int) : UInt8 :=
  if lvl < 2 then 0x01 else if lvl < 6 then 0x5e else if lvl = 6
    then 0x9c else 0xda

/-- The level as a gzip header tells it. -/
def extraFlags (lvl : Int) : UInt8 :=
  if lvl = 9 then 2 else if lvl < 2 then 4 else 0

/-- The header of a container, as `deflate` writes it on a system `os`. -/
def header (f : Format) (lvl : Int) (os : UInt8) : List UInt8 :=
  match f with
  | .zlib => [0x78, levelFlags lvl]
  | .gzip => [0x1f, 0x8b, 8, 0, 0, 0, 0, 0, extraFlags lvl, os]
  | _ => []

/-- One stored block. -/
def stored (last : Bool) (u : List UInt8) : List UInt8 :=
  ((if last then 1 else 0) ::
    (littleEndian 2 u.length ++ littleEndian 2 (65535 - u.length))) ++ u

def storedBlocks (last : Bool) (u : List UInt8) : List UInt8 :=
  Grammar.pieces 65535 stored last (u.length / 65535) u

variable {f : Format}

theorem headerOk_header (contained : f = .zlib ∨ f = .gzip) (lvl : Int)
    (os : UInt8) :
    headerOk f (header f lvl os) = true := by
  rcases contained with rfl | rfl
  · change headerOk .zlib [0x78, levelFlags lvl] = true
    unfold levelFlags
    split_ifs <;> decide
  · rfl

theorem length_header (contained : f = .zlib ∨ f = .gzip) (lvl : Int)
    (os : UInt8) :
    (header f lvl os).length = (storedGrammar f).width .header := by
  rcases contained with rfl | rfl <;> rfl

theorem length_trailer (contained : f = .zlib ∨ f = .gzip)
    (content : List UInt8) :
    (trailer f content).length = (storedGrammar f).width .trailer := by
  rcases contained with rfl | rfl <;> simp [trailer, storedGrammar]

theorem header_of_bare (bare : ¬ (f = .zlib ∨ f = .gzip)) (lvl : Int)
    (os : UInt8) :
    header f lvl os = [] := by
  revert bare
  cases f <;> simp [header]

theorem trailer_of_bare (bare : ¬ (f = .zlib ∨ f = .gzip))
    (content : List UInt8) :
    trailer f content = [] := by
  revert bare
  cases f <;> simp [trailer]

theorem reaches_header (f : Format) (lvl : Int) (os : UInt8) :
    (storedGrammar f).Reaches (header f lvl os) .block [] := by
  by_cases contained : f = .zlib ∨ f = .gzip
  · have start : (storedGrammar f).Reaches [] .header [] := by
      have first : (storedGrammar f).start = .header := if_pos contained
      exact first ▸ Grammar.Reaches.start
    refine start.field (length_header contained lvl os) ?_ ?_
    · rcases contained with rfl | rfl <;> exact List.cons_ne_nil _ _
    · exact if_pos (headerOk_header contained lvl os)
  · rw [header_of_bare contained]
    have first : (storedGrammar f).start = .block := if_neg contained
    exact first ▸ Grammar.Reaches.start

/-- The five bytes in front of a stored block. -/
def blockHeader (last : Bool) (count : Nat) : List UInt8 :=
  (if last then 1 else 0) ::
    (littleEndian 2 count ++ littleEndian 2 (65535 - count))

theorem length_stored (last : Bool) (u : List UInt8) :
    (stored last u).length = u.length + 5 := by
  simp [stored]
  omega

theorem next_block (last : Bool) {count : Nat} (short : count ≤ 65535)
    (content : List UInt8) :
    (storedGrammar f).next .block content (blockHeader last count) =
      .copy count
        (if last then if f = .zlib ∨ f = .gzip then some .trailer else none
          else some .block) := by
  have fits : count < 256 ^ 2 := by omega
  have fits' : 65535 - count < 256 ^ 2 := by omega
  have size :
      readLittleEndian (((blockHeader last count).drop 1).take 2) = count := by
    simp [blockHeader, readLittleEndian_littleEndian fits]
  have complement : readLittleEndian ((blockHeader last count).drop 3) =
      65535 - count := by
    simp [blockHeader, readLittleEndian_littleEndian fits']
  have sum : count + (65535 - count) = 65535 := by omega
  cases last with
  | false =>
      have flags :
          readLittleEndian ((blockHeader false count).take 1) % 8 = 0 := rfl
      simp only [storedGrammar, flags, size, complement, sum, Nat.zero_le,
        and_self, ↓reduceIte, Bool.false_eq_true]
  | true =>
      have flags : readLittleEndian ((blockHeader true count).take 1) % 8 = 1 :=
        rfl
      simp only [storedGrammar, flags, size, complement, sum, le_refl,
        and_self, ↓reduceIte, Nat.one_ne_zero]

variable {p content u : List UInt8}

theorem reaches_stored (reaches : (storedGrammar f).Reaches p .block content)
    (short : u.length ≤ 65535) :
    (storedGrammar f).Reaches (p ++ stored false u) .block (content ++ u) := by
  have step := reaches.copy (q := blockHeader false u.length) (r := u) rfl
    (List.cons_ne_nil _ _) (next_block false short content)
  rwa [List.append_assoc] at step

/-- The last block and the trailer end a stream. -/
theorem complete_stored (reaches : (storedGrammar f).Reaches p .block content)
    (short : u.length ≤ 65535) :
    (storedGrammar f).wire.Complete
      (p ++ stored true u ++ trailer f (content ++ u)) ∧
      (storedGrammar f).wire.content
        (p ++ stored true u ++ trailer f (content ++ u)) = content ++ u := by
  have next := next_block (f := f) true short content
  by_cases contained : f = .zlib ∨ f = .gzip
  · simp only [contained, ↓reduceIte] at next
    have before := reaches.copy (q := blockHeader true u.length) (r := u) rfl
      (List.cons_ne_nil _ _) next
    rw [List.append_assoc] at before
    refine before.done (length_trailer contained _) ?_ ?_
    · rcases contained with rfl | rfl <;> simp [trailer, littleEndian]
    · exact if_pos rfl
  · simp only [contained, ↓reduceIte] at next
    have ended :=
      reaches.done_copy (q := blockHeader true u.length) (r := u) rfl
      (List.cons_ne_nil _ _) next
    rw [trailer_of_bare contained, List.append_nil]
    rwa [List.append_assoc] at ended

theorem length_storedBlocks_le (last : Bool) (u : List UInt8) :
    u.length + 5 ≤ (storedBlocks last u).length ∧
      (storedBlocks last u).length ≤ u.length + 5 * (u.length / 65535 + 1) :=
  Grammar.length_pieces_le length_stored u

theorem reaches_storedBlocks
    (reaches : (storedGrammar f).Reaches p .block content) :
    (storedGrammar f).Reaches (p ++ storedBlocks false u) .block
      (content ++ u) :=
  Grammar.reaches_pieces
    (fun p content => (storedGrammar f).Reaches p .block content)
    reaches_stored reaches_stored reaches (Grammar.enough_fuel u (by decide))

theorem complete_storedBlocks
    (reaches : (storedGrammar f).Reaches p .block content) :
    (storedGrammar f).wire.Complete
        (p ++ storedBlocks true u ++ trailer f (content ++ u)) ∧
      (storedGrammar f).wire.content
        (p ++ storedBlocks true u ++ trailer f (content ++ u)) = content ++ u :=
  Grammar.reaches_pieces
    (fun p content =>
      (storedGrammar f).wire.Complete (p ++ trailer f content) ∧
        (storedGrammar f).wire.content (p ++ trailer f content) = content)
    reaches_stored complete_stored reaches (Grammar.enough_fuel u (by decide))

/-- The empty block that a sync ends with. -/
def marker : List UInt8 := [0, 0, 0, 0xff, 0xff]

/-- A synced chunk leaves the stream at a block. -/
theorem reaches_synced (reaches : (storedGrammar f).Reaches p .block content) :
    (storedGrammar f).Reaches (p ++ (storedBlocks false u ++ marker)) .block
      (content ++ u) := by
  have empty : marker = stored false [] := rfl
  have step :=
    reaches_stored (u := []) (reaches_storedBlocks (u := u) reaches)
      (Nat.zero_le _)
  rwa [← empty, List.append_nil, List.append_assoc] at step

theorem reaches_blocks (f : Format) (lvl : Int) (os : UInt8)
    (chunks : List (List UInt8)) :
    (storedGrammar f).Reaches
      (header f lvl os ++ chunks.flatMap fun chunk =>
        storedBlocks false chunk ++ marker)
      .block chunks.flatten := by
  induction chunks using List.reverseRecOn with
  | nil =>
      rw [List.flatMap_nil, List.append_nil]
      exact reaches_header f lvl os
  | append_singleton chunks chunk ih =>
      have step := reaches_synced (u := chunk) ih
      simpa only [List.flatMap_append, List.flatMap_singleton,
        List.flatten_append,
        List.flatten_singleton, ← List.append_assoc] using step

/-- How `deflate` frames a stream that it stores. -/
def storedFraming (f : Format) (lvl : Int) (os : UInt8) :
    Framing (storedGrammar f).wire where
  whole u := header f lvl os ++ storedBlocks true u ++ trailer f u
  opening := header f lvl os
  block chunk := storedBlocks false chunk ++ marker
  closing source pending := storedBlocks true pending ++ trailer f source
  closing_ne_nil := by
    intro source pending blank
    have short := congrArg List.length blank
    have long := (length_storedBlocks_le true pending).1
    simp only [List.length_append, List.length_nil] at short
    omega
  whole_complete u := by
    have whole := complete_storedBlocks (u := u) (reaches_header f lvl os)
    rwa [List.nil_append] at whole
  synced chunks := (reaches_blocks f lvl os chunks).content_eq
  complete chunks pending := by
    have whole :=
      complete_storedBlocks (u := pending) (reaches_blocks f lvl os chunks)
    simpa only [List.append_assoc] using whole

/-- A gzip decoder does not look at the operating system. -/
theorem state_set_os (s : List UInt8) (os : UInt8) :
    (storedGrammar .gzip).machine.state (storedGrammar .gzip).machine.start
      (s.set 9 os) =
      (storedGrammar .gzip).machine.state
        (storedGrammar .gzip).machine.start s := by
  rcases Nat.lt_or_ge 9 s.length with long | short
  · have start : (storedGrammar .gzip).Reaches [] .header [] :=
      Grammar.Reaches.start
    have parts : s.set 9 os = (s.take 10).set 9 os ++ s.drop 10 := by
      have inside : 9 < (s.take 10).length := by
        rw [List.length_take]
        omega
      conv_lhs => rw [← List.take_append_drop 10 s]
      rw [List.set_append_left _ _ inside]
    have sameNext :
        (storedGrammar .gzip).next .header [] ((s.take 10).set 9 os) =
        (storedGrammar .gzip).next .header [] (s.take 10) := by
      have sameMagic : ((s.take 10).set 9 os).take 4 = (s.take 10).take 4 := by
        rw [List.take_set, List.set_eq_of_length_le]
        rw [List.length_take]
        omega
      simp only [storedGrammar, headerOk, sameMagic]
      rfl
    have length : (s.take 10).length = 10 := by
      rw [List.length_take]
      omega
    have first := (start.turn (q := s.take 10) length
      (List.ne_nil_of_length_pos (by omega))).1
    have first' := (start.turn (q := (s.take 10).set 9 os)
      ((List.length_set ..).trans length)
      (List.ne_nil_of_length_pos (by rw [List.length_set]; omega))).1
    rw [List.nil_append] at first first'
    conv_rhs => rw [← List.take_append_drop 10 s]
    rw [parts, Serial.state_append, Serial.state_append, first,
      first', sameNext]
  · rw [List.set_eq_of_length_le short]

theorem complete_set_os {s : List UInt8}
    (complete : (storedGrammar .gzip).wire.Complete s) (os : UInt8) :
    (storedGrammar .gzip).wire.Complete (s.set 9 os) := by
  refine ⟨complete.settled,
    (congrArg _ (state_set_os s os)).trans complete.signal, ?_⟩
  intro q isPrefix different
  have shorter : q.length < s.length := by
    have within := isPrefix.length_le
    rw [List.length_set] at within
    rcases Nat.eq_or_lt_of_le within with whole | shorter
    · exact absurd
        (isPrefix.eq_of_length (by rw [List.length_set]; exact whole)) different
    · exact shorter
  have same : q = (s.take q.length).set 9 os := by
    rw [← List.take_set]
    exact List.prefix_iff_eq_take.mp isPrefix
  rw [same, state_set_os]
  apply complete.before _ (List.take_prefix _ _)
  intro whole
  have long := congrArg List.length whole
  rw [List.length_take] at long
  omega

theorem content_set_os (s : List UInt8) (os : UInt8) :
    (storedGrammar .gzip).wire.content (s.set 9 os) =
      (storedGrammar .gzip).wire.content s := by
  have kept := Grammar.content_state (G := storedGrammar .gzip)
    (storedGrammar .gzip).machine.start s
  have kept' := Grammar.content_state (G := storedGrammar .gzip)
    (storedGrammar .gzip).machine.start (s.set 9 os)
  rw [state_set_os, kept] at kept'
  exact kept'.symm

end Polliwog
