import Polliwog.Codec.Buffer
import Polliwog.Codec.Bytes
import Polliwog.Codec.Grammar

/-!
# Raw zstd frames

Frames of which every block is raw: what zstd makes of bytes that do not
compress, and what a decoder of raw blocks accepts.
-/

namespace Polliwog

open Codec

/-- A frame header carries the size of a content that was known from the
start. -/
inductive FramePart where
  | header
  | block (known : Option Nat)

def magic : List UInt8 := [0x28, 0xb5, 0x2f, 0xfd]

/-- The header of a frame of less than 256 bytes, all known from the start. -/
def sizedHeader (count : Nat) : List UInt8 := magic ++ [0x20, UInt8.ofNat count]

/-- The header of a frame of a size that is not told, and of a window. -/
def windowHeader : List UInt8 := magic ++ [0x00, 0x58]

/-- The bytes of the largest block. -/
def maxBlock : Nat := 131072

def rawGrammar : Grammar UInt8 FramePart where
  start := .header
  width
    | .header => 6
    | .block _ => 3
  next
    | .header, _, field =>
        match field.drop 4 with
        | [descriptor, byte] =>
            if field.take 4 = magic ∧ descriptor = 0x20
              then .field (.block (some byte.toNat))
            else if field.take 4 = magic ∧
              descriptor = 0 then .field (.block none)
            else .bad
        | _ => .bad
    | .block known, content, field =>
        let value := readLittleEndian field
        let count := value / 8
        if value / 2 % 4 ≠ 0 ∨ maxBlock < count then .bad
        else if value % 2 = 0 then .copy count (some (.block known))
        else if known = none ∨ known = some (content.length + count)
          then .copy count none
        else .bad

/-- One raw block. -/
def raw (last : Bool) (u : List UInt8) : List UInt8 :=
  littleEndian 3 ((if last then 1 else 0) + 8 * u.length) ++ u

def rawBlocks (last : Bool) (u : List UInt8) : List UInt8 :=
  Grammar.pieces maxBlock raw last (u.length / maxBlock) u

/-- The frame of an input known from the start. -/
def frame (u : List UInt8) : List UInt8 :=
  (if u.length < 256 then sizedHeader u.length else windowHeader) ++
  rawBlocks true u

theorem length_raw (last : Bool) (u : List UInt8) :
    (raw last u).length = u.length + 3 := by
  simp [raw]
  omega

theorem next_raw (last : Bool) {count : Nat} (short : count ≤ maxBlock)
    (known : Option Nat) (content : List UInt8)
    (fits : last = true → known = none ∨
      known = some (content.length + count)) :
    rawGrammar.next (.block known) content
        (littleEndian 3 ((if last then 1 else 0) + 8 * count)) =
      .copy count (if last then none else some (.block known)) := by
  have value :
      readLittleEndian (littleEndian 3 ((if last then 1 else 0) + 8 * count)) =
      (if last then 1 else 0) + 8 * count := by
    apply readLittleEndian_littleEndian
    simp only [maxBlock] at short
    split <;> omega
  simp only [rawGrammar, value]
  cases last with
  | false =>
      simp only [Bool.false_eq_true, ↓reduceIte]
      rw [if_neg (by omega), if_pos (by omega), Nat.zero_add,
        Nat.mul_div_cancel_left _ (by decide)]
  | true =>
      have size : (1 + 8 * count) / 8 = count := by omega
      simp only [↓reduceIte, size]
      rw [if_neg (by omega), if_neg (by omega), if_pos (fits rfl)]

theorem reaches_windowHeader :
    rawGrammar.Reaches windowHeader (.block none) [] :=
  Grammar.Reaches.start.field rfl (List.cons_ne_nil _ _) rfl

theorem reaches_sizedHeader {count : Nat} (short : count < 256) :
    rawGrammar.Reaches (sizedHeader count) (.block (some count)) [] := by
  have byte : (UInt8.ofNat count).toNat = count := by
    rw [UInt8.toNat_ofNat']
    omega
  have next : rawGrammar.next .header [] (sizedHeader count) =
      .field (.block (some (UInt8.ofNat count).toNat)) := rfl
  rw [byte] at next
  exact Grammar.Reaches.start.field rfl (List.cons_ne_nil _ _) next

variable {p content u : List UInt8}

theorem reaches_raw (reaches : rawGrammar.Reaches p (.block none) content)
    (short : u.length ≤ maxBlock) :
    rawGrammar.Reaches (p ++ raw false u) (.block none) (content ++ u) := by
  have next : rawGrammar.next (.block none) content _ =
      .copy u.length (some (.block none)) :=
    next_raw false short none content fun isLast =>
      absurd isLast Bool.false_ne_true
  have step :=
    reaches.copy (r := u) (length_littleEndian 3 _) (List.cons_ne_nil _ _) next
  rwa [List.append_assoc] at step

/-- A last block ends a frame whose size it makes good. -/
theorem complete_raw {known : Option Nat}
    (reaches : rawGrammar.Reaches p (.block known) content)
    (short : u.length ≤ maxBlock)
    (fits : known = none ∨ known = some (content.length + u.length)) :
    rawGrammar.wire.Complete (p ++ raw true u) ∧
      rawGrammar.wire.content (p ++ raw true u) = content ++ u := by
  have next : rawGrammar.next (.block known) content _ = .copy u.length none :=
    next_raw true short known content fun _ => fits
  have ended :=
    reaches.done_copy (r := u) (length_littleEndian 3 _)
      (List.cons_ne_nil _ _) next
  rwa [List.append_assoc] at ended

theorem reaches_rawBlocks
    (reaches : rawGrammar.Reaches p (.block none) content) :
    rawGrammar.Reaches (p ++ rawBlocks false u) (.block none) (content ++ u) :=
  Grammar.reaches_pieces
    (fun p content => rawGrammar.Reaches p (.block none) content)
    reaches_raw reaches_raw reaches (Grammar.enough_fuel u (by decide))

theorem complete_rawBlocks
    (reaches : rawGrammar.Reaches p (.block none) content) :
    rawGrammar.wire.Complete (p ++ rawBlocks true u) ∧
      rawGrammar.wire.content (p ++ rawBlocks true u) = content ++ u :=
  Grammar.reaches_pieces
    (fun p content => rawGrammar.wire.Complete p ∧
      rawGrammar.wire.content p = content)
    reaches_raw (fun reaches short =>
      complete_raw reaches short (.inl rfl)) reaches
    (Grammar.enough_fuel u (by decide))

theorem complete_frame (u : List UInt8) :
    rawGrammar.wire.Complete (frame u) ∧
    rawGrammar.wire.content (frame u) = u := by
  unfold frame
  split
  case isTrue tiny =>
      have short : u.length ≤ maxBlock := by
        simp only [maxBlock]
        omega
      rw [rawBlocks, Grammar.pieces_of_short short]
      exact complete_raw (reaches_sizedHeader tiny) short (.inr (by simp))
  case isFalse => exact complete_rawBlocks reaches_windowHeader

theorem reaches_chunks (chunks : List (List UInt8)) :
    rawGrammar.Reaches (windowHeader ++ chunks.flatMap (rawBlocks false))
      (.block none) chunks.flatten := by
  induction chunks using List.reverseRecOn with
  | nil =>
      rw [List.flatMap_nil, List.append_nil]
      exact reaches_windowHeader
  | append_singleton chunks chunk ih =>
      have step := reaches_rawBlocks (u := chunk) ih
      simpa only [List.flatMap_append, List.flatMap_singleton,
        List.flatten_append,
        List.flatten_singleton, ← List.append_assoc] using step

theorem length_rawBlocks_le (last : Bool) (u : List UInt8) :
    u.length + 3 ≤ (rawBlocks last u).length ∧
      (rawBlocks last u).length ≤ u.length + 3 * (u.length / maxBlock + 1) :=
  Grammar.length_pieces_le length_raw u

/-- How zstd frames a stream that it does not compress. -/
def rawFraming : Framing rawGrammar.wire where
  whole := frame
  opening := windowHeader
  block := rawBlocks false
  closing _ pending := rawBlocks true pending
  closing_ne_nil := by
    intro _ pending blank
    have short := congrArg List.length blank
    have long := (length_rawBlocks_le true pending).1
    simp only [List.length_nil] at short
    omega
  whole_complete := complete_frame
  synced chunks := (reaches_chunks chunks).content_eq
  complete chunks pending := complete_rawBlocks (reaches_chunks chunks)

/-- `ZSTD_COMPRESSBOUND`. -/
def frameBound (n : Nat) : Nat :=
  n + n / 256 + if n < maxBlock then (maxBlock - n) / 2048 else 0

theorem length_frame_le (u : List UInt8) :
    (frame u).length ≤ frameBound u.length := by
  have blocks := (length_rawBlocks_le true u).2
  have header : (if u.length < 256 then sizedHeader u.length
      else windowHeader).length = 6 := by
    split <;> rfl
  simp only [maxBlock] at blocks
  rw [frame, List.length_append, header]
  rcases Nat.lt_or_ge u.length maxBlock with short | long
  · rw [frameBound, if_pos short]
    simp only [maxBlock] at short ⊢
    omega
  · rw [frameBound, if_neg (Nat.not_lt.mpr long)]
    simp only [maxBlock] at long
    omega

end Polliwog
