/-!
# UTF-8

Decoding of bytes.  `decode` turns each well-formed sequence into its character and each maximal
ill-formed part into a gap; `decode?` accepts only text without gaps, `decodeLossy` fills every gap
with U+FFFD.
-/

namespace Enabledness.Text.Utf8

/-- What the first byte of a sequence asks of the bytes after it: nothing, or a range for the
second byte and the number of further continuation bytes. -/
inductive Lead where
  /-- A character of one byte. -/
  | single
  /-- A second byte from `lo` to `hi`, then `more` continuation bytes; the first byte adds `high`. -/
  | multi (high lo hi more : Nat)
  /-- No sequence starts with this byte. -/
  | none

/-- Classify a first byte. -/
def lead (b : Nat) : Lead :=
  if b < 0x80 then .single
  else if b < 0xC2 then .none
  else if b < 0xE0 then .multi (b - 0xC0) 0x80 0xBF 0
  else if b = 0xE0 then .multi 0 0xA0 0xBF 1
  else if b = 0xED then .multi 0xD 0x80 0x9F 1
  else if b < 0xF0 then .multi (b - 0xE0) 0x80 0xBF 1
  else if b = 0xF0 then .multi 0 0x90 0xBF 2
  else if b < 0xF4 then .multi (b - 0xF0) 0x80 0xBF 2
  else if b = 0xF4 then .multi 4 0x80 0x8F 2
  else .none

/-- Continue a sequence: `more` continuation bytes are still due and `value` holds the bits read so
far.  The result is the character, or nothing if the sequence breaks off, and the bytes after it. -/
def continuation : Nat → Nat → List UInt8 → Option Char × List UInt8
  | 0, value, bytes => (some (Char.ofNat value), bytes)
  | _ + 1, _, [] => (none, [])
  | more + 1, value, b :: rest =>
    if 0x80 ≤ b.toNat ∧ b.toNat ≤ 0xBF then
      continuation more (value * 64 + (b.toNat - 0x80)) rest
    else (none, b :: rest)

/-- Reading a sequence never adds bytes. -/
theorem length_continuation (more value : Nat) (bytes : List UInt8) :
    (continuation more value bytes).2.length ≤ bytes.length := by
  induction more generalizing value bytes with
  | zero => simp [continuation]
  | succ more ih =>
    cases bytes with
    | nil => simp [continuation]
    | cons b rest =>
      rw [continuation]
      split
      · exact Nat.le_trans (ih ..) (by simp)
      · simp

/-- Read the sequence that starts with byte `b`. -/
def sequence (b : UInt8) (rest : List UInt8) : Option Char × List UInt8 :=
  match lead b.toNat with
  | .single => (some (Char.ofNat b.toNat), rest)
  | .none => (none, rest)
  | .multi high lo hi more =>
    match rest with
    | [] => (none, [])
    | c :: rest' =>
      if lo ≤ c.toNat ∧ c.toNat ≤ hi then
        continuation more (high * 64 + (c.toNat - 0x80)) rest'
      else (none, rest)

theorem length_sequence (b : UInt8) (rest : List UInt8) :
    (sequence b rest).2.length ≤ rest.length := by
  rw [sequence]
  split
  · simp
  · simp
  · split
    · simp
    · split
      · exact Nat.le_trans (length_continuation ..) (by simp)
      · simp

/-- Decode bytes; `none` stands for one maximal ill-formed part. -/
def decode : List UInt8 → List (Option Char)
  | [] => []
  | b :: rest =>
    (sequence b rest).1 :: decode (sequence b rest).2
termination_by bytes => bytes.length
decreasing_by exact Nat.lt_succ_of_le (length_sequence b rest)

/-- The text of well-formed bytes. -/
def decode? (bytes : List UInt8) : Option String :=
  ((decode bytes).mapM id).map String.ofList

/-- The text of bytes, with U+FFFD for each ill-formed part. -/
def decodeLossy (bytes : List UInt8) : String :=
  String.ofList ((decode bytes).map fun c => c.getD (Char.ofNat 0xFFFD))

end Enabledness.Text.Utf8
