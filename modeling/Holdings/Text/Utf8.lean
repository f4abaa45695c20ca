/-!
# Bytes read as UTF-8

A byte sequence is cut into pieces: each piece is a character, or a longest run of bytes that
begin a character and do not end it (a byte that begins none is such a run by itself). Reading
strictly asks for characters only; reading leniently puts the replacement character in place
of each broken piece.
-/

namespace Holdings.Text.Utf8

/-- The promise of the first byte of a character: how many bytes follow it, the range of the
first of these, and the bits that the byte itself brings. -/
structure Lead where
  tails : Nat
  low : UInt8
  high : UInt8
  bits : Nat

/-- The first bytes of characters. The narrower ranges of the second byte keep out overlong
forms, surrogates and numbers past the last character. -/
def lead? (b : UInt8) : Option Lead :=
  if b ≤ 0x7F then some ⟨0, 0x80, 0xBF, b.toNat⟩
  else if b < 0xC2 then none
  else if b ≤ 0xDF then some ⟨1, 0x80, 0xBF, b.toNat - 0xC0⟩
  else if b = 0xE0 then some ⟨2, 0xA0, 0xBF, 0⟩
  else if b = 0xED then some ⟨2, 0x80, 0x9F, 0xD⟩
  else if b ≤ 0xEF then some ⟨2, 0x80, 0xBF, b.toNat - 0xE0⟩
  else if b = 0xF0 then some ⟨3, 0x90, 0xBF, 0⟩
  else if b ≤ 0xF3 then some ⟨3, 0x80, 0xBF, b.toNat - 0xF0⟩
  else if b = 0xF4 then some ⟨3, 0x80, 0x8F, 4⟩
  else none

/-- Reads `n` following bytes onto the bits read so far, the first of them from `low` to `high`
and the others from `80` to `BF`. The rest starts at the first byte that does not fit. -/
def follow : Nat → UInt8 → UInt8 → Nat → List UInt8 → Option Nat × List UInt8
  | 0, _, _, bits, bs => (some bits, bs)
  | _ + 1, _, _, _, [] => (none, [])
  | n + 1, low, high, bits, b :: bs =>
    if low ≤ b && b ≤ high then follow n 0x80 0xBF (bits * 64 + (b.toNat - 0x80)) bs
    else (none, b :: bs)

theorem length_follow_le (n : Nat) (low high : UInt8) (bits : Nat) (bs : List UInt8) :
    (follow n low high bits bs).2.length ≤ bs.length := by
  induction n generalizing low high bits bs with
  | zero => simp [follow]
  | succ n ih =>
    cases bs with
    | nil => simp [follow]
    | cons b bs =>
      rw [follow]
      split
      · exact Nat.le_succ_of_le (ih ..)
      · exact Nat.le_refl _

/-- The piece that starts with byte `b`, and the bytes after it. -/
def piece (b : UInt8) (bs : List UInt8) : Option Char × List UInt8 :=
  match lead? b with
  | none => (none, bs)
  | some l =>
    let (bits, rest) := follow l.tails l.low l.high l.bits bs
    (bits.map Char.ofNat, rest)

theorem length_piece_le (b : UInt8) (bs : List UInt8) :
    (piece b bs).2.length ≤ bs.length := by
  unfold piece
  split
  · exact Nat.le_refl _
  · exact length_follow_le ..

/-- The pieces of a byte sequence; `none` stands for a broken one. -/
def pieces : List UInt8 → List (Option Char)
  | [] => []
  | b :: bs => (piece b bs).1 :: pieces (piece b bs).2
termination_by bs => bs.length
decreasing_by exact Nat.lt_succ_of_le (length_piece_le b bs)

/-- All pieces, if none is broken. -/
def whole : List (Option Char) → Option (List Char)
  | [] => some []
  | none :: _ => none
  | some c :: ps => (whole ps).map (c :: ·)

/-- The text that the bytes write, if every piece of them is a character. -/
def decode? (bs : List UInt8) : Option (List Char) :=
  whole (pieces bs)

/-- The text that the bytes write, with the replacement character for each broken piece. -/
def decodeLenient (bs : List UInt8) : List Char :=
  (pieces bs).map (·.getD '\uFFFD')

/-- The bytes of a text. -/
def encode (s : List Char) : List UInt8 :=
  s.flatMap String.utf8EncodeChar

/-- The number of bytes of a text. -/
def size (s : List Char) : Nat :=
  (encode s).length

end Holdings.Text.Utf8
