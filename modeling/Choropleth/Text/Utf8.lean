/-!
# Texts as bytes

* `Text.bytes`: the bytes of a text in UTF-8;
* `Text.ofBytes`: the text of bytes. A sequence that is broken off, and a byte that cannot begin a
  sequence, becomes the replacement character.
-/

namespace Choropleth
namespace Text

/-- The bytes of a text in UTF-8. -/
def bytes (s : String) : List UInt8 := s.toUTF8.toList

/-- The character in the place of bytes that are not UTF-8. -/
def replacement : Char := '\uFFFD'

/-- The first byte of a sequence, as the number of bytes that follow it, the bits that it
contributes, and the bounds of the second byte. -/
def leadByte? (b : Nat) : Option (Nat × Nat × Nat × Nat) :=
  if 0xC2 ≤ b ∧ b ≤ 0xDF then some (1, b - 0xC0, 0x80, 0xBF)
  else if b = 0xE0 then some (2, 0, 0xA0, 0xBF)
  else if b = 0xED then some (2, 0xD, 0x80, 0x9F)
  else if 0xE1 ≤ b ∧ b ≤ 0xEF then some (2, b - 0xE0, 0x80, 0xBF)
  else if b = 0xF0 then some (3, 0, 0x90, 0xBF)
  else if 0xF1 ≤ b ∧ b ≤ 0xF3 then some (3, b - 0xF0, 0x80, 0xBF)
  else if b = 0xF4 then some (3, 4, 0x80, 0x8F)
  else none

/-- Takes the bytes that follow the first one, of which the next lies between two bounds; the
replacement character if one is missing. -/
def followBytes : Nat → Nat → Nat → Nat → List UInt8 → Char × List UInt8
  | 0, value, _, _, r => (Char.ofNat value, r)
  | _ + 1, _, _, _, [] => (replacement, [])
  | n + 1, value, low, high, b :: r =>
    if low ≤ b.toNat ∧ b.toNat ≤ high then
      followBytes n (64 * value + (b.toNat - 0x80)) 0x80 0xBF r
    else (replacement, b :: r)

/-- The first character of bytes whose first one is given, and what follows it. -/
def firstChar (b : UInt8) (r : List UInt8) : Char × List UInt8 :=
  if b.toNat < 0x80 then (Char.ofNat b.toNat, r)
  else
    match leadByte? b.toNat with
    | none => (replacement, r)
    | some (n, value, low, high) => followBytes n value low high r

theorem length_followBytes (n value low high : Nat) (r : List UInt8) :
    (followBytes n value low high r).2.length ≤ r.length := by
  induction n generalizing value low high r with
  | zero => exact Nat.le_refl _
  | succ n ih =>
    cases r with
    | nil => exact Nat.le_refl _
    | cons b r =>
      unfold followBytes
      split
      · exact Nat.le_succ_of_le (ih ..)
      · exact Nat.le_refl _

theorem length_firstChar (b : UInt8) (r : List UInt8) :
    (firstChar b r).2.length ≤ r.length := by
  unfold firstChar
  split
  · exact Nat.le_refl _
  · split
    · exact Nat.le_refl _
    · exact length_followBytes ..

/-- The characters of bytes. -/
def charsOfBytes : List UInt8 → List Char
  | [] => []
  | b :: r => (firstChar b r).1 :: charsOfBytes (firstChar b r).2
termination_by bs => bs.length
decreasing_by exact Nat.lt_succ_of_le (length_firstChar b r)

/-- The text of bytes. -/
def ofBytes (bs : List UInt8) : String := String.ofList (charsOfBytes bs)

end Text
end Choropleth
