/-!
# Texts as bytes

Names and paths are texts; files, indices and requests are bytes. `encode` and `decode` go between
the two by UTF-8, strictly: `decode` refuses overlong forms, surrogates and truncated characters.
`decodeLossy` never refuses and shows U+FFFD for each ill-formed stretch; it is only for display.
-/
namespace OnDemandFs

abbrev Bytes := List UInt8

namespace Utf8

def encode (s : String) : Bytes := s.toByteArray.data.toList

def decode (bs : Bytes) : Option String := String.fromUTF8? ⟨bs.toArray⟩

theorem decode_encode (s : String) : decode (encode s) = some s := by
  have h : (⟨s.toByteArray.data.toList.toArray⟩ : ByteArray) = s.toByteArray := by simp
  simp only [decode, encode, h, String.fromUTF8?, s.isValidUTF8, dite_true]
  rfl

theorem encode_of_decode {bs : Bytes} {s : String} (h : decode bs = some s) : encode s = bs := by
  unfold decode String.fromUTF8? at h
  split at h
  · cases h; rfl
  · cases h

theorem encode_injective {s t : String} (h : encode s = encode t) : s = t :=
  Option.some.inj (by rw [← decode_encode s, ← decode_encode t, h])

/-- The range the second byte of a character must lie in, by its first byte, and how many bytes
follow the first; `none` when no character starts so. -/
def lead (b : UInt8) : Option (Nat × UInt8 × UInt8) :=
  if 0xC2 ≤ b && b ≤ 0xDF then some (1, 0x80, 0xBF)
  else if b == 0xE0 then some (2, 0xA0, 0xBF)
  else if b == 0xED then some (2, 0x80, 0x9F)
  else if 0xE1 ≤ b && b ≤ 0xEF then some (2, 0x80, 0xBF)
  else if b == 0xF0 then some (3, 0x90, 0xBF)
  else if 0xF1 ≤ b && b ≤ 0xF3 then some (3, 0x80, 0xBF)
  else if b == 0xF4 then some (3, 0x80, 0x8F)
  else none

/-- How many of the next `n` bytes continue a character, the first of them within `lo..hi`. -/
def tailLength : Nat → UInt8 → UInt8 → Bytes → Nat
  | 0, _, _, _ => 0
  | _, _, _, [] => 0
  | n + 1, lo, hi, b :: bs => if lo ≤ b && b ≤ hi then 1 + tailLength n 0x80 0xBF bs else 0

/-- The length of the first character or ill-formed stretch, and whether it is a character. -/
def stretch : Bytes → Nat × Bool
  | [] => (0, false)
  | b :: bs =>
    if b < 0x80 then (1, true)
    else match lead b with
      | none => (1, false)
      | some (n, lo, hi) =>
        let k := tailLength n lo hi bs
        (1 + k, k == n)

/-- Each maximal ill-formed stretch becomes one U+FFFD. The fuel is the number of bytes. -/
def decodeLossyFrom : Nat → Bytes → String
  | 0, _ => ""
  | _, [] => ""
  | fuel + 1, bs =>
    let (n, whole) := stretch bs
    let shown := if whole then (decode (bs.take n)).getD "\uFFFD" else "\uFFFD"
    shown ++ decodeLossyFrom fuel (bs.drop n)

def decodeLossy (bs : Bytes) : String := decodeLossyFrom bs.length bs

end Utf8
end OnDemandFs
