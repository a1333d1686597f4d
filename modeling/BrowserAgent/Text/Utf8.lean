/-!
# Text as bytes

A text counts its UTF-8 bytes. Cutting to a number of bytes never splits a character. Bytes
that are no text are read with one replacement character for each longest start of a character
that does not go on, so every sequence of bytes reads as some text.
-/

namespace BrowserAgent.Text

/-- The longest start of the list that takes at most so many bytes. -/
def takeBytes : Nat → List Char → List Char
  | _, [] => []
  | limit, c :: cs =>
    if c.utf8Size ≤ limit then c :: takeBytes (limit - c.utf8Size) cs else []

def cutBytes (limit : Nat) (s : String) : String := String.ofList (takeBytes limit s.toList)

/-- What stands for bytes that are no character. -/
def replacement : Char := '\uFFFD'

/-- A byte that can only follow another one in a character. -/
def isTail (b : UInt8) : Bool := 0x80 ≤ b && b ≤ 0xBF

/-- The second bytes that a first byte of three or four admits: neither a longer spelling than
needed, nor a surrogate, nor a number beyond the last character. -/
def isSecond (first b : UInt8) : Bool :=
  if first == 0xE0 then 0xA0 ≤ b && b ≤ 0xBF
  else if first == 0xED then 0x80 ≤ b && b ≤ 0x9F
  else if first == 0xF0 then 0x90 ≤ b && b ≤ 0xBF
  else if first == 0xF4 then 0x80 ≤ b && b ≤ 0x8F
  else isTail b

/-- The low six bits of a following byte. -/
def tailBits (b : UInt8) : Nat := b.toNat % 64

/-- The text that the bytes spell, with `replacement` where they spell none. -/
def readLossy : List UInt8 → List Char
  | [] => []
  | b :: bs =>
    if b < 0x80 then Char.ofNat b.toNat :: readLossy bs
    else if 0xC2 ≤ b && b ≤ 0xDF then
      match bs with
      | [] => [replacement]
      | b₁ :: bs₁ =>
        if isTail b₁ then Char.ofNat (b.toNat % 32 * 64 + tailBits b₁) :: readLossy bs₁
        else replacement :: readLossy (b₁ :: bs₁)
    else if 0xE0 ≤ b && b ≤ 0xEF then
      match bs with
      | [] => [replacement]
      | b₁ :: bs₁ =>
        if isSecond b b₁ then
          match bs₁ with
          | [] => [replacement]
          | b₂ :: bs₂ =>
            if isTail b₂ then
              Char.ofNat ((b.toNat % 16 * 64 + tailBits b₁) * 64 + tailBits b₂) :: readLossy bs₂
            else replacement :: readLossy (b₂ :: bs₂)
        else replacement :: readLossy (b₁ :: bs₁)
    else if 0xF0 ≤ b && b ≤ 0xF4 then
      match bs with
      | [] => [replacement]
      | b₁ :: bs₁ =>
        if isSecond b b₁ then
          match bs₁ with
          | [] => [replacement]
          | b₂ :: bs₂ =>
            if isTail b₂ then
              match bs₂ with
              | [] => [replacement]
              | b₃ :: bs₃ =>
                if isTail b₃ then
                  Char.ofNat (((b.toNat % 8 * 64 + tailBits b₁) * 64 + tailBits b₂) * 64 +
                    tailBits b₃) :: readLossy bs₃
                else replacement :: readLossy (b₃ :: bs₃)
            else replacement :: readLossy (b₂ :: bs₂)
        else replacement :: readLossy (b₁ :: bs₁)
    else replacement :: readLossy bs

/-- The text of the bytes, if they are the UTF-8 of one. -/
def ofBytes? (bytes : List UInt8) : Option String := String.fromUTF8? ⟨bytes.toArray⟩

def toBytes (s : String) : List UInt8 := s.toUTF8.toList

def ofBytesLossy (bytes : List UInt8) : String := String.ofList (readLossy bytes)

end BrowserAgent.Text
