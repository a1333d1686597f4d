/-!
# Words

The numbers that sixty-four bits show: below `2 ^ 64`, or with a sign from `-2 ^ 63` on and below
`2 ^ 63`.
-/

namespace BrowserAgent.Number.Word

def count : Nat := Nat.pow 2 64

def least : Int := -Int.ofNat (Nat.pow 2 63)

def most : Int := Int.ofNat (Nat.pow 2 63 - 1)

/-- The number without a sign that has the same last bits. -/
def bits (n : Int) : Nat := (n % count).toNat

end BrowserAgent.Number.Word
