import RecordWire.Number.Power

/-!
Binary floating-point words. The magnitude of a number in a format is a natural number of units,
the unit being the least positive number of the format, and a word is such a magnitude without its
sign: `fraction` bits below an exponent field. Rounding takes a quotient in units to the nearest
word, a tie to the even one.
-/

namespace RecordWire

/-- The nearest natural number to a quotient; a tie goes to the even neighbour. -/
def roundHalfEven (num den : Nat) : Nat :=
  let q := num / den
  let r := num % den
  if den < 2 * r ∨ (den = 2 * r ∧ q % 2 = 1) then q + 1 else q

/-- A binary floating-point format. -/
structure BinaryFormat where
  fraction : Nat
  exponent : Nat

namespace BinaryFormat

def binary32 : BinaryFormat := ⟨23, 8⟩
def binary64 : BinaryFormat := ⟨52, 11⟩

def infinity (f : BinaryFormat) : Nat := (2 ^ f.exponent - 1) * 2 ^ f.fraction

def unitBits (f : BinaryFormat) : Nat := 2 ^ (f.exponent - 1) + f.fraction - 2

/-- The magnitude of a word in units. Words follow each other as their magnitudes do. -/
def units (f : BinaryFormat) (word : Nat) : Nat :=
  if word < 2 ^ f.fraction then word
  else (2 ^ f.fraction + word % 2 ^ f.fraction) * 2 ^ (word / 2 ^ f.fraction - 1)

/-- The word nearest to a quotient of units, a tie going to the even word; infinity if the quotient
rounds beyond the largest finite word. -/
def nearest (f : BinaryFormat) (num den : Nat) : Nat :=
  let shift := (num / den).log2 - f.fraction
  min (f.infinity) (shift * 2 ^ f.fraction + roundHalfEven num (den * 2 ^ shift))

end BinaryFormat

end RecordWire
