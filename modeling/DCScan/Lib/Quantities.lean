import DCScan.Lib.Decimal

/-!
Texts of quantities: numbers with the names of their units, and blanks between them.
-/

namespace DCScan.Lib

def blank : UInt8 := 32

/-- A number, and the name of its unit. -/
def quantity (name : List UInt8) (n : Nat) : List UInt8 := decimal n ++ name

section

variable (unitOf : List UInt8 → Nat)

/-- What a quantity stands for, by what a unit with this name is worth. -/
def valueOf (piece : List UInt8) : Nat :=
  numeral (piece.takeWhile isDigit) * unitOf (piece.dropWhile isDigit)

/-- What the quantities of a text make together. -/
def totalOf (text : List UInt8) : Nat := ((text.splitOn blank).map (valueOf unitOf)).sum

variable {name : List UInt8}

/-- The name of a unit begins with no digit, and has no blank in it. -/
structure IsName (name : List UInt8) : Prop where
  begins : name.takeWhile isDigit = []
  whole : blank ∉ name

theorem valueOf_quantity (named : IsName name) (n : Nat) :
    valueOf unitOf (quantity name n) = n * unitOf name := by
  have digits := isDigit_padded (Nat.log 10 n + 1) n
  have behind : name.dropWhile isDigit = name := by
    have split := List.takeWhile_append_dropWhile (p := isDigit) (l := name)
    rwa [named.begins, List.nil_append] at split
  rw [valueOf, quantity, decimal, List.takeWhile_append_of_pos digits,
    List.dropWhile_append_of_pos digits, named.begins, List.append_nil, behind, ← decimal,
    numeral_decimal]

theorem blank_not_mem_quantity (named : IsName name) (n : Nat) : blank ∉ quantity name n := by
  rw [quantity, List.mem_append]
  rintro (number | inside)
  · cases isDigit_padded _ n blank number
  · exact named.whole inside

theorem totalOf_nil : totalOf unitOf [] = 0 := by
  rw [totalOf, List.splitOn_nil]
  exact Nat.zero_mul _

/-- A quantity alone. -/
theorem totalOf_quantity (named : IsName name) (n : Nat) :
    totalOf unitOf (quantity name n) = n * unitOf name := by
  rw [totalOf, List.splitOn_eq_singleton (blank_not_mem_quantity named n), List.map_singleton,
    List.sum_singleton, valueOf_quantity unitOf named]

/-- A quantity in front of others. -/
theorem totalOf_quantity_append (named : IsName name) (n : Nat) (rest : List UInt8) :
    totalOf unitOf (quantity name n ++ blank :: rest) = n * unitOf name + totalOf unitOf rest := by
  rw [totalOf, List.splitOn_append_cons_self_of_not_mem (blank_not_mem_quantity named n),
    List.map_cons, List.sum_cons, valueOf_quantity unitOf named, ← totalOf]

end

end DCScan.Lib
