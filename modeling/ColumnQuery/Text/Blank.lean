/-
  White space, as the Unicode property `White_Space` has it, and trimming by it.
-/
import ColumnQuery.Text.CodePoints

namespace ColumnQuery.Text

/-- White space beyond ASCII. -/
def wideBlanks : CodePoints := [
  (0x85, 0x85), (0xa0, 0xa0), (0x1680, 0x1680), (0x2000, 0x200a), (0x2028, 0x2029),
  (0x202f, 0x202f), (0x205f, 0x205f), (0x3000, 0x3000)]

/-- A blank, tab, line feed, vertical tab, form feed, carriage return or wide white space. -/
def isBlank (c : Char) : Bool :=
  if isAscii c then c.toNat == 0x20 || (0x9 ≤ c.toNat && c.toNat ≤ 0xd) else wideBlanks.has c

/-- Removes white space at the head. -/
def trimLeft (cs : List Char) : List Char := cs.dropWhile isBlank

/-- Removes white space at the end. -/
def trimRight (cs : List Char) : List Char := (cs.reverse.dropWhile isBlank).reverse

/-- Removes white space at both ends. -/
def trim (cs : List Char) : List Char := trimRight (trimLeft cs)

end ColumnQuery.Text
