/-!
# Texts

What is used of characters and texts everywhere: classes of characters, the parts of a text, and its
lines.
-/

namespace ProtoDecl.Text

/-! ## Characters -/

/-- Whether a code point lies in one of some ranges, which include both ends. -/
def inRanges (ranges : List (Nat × Nat)) (n : Nat) : Bool :=
  ranges.any fun range => range.1 ≤ n && n ≤ range.2

/-- Whether a character has the Unicode property White_Space.  Such characters separate tokens and
mean nothing themselves. -/
def isBlank (c : Char) : Bool :=
  let n := c.toNat
  (0x09 ≤ n && n ≤ 0x0D) || n == 0x20 || n == 0x85 || n == 0xA0 || n == 0x1680
    || (0x2000 ≤ n && n ≤ 0x200A) || n == 0x2028 || n == 0x2029 || n == 0x202F || n == 0x205F
    || n == 0x3000

/-! ## Parts -/

/-- What follows `start` in a text that begins with it. -/
def dropStart? (start text : List Char) : Option (List Char) :=
  if start.isPrefixOf text then some (text.drop start.length) else none

/-- What precedes `ending` in a text that ends with it. -/
def dropEnd? (ending text : List Char) : Option (List Char) :=
  if ending.isSuffixOf text then some (text.take (text.length - ending.length)) else none

/-- What follows the last character of a text that satisfies `p`; the whole text if none does. -/
def afterLast (p : Char → Bool) (text : List Char) : List Char :=
  (text.reverse.takeWhile fun c => !p c).reverse

/-- The parts of a text between the places where `separator` stands. -/
def segments (separator : Char) : List Char → List (List Char)
  | [] => [[]]
  | c :: rest =>
    if c = separator then [] :: segments separator rest
    else
      match segments separator rest with
      | [] => [[c]]
      | part :: others => (c :: part) :: others

/-! ## Lines -/

/-- The lines of a text, without their endings.  A line ends with a line feed, and a carriage return
just before it belongs to the ending.  A line ending at the end of a text starts no further line. -/
def lines : List Char → List (List Char)
  | [] => []
  | '\r' :: '\n' :: rest => [] :: lines rest
  | c :: rest =>
    if c = '\n' then [] :: lines rest
    else
      match lines rest with
      | [] => [[c]]
      | line :: others => (c :: line) :: others

end ProtoDecl.Text
