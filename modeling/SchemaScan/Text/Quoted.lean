import SchemaScan.Text.DisplayRanges

/-! # Quoted and escaped text

Messages quote the characters and texts that they speak about. Inside the quotes stand the
characters that show; line breaks, quotes and backslashes are written with a backslash, and every
other character that does not show is written by its code point.
-/
namespace SchemaScan.Quoted

/-- The character leaves no mark of its own on a page. -/
def isHidden (c : Char) : Bool :=
  c.toNat < 0x20 || c.toNat = 0x7F || (0x80 ≤ c.toNat && hiddenRanges.contains c)

/-- The character attaches to the one before it. -/
def isExtending (c : Char) : Bool := 0x80 ≤ c.toNat && extendingRanges.contains c

/-- A character by its code point, in lower-case hexadecimal digits. -/
def codePoint (c : Char) : List Char :=
  ['\\', 'u', '{'] ++ Nat.toDigits 16 c.toNat ++ ['}']

/-- The written form of a character. The characters of `quotes` get a backslash, and
`extending` tells whether a character that attaches to its neighbour is written by its code
point. -/
def escape (quotes : List Char) (extending : Bool) (c : Char) : List Char :=
  match c with
  | '\x00' => ['\\', '0']
  | '\t' => ['\\', 't']
  | '\r' => ['\\', 'r']
  | '\n' => ['\\', 'n']
  | '\\' => ['\\', '\\']
  | c =>
    if quotes.contains c then ['\\', c]
    else if isHidden c || (extending && isExtending c) then codePoint c
    else [c]

/-- A character in single quotes. -/
def ofChar (c : Char) : String := String.ofList (['\''] ++ escape ['\''] true c ++ ['\''])

/-- A text in double quotes. -/
def ofString (s : String) : String :=
  String.ofList (['"'] ++ s.toList.flatMap (escape ['"'] true) ++ ['"'])

/-- A text on one line without quotes around it. Both quotes are escaped, and a character that
attaches to its neighbour is written by its code point only where it has none, at the start. -/
def bare (s : String) : String :=
  match s.toList with
  | [] => ""
  | c :: rest =>
    String.ofList (escape ['"', '\''] true c ++ rest.flatMap (escape ['"', '\''] false))

end SchemaScan.Quoted
