import StorySuite.Text.Basic

/-!
# Characters of TypeScript

The character classes that tokens are made of.  Blanks between tokens are the Unicode space
separators, the ASCII blanks and a few invisible characters; a name may hold every character that
is neither a blank, a control character nor a mark of punctuation.  The rule for a statement that
ends without a semicolon knows the ASCII blanks only.
-/

namespace StorySuite.Grammar

def isAsciiBlank (c : Char) : Bool := c = ' ' || (9 ≤ c.toNat && c.toNat ≤ 13)

/-- The characters that may stand between two tokens. -/
def isBlank (c : Char) : Bool :=
  isAsciiBlank c ||
    (c.toNat ≥ 0x80 &&
      (c.toNat = 0x85 || c.toNat = 0xA0 || c.toNat = 0x1680 ||
        (0x2000 ≤ c.toNat && c.toNat ≤ 0x200B) || c.toNat = 0x2028 || c.toNat = 0x2029 ||
        c.toNat = 0x202F || c.toNat = 0x205F || c.toNat = 0x2060 || c.toNat = 0x3000 ||
        c.toNat = 0xFEFF))

/-- The characters that end a line comment. -/
def isLineEnd (c : Char) : Bool :=
  c = '\n' || c = '\r' || c.toNat = 0x2028 || c.toNat = 0x2029

/-- The marks that no name holds. -/
def punctuation : List Char :=
  [':', ';', '\x60', '"', '\x27', '@', '#', '.', ',', '|', '^', '&', '<', '=', '>', '+', '-', '*',
    '/', '\\', '%', '?', '!', '~', '(', ')', '[', ']', '{', '}']

/-- The characters that a name may hold after its first. -/
def isNameChar (c : Char) : Bool :=
  c.isAlphanum || c = '_' || c = '$' ||
    (c.toNat ≥ 0x20 && !isBlank c && !punctuation.contains c)

/-- The characters that a name may begin with. -/
def isNameStart (c : Char) : Bool := isNameChar c && !c.isDigit

/-- The digits of hexadecimal numbers. -/
def isHexDigit (c : Char) : Bool :=
  c.isDigit || ('a' ≤ c && c ≤ 'f') || ('A' ≤ c && c ≤ 'F')

end StorySuite.Grammar
