import Woody.Base.Text

/-!
# The character classes of `http_parser`

The tables and macros that `http_parser.c` uses on requests, in strict mode.
-/

namespace Woody

/-- The byte of a character literal. -/
def octet (char : Char) : UInt8 := UInt8.ofNat char.toNat

def CR : UInt8 := octet '\r'
def LF : UInt8 := octet '\n'

/-- `LOWER(c)`. -/
def lower (c : UInt8) : UInt8 := c ||| 0x20

def isAlpha (c : UInt8) : Bool :=
  lower c ≥ octet 'a' && lower c ≤ octet 'z'

def isNum (c : UInt8) : Bool := c ≥ octet '0' && c ≤ octet '9'

def isAlphanum (c : UInt8) : Bool := isAlpha c || isNum c

def isMark (c : UInt8) : Bool := (ascii "-_.!~*'()").contains c

def isUserinfoChar (c : UInt8) : Bool :=
  isAlphanum c || isMark c || (ascii "%;:&=+$,").contains c

/-- `tokens`: zero for what is no token character, else the character in
lower case. -/
def HttpParser.tokens : Bytes :=
  List.replicate 32 0 ++
    [0, octet '!', 0, octet '#', octet '$', octet '%', octet '&', octet '\'',
      0, 0, octet '*', octet '+', 0, octet '-', octet '.', 0] ++
    ascii "0123456789" ++ [0, 0, 0, 0, 0, 0] ++
    [0] ++ ascii "abcdefghijklmnopqrstuvwxyz" ++
    [0, 0, 0, octet '^', octet '_'] ++
    ascii "`abcdefghijklmnopqrstuvwxyz" ++
    [0, octet '|', 0, octet '~', 0]

/-- `TOKEN(c)`; the upper half of the table is zero. -/
def token (c : UInt8) : UInt8 := HttpParser.tokens.getD c.toNat 0

/-- `unhex`, `none` for -1.  The table is written out for the lower half only,
so the compiler fills the upper half with zeros. -/
def unhex (c : UInt8) : Option UInt8 :=
  if isNum c then some (c - octet '0')
  else if lower c ≥ octet 'a' && lower c ≤ octet 'f' then
    some (lower c - octet 'a' + 10)
  else if c ≥ 128 then some 0
  else none

/-- `normal_url_char`: one bit for each character. -/
def normalUrlChar : Bytes :=
  [0, 0, 0, 0, 2 ||| 4 ||| 16 ||| 32 ||| 64 ||| 128, 255, 255, 127,
    255, 255, 255, 255, 255, 255, 255, 127]

/-- `IS_URL_CHAR(c)`. -/
def isUrlChar (c : UInt8) : Bool :=
  (normalUrlChar.getD (c.toNat / 8) 0 >>> (c &&& 7)) &&& 1 = 1

end Woody
