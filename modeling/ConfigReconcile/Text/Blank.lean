/-!
# White space, controls and line breaks

* `isWhiteSpace`     the Unicode property `White_Space`;
* `isBlankText`      a text of nothing else;
* `isControl`        the general category `Cc`;
* `isUnicodeBreak`   the line breaks beyond line feed and carriage return.
-/

namespace ConfigReconcile.Text

/-- the Unicode property `White_Space` -/
def isWhiteSpace (c : Char) : Bool :=
  let n := c.toNat
  (0x9 ≤ n && n ≤ 0xD) || n == 0x20 || n == 0x85 || n == 0xA0 || n == 0x1680 ||
  (0x2000 ≤ n && n ≤ 0x200A) || n == 0x2028 || n == 0x2029 || n == 0x202F || n == 0x205F ||
  n == 0x3000

/-- a text with nothing but white space -/
def isBlankText (s : String) : Bool := s.toList.all isWhiteSpace

/-- a control character: `U+0000` to `U+001F` and `U+007F` to `U+009F` -/
def isControl (c : Char) : Bool := c.toNat < 0x20 || (0x7F ≤ c.toNat && c.toNat ≤ 0x9F)

/-- next line, line separator and paragraph separator -/
def isUnicodeBreak (c : Char) : Bool :=
  c == '\u0085' || c == '\u2028' || c == '\u2029'

end ConfigReconcile.Text
