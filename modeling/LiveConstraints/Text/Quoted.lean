import LiveConstraints.Text.Printable
/-!
# Quoted text

Text inside messages stands in double quotes. A quote and a backslash are escaped by a backslash;
tab, newline, carriage return and the null character have a letter; any other character that would
not show as itself, because it is unprintable or joins the one before it, is written as its code
point. An apostrophe stands for itself.
-/

namespace LiveConstraints.Text

/-- The code point form of a character: lower-case hexadecimal digits, none of them padding, in
braces. -/
def codePointForm (c : Char) : List Char :=
  '\\' :: 'u' :: '\x7b' :: (Nat.toDigits 16 c.toNat ++ ['\x7d'])

/-- How one character appears inside quotes. -/
def escape (c : Char) : List Char :=
  match c with
  | '\x00' => ['\\', '0']
  | '\t' => ['\\', 't']
  | '\n' => ['\\', 'n']
  | '\r' => ['\\', 'r']
  | '"' => ['\\', '"']
  | '\\' => ['\\', '\\']
  | c => if extendsGrapheme c || !isPrintable c then codePointForm c else [c]

/-- Text in double quotes with every character escaped as needed. -/
def quote (s : String) : String :=
  String.ofList ('"' :: (s.toList.flatMap escape ++ ['"']))

/-- Removes the double quotes at both ends of a text, however many there are. -/
def trimQuotes (s : String) : String :=
  String.ofList (((s.toList.dropWhile (· = '"')).reverse.dropWhile (· = '"')).reverse)

end LiveConstraints.Text
