import LiveQuery.Text.Visible

/-!
# Text in quotes

The form in which a text is shown to a programmer: in quotes, with a backslash before quotes and
backslashes, short escapes for the common controls, and the number of any other character that does
not show by itself.
-/

namespace LiveQuery.Text

def quotedChar (c : Char) : List Char :=
  if c = '"' then ['\\', '"']
  else if c = '\\' then ['\\', '\\']
  else if c = '\n' then ['\\', 'n']
  else if c = '\r' then ['\\', 'r']
  else if c = '\t' then ['\\', 't']
  else if c.toNat = 0 then ['\\', '0']
  else if isVisible c then [c]
  else ['\\', 'u', '{'] ++ Nat.toDigits 16 c.toNat ++ ['}']

def quoted (s : String) : String :=
  String.ofList ('"' :: (s.toList.flatMap quotedChar ++ ['"']))

end LiveQuery.Text
