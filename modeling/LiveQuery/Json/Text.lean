import LiveQuery.Json.Fields
import LiveQuery.Json.Shortest

/-!
# JSON as compact text

The text of a value has no spaces, lists the members of an object by increasing name, and escapes
in strings only the quote, the backslash and the control characters. Writing puts the text in
front of what follows, so the text of a large value is built in one pass.
-/

namespace LiveQuery

def intText (n : Int) : List Char :=
  if n < 0 then '-' :: Nat.toDigits 10 n.natAbs else Nat.toDigits 10 n.natAbs

/-- A whole number has no fraction, a double always has a fraction or an exponent. -/
def Number.text : Number → List Char
  | .int n => intText n
  | .float x => x.text

namespace Json

def hexDigit (n : Nat) : Char := Nat.digitChar (n % 16)

def escape (c : Char) : List Char :=
  if c = '"' then ['\\', '"']
  else if c = '\\' then ['\\', '\\']
  else if c = '\x08' then ['\\', 'b']
  else if c = '\x0c' then ['\\', 'f']
  else if c = '\n' then ['\\', 'n']
  else if c = '\r' then ['\\', 'r']
  else if c = '\t' then ['\\', 't']
  else if c.toNat < 0x20 then ['\\', 'u', '0', '0', hexDigit (c.toNat / 16), hexDigit c.toNat]
  else [c]

def writeString (s : String) (tail : List Char) : List Char :=
  '"' :: s.toList.foldr (fun c rest => escape c ++ rest) ('"' :: tail)

mutual

/-- The text of a value, before `tail`. -/
def write : Json → List Char → List Char
  | .null, tail => 'n' :: 'u' :: 'l' :: 'l' :: tail
  | .bool true, tail => 't' :: 'r' :: 'u' :: 'e' :: tail
  | .bool false, tail => 'f' :: 'a' :: 'l' :: 's' :: 'e' :: tail
  | .number n, tail => n.text ++ tail
  | .string s, tail => writeString s tail
  | .array [], tail => '[' :: ']' :: tail
  | .array (v :: vs), tail => '[' :: write v (writeItems vs tail)
  | .object [], tail => '{' :: '}' :: tail
  | .object ((k, v) :: ms), tail => '{' :: writeString k (':' :: write v (writeMembers ms tail))

def writeItems : List Json → List Char → List Char
  | [], tail => ']' :: tail
  | v :: vs, tail => ',' :: write v (writeItems vs tail)

def writeMembers : List (String × Json) → List Char → List Char
  | [], tail => '}' :: tail
  | (k, v) :: ms, tail => ',' :: writeString k (':' :: write v (writeMembers ms tail))

end

def text (v : Json) : String := String.ofList (v.write [])

end Json

end LiveQuery
