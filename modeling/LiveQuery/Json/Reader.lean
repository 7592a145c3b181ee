import LiveQuery.Json.Text

/-!
# Reading JSON text

The grammar is the standard one. A numeral without fraction and exponent that fits 64 bits, signed
or unsigned, is a whole number; every other numeral, and `-0`, is the nearest double, and one beyond
all doubles is refused. Of several members with one name the last counts.
-/

namespace LiveQuery

namespace Json.Reader

def isBlank (c : Char) : Bool := c = ' ' || c = '\t' || c = '\n' || c = '\r'

def skipBlank (cs : List Char) : List Char := cs.dropWhile isBlank

def ofDigits (ds : List Char) : Nat := ds.foldl (fun n c => 10 * n + (c.toNat - '0'.toNat)) 0

/-- The numeral's number: its sign, the digits before and after the point, and its exponent. -/
def numeral? (negative : Bool) (whole fraction : List Char) (exponent : Option Int) :
    Option Number :=
  let n := ofDigits whole
  let asDouble : Option Number :=
    let x := Binary64.ofDecimal negative (ofDigits (whole ++ fraction))
      (exponent.getD 0 - fraction.length)
    if x.rank < Binary64.infinityRank then some (.float x) else none
  if fraction.isEmpty && exponent.isNone then
    if negative then
      if 0 < n ∧ n ≤ 0x8000000000000000 then some (.int (-(n : Int))) else asDouble
    else if n < 0x10000000000000000 then some (.int n) else asDouble
  else asDouble

def readNumber? (cs : List Char) : Option (Number × List Char) := do
  let (negative, cs) := match cs with
    | '-' :: rest => (true, rest)
    | cs => (false, cs)
  let whole := cs.takeWhile Char.isDigit
  let cs := cs.dropWhile Char.isDigit
  guard (!whole.isEmpty && (whole.length == 1 || whole.head? != some '0'))
  let (fraction, cs) ← match cs with
    | '.' :: rest =>
      let fraction := rest.takeWhile Char.isDigit
      if fraction.isEmpty then none else some (fraction, rest.dropWhile Char.isDigit)
    | cs => some ([], cs)
  let (exponent, cs) ← match cs with
    | c :: rest =>
      if c = 'e' ∨ c = 'E' then
        let (minus, rest) := match rest with
          | '-' :: rest => (true, rest)
          | '+' :: rest => (false, rest)
          | rest => (false, rest)
        let ds := rest.takeWhile Char.isDigit
        let e : Int := if minus then -(ofDigits ds : Int) else ofDigits ds
        if ds.isEmpty then none else some (some e, rest.dropWhile Char.isDigit)
      else some (none, c :: rest)
    | [] => some (none, [])
  let n ← numeral? negative whole fraction exponent
  return (n, cs)

def hexDigit? (c : Char) : Option Nat :=
  if c.isDigit then some (c.toNat - '0'.toNat)
  else if 'a' ≤ c ∧ c ≤ 'f' then some (c.toNat - 'a'.toNat + 10)
  else if 'A' ≤ c ∧ c ≤ 'F' then some (c.toNat - 'A'.toNat + 10)
  else none

def hex4? (a b c d : Char) : Option Nat := do
  let a ← hexDigit? a
  let b ← hexDigit? b
  let c ← hexDigit? c
  let d ← hexDigit? d
  return ((a * 16 + b) * 16 + c) * 16 + d

def shortEscape? : Char → Option Char
  | '"' => some '"'
  | '\\' => some '\\'
  | '/' => some '/'
  | 'b' => some '\x08'
  | 'f' => some '\x0c'
  | 'n' => some '\n'
  | 'r' => some '\r'
  | 't' => some '\t'
  | _ => none

/-- The rest of a string after its opening quote; `done` holds the characters so far, last first.
A character beyond the first plane is escaped as a pair of surrogates. -/
def readString? : List Char → (done : List Char) → Option (String × List Char)
  | [], _ => none
  | '"' :: rest, done => some (String.ofList done.reverse, rest)
  | '\\' :: 'u' :: a :: b :: c :: d :: rest, done =>
    match hex4? a b c d with
    | none => none
    | some u =>
      if 0xD800 ≤ u ∧ u < 0xDC00 then
        match rest with
        | '\\' :: 'u' :: a :: b :: c :: d :: rest =>
          match hex4? a b c d with
          | none => none
          | some l =>
            if 0xDC00 ≤ l ∧ l < 0xE000 then
              readString? rest (Char.ofNat (0x10000 + (u - 0xD800) * 0x400 + (l - 0xDC00)) :: done)
            else none
        | _ => none
      else if 0xDC00 ≤ u ∧ u < 0xE000 then none
      else readString? rest (Char.ofNat u :: done)
  | '\\' :: c :: rest, done =>
    match shortEscape? c with
    | none => none
    | some c => readString? rest (c :: done)
  | c :: rest, done => if c.toNat < 0x20 then none else readString? rest (c :: done)

mutual

/-- A value at the head of the text; `fuel` bounds the number of nested and following values. -/
def readValue? : (fuel : Nat) → List Char → Option (Json × List Char)
  | 0, _ => none
  | fuel + 1, cs =>
    match skipBlank cs with
    | 'n' :: 'u' :: 'l' :: 'l' :: rest => some (.null, rest)
    | 't' :: 'r' :: 'u' :: 'e' :: rest => some (.bool true, rest)
    | 'f' :: 'a' :: 'l' :: 's' :: 'e' :: rest => some (.bool false, rest)
    | '"' :: rest => (readString? rest []).map fun (s, rest) => (.string s, rest)
    | '[' :: rest =>
      match skipBlank rest with
      | ']' :: rest => some (.array [], rest)
      | rest => (readItems? fuel rest []).map fun (items, rest) => (.array items, rest)
    | '{' :: rest =>
      match skipBlank rest with
      | '}' :: rest => some (.object [], rest)
      | rest => (readMembers? fuel rest []).map fun (members, rest) => (.object members, rest)
    | cs => (readNumber? cs).map fun (n, rest) => (.number n, rest)

def readItems? : (fuel : Nat) → List Char → (done : List Json) → Option (List Json × List Char)
  | 0, _, _ => none
  | fuel + 1, cs, done =>
    match readValue? fuel cs with
    | none => none
    | some (v, rest) =>
      match skipBlank rest with
      | ',' :: rest => readItems? fuel rest (v :: done)
      | ']' :: rest => some ((v :: done).reverse, rest)
      | _ => none

def readMembers? : (fuel : Nat) → List Char → (done : Fields) → Option (Fields × List Char)
  | 0, _, _ => none
  | fuel + 1, cs, done =>
    match skipBlank cs with
    | '"' :: rest =>
      match readString? rest [] with
      | none => none
      | some (key, rest) =>
        match skipBlank rest with
        | ':' :: rest =>
          match readValue? fuel rest with
          | none => none
          | some (v, rest) =>
            match skipBlank rest with
            | ',' :: rest => readMembers? fuel rest (Fields.insert done key v)
            | '}' :: rest => some (Fields.insert done key v, rest)
            | _ => none
        | _ => none
    | _ => none

end

end Json.Reader

def Json.parse? (s : String) : Option Json :=
  let cs := s.toList
  match Reader.readValue? (2 * cs.length + 2) cs with
  | some (v, rest) => if (Reader.skipBlank rest).isEmpty then some v else none
  | none => none

end LiveQuery
