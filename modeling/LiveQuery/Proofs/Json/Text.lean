import LiveQuery.Json.Reader
import LiveQuery.Proofs.Json.Numerals

/-!
# The text of a value determines the value

No two values have one text (`text_inj`). The texts are not of a fixed length, so the induction
is over texts with something behind them: values whose texts begin one text are equal and leave
the same rest (`write_inj`). The first character tells what kind of value stands there
(`kind_eq_of_write`), a string ends at its first quote that is not escaped
(`readString?_writeString`), and a numeral ends where what follows cannot prolong it, which is so
behind every value: there the text ends, or a comma or a closing bracket follows (`Ends`).
-/

namespace LiveQuery.Json

open Reader

/-! ## Strings -/

section

variable {rest done : List Char}

theorem readString?_short {e c : Char} (short : shortEscape? e = some c) (other : e ≠ 'u') :
    readString? ('\\' :: e :: rest) done = readString? rest (c :: done) := by
  rw [readString?]
  · rw [short]
  · intro a b c d rest h
    exact absurd h other

theorem hex4?_control : ∀ n < 0x20,
    hex4? '0' '0' (hexDigit (n / 16)) (hexDigit n) = some n := by
  decide

theorem readString?_control {c : Char} (control : c.toNat < 0x20) :
    readString? ('\\' :: 'u' :: '0' :: '0' :: hexDigit (c.toNat / 16) :: hexDigit c.toNat :: rest)
      done = readString? rest (c :: done) := by
  rw [readString?, hex4?_control c.toNat control]
  dsimp only
  rw [if_neg (by omega), if_neg (by omega), Char.ofNat_toNat]

theorem readString?_plain {c : Char} (quote : c ≠ '"') (backslash : c ≠ '\\')
    (plain : ¬c.toNat < 0x20) : readString? (c :: rest) done = readString? rest (c :: done) := by
  rw [readString?]
  · rw [if_neg plain]
  · exact fun h => quote h
  · intro a b c d rest h
    exact absurd h backslash
  · intro c rest h
    exact absurd h backslash

theorem readString?_escape (c : Char) :
    readString? (escape c ++ rest) done = readString? rest (c :: done) := by
  unfold escape
  split
  · next h => subst h; exact readString?_short rfl (by decide)
  split
  · next h => subst h; exact readString?_short rfl (by decide)
  split
  · next h => subst h; exact readString?_short rfl (by decide)
  split
  · next h => subst h; exact readString?_short rfl (by decide)
  split
  · next h => subst h; exact readString?_short rfl (by decide)
  split
  · next h => subst h; exact readString?_short rfl (by decide)
  split
  · next h => subst h; exact readString?_short rfl (by decide)
  split
  · next h => exact readString?_control h
  · next quote backslash _ _ _ _ _ plain => exact readString?_plain quote backslash plain

theorem readString?_escaped (cs : List Char) (done tail : List Char) :
    readString? (cs.foldr (fun c rest => escape c ++ rest) ('"' :: tail)) done =
      some (String.ofList (done.reverse ++ cs), tail) := by
  induction cs generalizing done with
  | nil => rw [List.foldr_nil, readString?, List.append_nil]
  | cons c cs ih =>
    rw [List.foldr_cons, readString?_escape, ih, List.reverse_cons, List.append_assoc]
    rfl

theorem readString?_writeString (s : String) (tail : List Char) :
    ∃ body, writeString s tail = '"' :: body ∧ readString? body [] = some (s, tail) := by
  refine ⟨_, rfl, ?_⟩
  rw [readString?_escaped, List.reverse_nil, List.nil_append, String.ofList_toList]

theorem writeString_inj {s t : String} {p q : List Char}
    (heq : writeString s p = writeString t q) : s = t ∧ p = q := by
  obtain ⟨body, hs, hread⟩ := readString?_writeString s p
  obtain ⟨body', ht, hread'⟩ := readString?_writeString t q
  rw [hs, ht] at heq
  obtain rfl := (List.cons.inj heq).2
  rw [hread] at hread'
  exact Prod.mk.inj (Option.some.inj hread')

end

/-! ## Values -/

/-- The text goes on with something that is no part of a numeral. -/
def Ends (tail : List Char) : Prop := ∀ c ∈ tail.head?, isNumeral c = false

theorem ends_nil : Ends [] := fun _ h => nomatch h

theorem ends_cons {c : Char} {tail : List Char} (other : isNumeral c = false) :
    Ends (c :: tail) := fun _ h => Option.some.inj h ▸ other

theorem ends_writeItems (vs : List Json) (tail : List Char) : Ends (writeItems vs tail) := by
  cases vs with
  | nil => exact ends_cons (by decide)
  | cons v vs => exact ends_cons (by decide)

theorem ends_writeMembers (ms : List (String × Json)) (tail : List Char) :
    Ends (writeMembers ms tail) := by
  cases ms with
  | nil => exact ends_cons (by decide)
  | cons m ms => exact ends_cons (by decide)

theorem takeWhile_eq_nil_of_ends {tail : List Char} (ends : Ends tail) :
    tail.takeWhile isNumeral = [] := by
  cases tail with
  | nil => rfl
  | cons c tail => rw [List.takeWhile_cons, ends c rfl]; rfl

theorem numeral_inj {m n : Number} {p q : List Char} (hp : Ends p) (hq : Ends q)
    (heq : m.text ++ p = n.text ++ q) : m = n ∧ p = q := by
  have hread : ∀ (k : Number) (r : List Char), Ends r →
      (k.text ++ r).takeWhile isNumeral = k.text := by
    intro k r hr
    obtain ⟨c, cs, hcs, hall⟩ := k.exists_text_eq_cons
    rw [hcs, List.takeWhile_append_of_pos hall, takeWhile_eq_nil_of_ends hr, List.append_nil]
  have htext : m.text = n.text := by rw [← hread m p hp, heq, hread n q hq]
  obtain rfl := Number.text_inj htext
  exact ⟨rfl, List.append_cancel_left heq⟩

/-- The kinds of values that a first character tells apart. -/
inductive Kind where
  | null | bool | number | string | array | object
  deriving DecidableEq

def kind : Json → Kind
  | .null => .null
  | .bool _ => .bool
  | .number _ => .number
  | .string _ => .string
  | .array _ => .array
  | .object _ => .object

/-- The kind of value whose text begins with a character, if there is one. -/
def Kind.ofChar? (c : Char) : Option Kind :=
  if isNumeral c then some .number
  else match c with
    | 'n' => some .null
    | 't' => some .bool
    | 'f' => some .bool
    | '"' => some .string
    | '[' => some .array
    | '{' => some .object
    | _ => none

theorem exists_write_eq_cons (v : Json) (tail : List Char) :
    ∃ c cs, v.write tail = c :: cs ∧ Kind.ofChar? c = some v.kind := by
  cases v with
  | null => exact ⟨_, _, by rw [write], rfl⟩
  | bool b => cases b <;> exact ⟨_, _, by rw [write], rfl⟩
  | number n =>
    obtain ⟨c, cs, hcs, hall⟩ := n.exists_text_eq_cons
    refine ⟨c, cs ++ tail, by rw [write, hcs, List.cons_append], ?_⟩
    unfold Kind.ofChar?
    rw [if_pos (hall c List.mem_cons_self), kind]
  | string s => exact ⟨_, _, by rw [write, writeString], rfl⟩
  | array vs => cases vs <;> exact ⟨_, _, by rw [write], rfl⟩
  | object ms => cases ms <;> exact ⟨_, _, by rw [write], rfl⟩

theorem kind_eq_of_write {a b : Json} {p q : List Char} (heq : a.write p = b.write q) :
    a.kind = b.kind := by
  obtain ⟨c, cs, ha, hc⟩ := exists_write_eq_cons a p
  obtain ⟨d, ds, hb, hd⟩ := exists_write_eq_cons b q
  rw [ha, hb] at heq
  obtain rfl := (List.cons.inj heq).1
  exact Option.some.inj (hc.symm.trans hd)

theorem write_ne_close (v : Json) (p q : List Char) : v.write p ≠ ']' :: q := by
  obtain ⟨c, cs, hv, hc⟩ := exists_write_eq_cons v p
  rw [hv]
  intro heq
  obtain rfl := (List.cons.inj heq).1
  cases hc

theorem member_inj {k l : String} {v w : List Char}
    (heq : writeString k (':' :: v) = writeString l (':' :: w)) : k = l ∧ v = w := by
  obtain ⟨hname, hrest⟩ := writeString_inj heq
  exact ⟨hname, (List.cons.inj hrest).2⟩

mutual

/-- The text of a value determines the value and what follows it. -/
theorem write_inj (a b : Json) {p q : List Char} (hp : Ends p) (hq : Ends q)
    (heq : a.write p = b.write q) : a = b ∧ p = q := by
  match a, b, kind_eq_of_write heq with
  | .null, .null, _ =>
    simp only [write, List.cons.injEq, true_and] at heq
    exact ⟨rfl, heq⟩
  | .bool true, .bool true, _ =>
    simp only [write, List.cons.injEq, true_and] at heq
    exact ⟨rfl, heq⟩
  | .bool false, .bool false, _ =>
    simp only [write, List.cons.injEq, true_and] at heq
    exact ⟨rfl, heq⟩
  | .bool true, .bool false, _ => simp [write] at heq
  | .bool false, .bool true, _ => simp [write] at heq
  | .number m, .number n, _ =>
    simp only [write] at heq
    obtain ⟨rfl, hrest⟩ := numeral_inj hp hq heq
    exact ⟨rfl, hrest⟩
  | .string s, .string t, _ =>
    simp only [write] at heq
    obtain ⟨rfl, hrest⟩ := writeString_inj heq
    exact ⟨rfl, hrest⟩
  | .array [], .array [], _ =>
    simp only [write, List.cons.injEq, true_and] at heq
    exact ⟨rfl, heq⟩
  | .array [], .array (w :: ws), _ =>
    simp only [write, List.cons.injEq, true_and] at heq
    exact absurd heq.symm (write_ne_close w _ _)
  | .array (v :: vs), .array [], _ =>
    simp only [write, List.cons.injEq, true_and] at heq
    exact absurd heq (write_ne_close v _ _)
  | .array (v :: vs), .array (w :: ws), _ =>
    simp only [write, List.cons.injEq, true_and] at heq
    obtain ⟨rfl, hrest⟩ := write_inj v w (ends_writeItems vs p) (ends_writeItems ws q) heq
    obtain ⟨rfl, rfl⟩ := writeItems_inj vs ws hrest
    exact ⟨rfl, rfl⟩
  | .object [], .object [], _ =>
    simp only [write, List.cons.injEq, true_and] at heq
    exact ⟨rfl, heq⟩
  | .object [], .object ((l, w) :: ns), _ => simp [write, writeString] at heq
  | .object ((k, v) :: ms), .object [], _ => simp [write, writeString] at heq
  | .object ((k, v) :: ms), .object ((l, w) :: ns), _ =>
    simp only [write, List.cons.injEq, true_and] at heq
    obtain ⟨rfl, hvalue⟩ := member_inj heq
    obtain ⟨rfl, hrest⟩ := write_inj v w (ends_writeMembers ms p) (ends_writeMembers ns q) hvalue
    obtain ⟨rfl, rfl⟩ := writeMembers_inj ms ns hrest
    exact ⟨rfl, rfl⟩

theorem writeItems_inj (vs ws : List Json) {p q : List Char}
    (heq : writeItems vs p = writeItems ws q) : vs = ws ∧ p = q := by
  match vs, ws with
  | [], [] =>
    simp only [writeItems, List.cons.injEq, true_and] at heq
    exact ⟨rfl, heq⟩
  | [], w :: ws => simp [writeItems] at heq
  | v :: vs, [] => simp [writeItems] at heq
  | v :: vs, w :: ws =>
    simp only [writeItems, List.cons.injEq, true_and] at heq
    obtain ⟨rfl, hrest⟩ := write_inj v w (ends_writeItems vs p) (ends_writeItems ws q) heq
    obtain ⟨rfl, rfl⟩ := writeItems_inj vs ws hrest
    exact ⟨rfl, rfl⟩

theorem writeMembers_inj (ms ns : List (String × Json)) {p q : List Char}
    (heq : writeMembers ms p = writeMembers ns q) : ms = ns ∧ p = q := by
  match ms, ns with
  | [], [] =>
    simp only [writeMembers, List.cons.injEq, true_and] at heq
    exact ⟨rfl, heq⟩
  | [], n :: ns => simp [writeMembers] at heq
  | m :: ms, [] => simp [writeMembers] at heq
  | (k, v) :: ms, (l, w) :: ns =>
    simp only [writeMembers, List.cons.injEq, true_and] at heq
    obtain ⟨rfl, hvalue⟩ := member_inj heq
    obtain ⟨rfl, hrest⟩ := write_inj v w (ends_writeMembers ms p) (ends_writeMembers ns q) hvalue
    obtain ⟨rfl, rfl⟩ := writeMembers_inj ms ns hrest
    exact ⟨rfl, rfl⟩

end

/-- Values with one text are one value. -/
theorem text_inj {a b : Json} (heq : a.text = b.text) : a = b :=
  (write_inj a b ends_nil ends_nil (String.ofList_injective heq)).1

end LiveQuery.Json
