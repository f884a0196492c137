/-
  Text as the list of its characters, and the decimal spelling of numbers.

  Everything this library reads or writes is a `Text`, since a list is what the readers
  recurse on. Texts are ordered by the code points of their characters, the first difference
  deciding.
-/
namespace Proviso

/-- A text: its characters in order. -/
abbrev Text := List Char

namespace Text

/-- A natural number in decimal, without leading zeros. -/
def ofNat (n : Nat) : Text := Nat.toDigits 10 n

/-- An integer in decimal: a minus sign before a negative one, no sign otherwise. -/
def ofInt : Int → Text
  | .ofNat n => ofNat n
  | .negSucc n => '-' :: ofNat (n + 1)

/-- The digit of `n < 16` in lower-case hexadecimal. -/
def hexDigit (n : Nat) : Char :=
  if n < 10 then Char.ofNat ('0'.toNat + n) else Char.ofNat ('a'.toNat + (n - 10))

/-- The last `width` hexadecimal digits of `n`, most significant first. -/
def ofHex (width n : Nat) : Text :=
  match width with
  | 0 => []
  | w + 1 => ofHex w (n / 16) ++ [hexDigit (n % 16)]

/-- The value of an ASCII hexadecimal digit. -/
def hexValue? (c : Char) : Option Nat :=
  if '0' ≤ c ∧ c ≤ '9' then some (c.toNat - '0'.toNat)
  else if 'a' ≤ c ∧ c ≤ 'f' then some (c.toNat - 'a'.toNat + 10)
  else if 'A' ≤ c ∧ c ≤ 'F' then some (c.toNat - 'A'.toNat + 10)
  else none

/-- The texts one after another with `separator` between neighbours. -/
def join (separator : Text) : List Text → Text
  | [] => []
  | [t] => t
  | t :: ts => t ++ separator ++ join separator ts

/-- Each text followed by a line feed. -/
def unlines (ts : List Text) : Text := ts.flatMap (· ++ ['\n'])

/-- The text after `start`, if the text begins with `start`. -/
def after? : Text → Text → Option Text
  | [], t => some t
  | _ :: _, [] => none
  | s :: ss, c :: cs => if s = c then after? ss cs else none

/-- Whether the text begins with `start`. -/
def beginsWith (start t : Text) : Bool := (after? start t).isSome

/-- Whether `part` stands somewhere in the text. -/
def holds (part : Text) : Text → Bool
  | [] => part.isEmpty
  | c :: cs => beginsWith part (c :: cs) || holds part cs

/-- What stands before the first `mark`, and what stands after it if there is one. -/
def cut (mark : Char) : Text → Text × Option Text
  | [] => ([], none)
  | c :: cs =>
    if c = mark then ([], some cs)
    else
      let (before, rest) := cut mark cs
      (c :: before, rest)

/-- What stands before and after the last `mark`, if there is one. -/
def cutLast? (mark : Char) : Text → Option (Text × Text)
  | [] => none
  | c :: cs =>
    match cutLast? mark cs with
    | some (before, rest) => some (c :: before, rest)
    | none => if c = mark then some ([], cs) else none

/-- Whether the first text stands before the second one: it is a proper beginning of it, or has
the lower code point where they first differ. -/
def precedes : Text → Text → Bool
  | _, [] => false
  | [], _ :: _ => true
  | a :: as, b :: bs => if a = b then precedes as bs else a.toNat.blt b.toNat

theorem precedes_cons {a b : Char} {as bs : Text} :
    precedes (a :: as) (b :: bs) = true ↔ a.toNat < b.toNat ∨ a = b ∧ precedes as bs = true := by
  by_cases h : a = b <;> simp [precedes, h]

theorem precedes_trans {a b c : Text} (h : precedes a b) (k : precedes b c) :
    precedes a c := by
  induction a generalizing b c with
  | nil => cases b <;> cases c <;> simp_all [precedes]
  | cons x a ih =>
    cases b with
    | nil => simp [precedes] at h
    | cons y b =>
      cases c with
      | nil => simp [precedes] at k
      | cons z c =>
        rw [precedes_cons] at h k ⊢
        rcases h with h | ⟨rfl, h⟩ <;> rcases k with k | ⟨rfl, k⟩
        · exact .inl (Nat.lt_trans h k)
        · exact .inl h
        · exact .inl k
        · exact .inr ⟨rfl, ih h k⟩

theorem precedes_of_not {a b : Text} (h : ¬ precedes a b) (hne : a ≠ b) : precedes b a := by
  induction a generalizing b with
  | nil => cases b <;> simp_all [precedes]
  | cons x a ih =>
    cases b with
    | nil => simp [precedes]
    | cons y b =>
      rw [precedes_cons] at h ⊢
      by_cases hxy : x = y
      · subst hxy
        exact .inr ⟨rfl, ih (fun k => h (.inr ⟨rfl, k⟩)) (by simpa using hne)⟩
      · have hn : x.toNat ≠ y.toNat := fun e => hxy (Char.toNat_inj.1 e)
        have hle : ¬ x.toNat < y.toNat := fun k => h (.inl k)
        exact .inl (by omega)

end Text

end Proviso
