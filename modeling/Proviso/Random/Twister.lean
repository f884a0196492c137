/-
  The Mersenne Twister MT19937.

  The state is 624 words of 32 bits and the index of the next word to give out; both are
  bounded by their types, so no access can miss. A generator is seeded by the 32-bit words
  of a number, gives out any number of random bits at a time, and draws below a bound by
  rejection.
-/
import Proviso.Text.Basic

namespace Proviso

/-- The number of words in the state. -/
abbrev Twister.size : Nat := 624

/-- A generator: its words and the index of the next one, `size` if all are used up. -/
structure Twister where
  words : Vector UInt32 Twister.size
  next : Fin (Twister.size + 1)

namespace Twister

/-! ### Drawing -/

/-- The word that follows from a word, its successor and the word 397 places on. -/
def twist (word successor far : UInt32) : UInt32 :=
  let y := (word &&& 0x80000000) ||| (successor &&& 0x7FFFFFFF)
  far ^^^ (y >>> 1) ^^^ (if y &&& 1 = 0 then 0 else 0x9908B0DF)

/-- Puts the word that follows in place of the one at an index. Behind the last word comes the
first. -/
def renew (i : Nat) (h : i < size) (words : Vector UInt32 size) : Vector UInt32 size :=
  have next : (i + 1) % size < size := Nat.mod_lt _ (by decide)
  have far : (i + 397) % size < size := Nat.mod_lt _ (by decide)
  words.set i (twist words[i] words[(i + 1) % size] words[(i + 397) % size]) h

/-- The next 624 words. Each is put in place of an old one before the next is computed, so the
later ones depend on the earlier ones. -/
def regenerate (words : Vector UInt32 size) : Vector UInt32 size := Nat.fold size renew words

/-- The output made of a word of the state. -/
def temper (word : UInt32) : UInt32 :=
  let y := word ^^^ (word >>> 11)
  let y := y ^^^ ((y <<< 7) &&& 0x9D2C5680)
  let y := y ^^^ ((y <<< 15) &&& 0xEFC60000)
  y ^^^ (y >>> 18)

/-- Draws 32 random bits. -/
def word (t : Twister) : UInt32 × Twister :=
  if h : t.next.val < size then
    (temper t.words[t.next.val], { t with next := ⟨t.next.val + 1, Nat.succ_lt_succ h⟩ })
  else
    let words := regenerate t.words
    (temper words[0], ⟨words, 1⟩)

/-- Draws `32 * full + rest` random bits for `rest ≤ 32`, the low words first. -/
def bitsFrom (full rest : Nat) (t : Twister) : Nat × Twister :=
  match full with
  | 0 =>
    let (w, t) := t.word
    (w.toNat >>> (32 - rest), t)
  | n + 1 =>
    let (w, t) := t.word
    let (high, t) := bitsFrom n rest t
    (w.toNat + (high <<< 32), t)

/-- Draws a number of `count` random bits. -/
def bits (count : Nat) (t : Twister) : Nat × Twister :=
  if count = 0 then (0, t)
  else
    let full := (count - 1) / 32
    t.bitsFrom full (count - 32 * full)

/-- The number of bits of a natural number, none for zero. -/
def bitLength (n : Nat) : Nat := if n = 0 then 0 else n.log2 + 1

/-- Draws numbers with as many bits as `bound` until one is below it, `tries` times at most. -/
def belowWithin (tries bound : Nat) (t : Twister) : Option (Nat × Twister) :=
  match tries with
  | 0 => none
  | tries + 1 =>
    let (n, t) := t.bits (bitLength bound)
    if n < bound then some (n, t) else belowWithin tries bound t

/-- The number of states that a generator can be in. -/
@[irreducible]
def states : Nat := Nat.pow 2 (32 * size) * (size + 1)

/-- Draws numbers with as many bits as `bound` until one is below it. There is no result if none
ever is: after as many tries as there are states the generator goes round in a circle, so no
further try can succeed. -/
def below (bound : Nat) (t : Twister) : Option (Nat × Twister) := belowWithin states bound t

/-! ### Seeding -/

/-- The state while it is seeded: the words, and one less than the index of the word that is
mixed next. The word in front of that one is always there. -/
structure Mixing where
  words : Vector UInt32 size
  last : Fin (size - 1)

/-- Mixes one word with the one in front of it. Behind the last word the first one becomes a
copy of the last, and mixing goes on at the second. -/
def Mixing.step (f : UInt32 → UInt32 → Nat → UInt32) (m : Mixing) : Mixing :=
  let i := m.last.val
  have hi : i + 1 < size := by have := m.last.isLt; omega
  let before := m.words[i]
  let w := f m.words[i + 1] (before ^^^ (before >>> 30)) (i + 1)
  let words := m.words.set (i + 1) w
  if h : i + 1 < size - 1 then ⟨words, ⟨i + 1, h⟩⟩
  else ⟨words.set 0 w, ⟨0, by decide⟩⟩

/-- Puts behind the word at an index the one that it spreads to. -/
def spreadTo (i : Nat) (h : i < size - 1) (words : Vector UInt32 size) : Vector UInt32 size :=
  have hi : i + 1 < size := by omega
  words.set (i + 1) ((words[i] ^^^ (words[i] >>> 30)) * 1812433253 + UInt32.ofNat (i + 1))

/-- The words that one number spreads over. -/
def spread (n : UInt32) : Vector UInt32 size :=
  Nat.fold (size - 1) spreadTo (Vector.replicate size n)

/-- The 32-bit words of a number, the low ones first; zero has one. -/
def wordsOf (n : Nat) : List UInt32 :=
  (List.range (n.log2 / 32 + 1)).map fun i => UInt32.ofNat (n >>> (32 * i))

/-- Mixes a word of the key, to which its index has been added, into the state. -/
def mixKey (keyed : List UInt32) (k : Nat) (m : Mixing) : Mixing :=
  m.step fun w before _ => (w ^^^ (before * 1664525)) + (keyed[k % keyed.length]?).getD 0

/-- Mixes the state without the key. -/
def mixAlone (m : Mixing) : Mixing :=
  m.step fun w before i => (w ^^^ (before * 1566083941)) - UInt32.ofNat i

/-- The generator for a key of words. Every word of the key is mixed in together with its
index, the key being gone through again until all of the state is reached; a second pass
mixes without the key. -/
def ofKey (key : List UInt32) : Twister :=
  let keyed := key.mapIdx fun i w => w + UInt32.ofNat i
  let rounds := max size keyed.length
  let first := Nat.fold rounds (fun k _ m => mixKey keyed k m) ⟨spread 19650218, ⟨0, by decide⟩⟩
  let second := Nat.fold (size - 1) (fun _ _ m => mixAlone m) first
  ⟨second.words.set 0 0x80000000, Fin.last size⟩

/-- The generator for a seed. The sign of the seed does not count. -/
def ofSeed (seed : Int) : Twister := ofKey (wordsOf seed.natAbs)

end Twister

end Proviso
