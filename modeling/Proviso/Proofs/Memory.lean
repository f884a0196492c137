/-
  The twister on plain memory.

  A generator is bounded by its type: words of 32 bits, 624 of them, and an index of one of them or
  behind the last. Here the same algorithm runs on numbers in a list, with indices that are counted
  up and set back by hand, and every access to the list can miss. `ofSeed_eq`, `word_of` and
  `bits_of` say that no access ever does, and that the numbers are those of the words of the typed
  generator, so they stay below 2 ^ 32; `serveAll_of` says so of any calls in a row.
-/
import Proviso.Proofs.Recurrence

namespace Proviso.Twister

/-- An access to a cell that there is not. -/
structure Miss where
  index : Nat
  deriving DecidableEq, Repr

/-- Numbers in cells, and the index of the one that is given out next. -/
structure Memory where
  cells : List Nat
  next : Nat
  deriving DecidableEq, Repr

namespace Memory

/-! ## The algorithm with checked accesses -/

/-- What is in a cell. -/
def load (cells : List Nat) (i : Nat) : Except Miss Nat :=
  match cells[i]? with
  | some w => .ok w
  | none => .error ⟨i⟩

/-- The cells with another number in one of them. -/
def store (cells : List Nat) (i w : Nat) : Except Miss (List Nat) :=
  if i < cells.length then .ok (cells.set i w) else .error ⟨i⟩

/-- Carries out a step for each index from `start` on, `count` times. -/
def loop {α : Type} (start count : Nat) (step : Nat → α → Except Miss α) (a : α) : Except Miss α :=
  (List.range' start count).foldlM (fun a i => step i a) a

/-- Puts a word in place of the one at an index. -/
def renew (i successor far : Nat) (cells : List Nat) : Except Miss (List Nat) := do
  let upper ← load cells i
  let lower ← load cells successor
  let y := (upper &&& 0x80000000) ||| (lower &&& 0x7FFFFFFF)
  let carry ← load [0, 0x9908B0DF] (y &&& 1)
  let w ← load cells far
  store cells i (w ^^^ (y >>> 1) ^^^ carry)

/-- The next 624 words. The word 397 places on is behind the index at first, and in front of it
from index 227 on; the successor of the last word is the first one. -/
def regenerate (cells : List Nat) : Except Miss (List Nat) := do
  let cells ← loop 0 227 (fun i => renew i (i + 1) (i + 397)) cells
  let cells ← loop 227 396 (fun i => renew i (i + 1) (i - 227)) cells
  renew 623 0 396 cells

/-- The output made of a word. -/
def temper (y : Nat) : Nat :=
  let y := y ^^^ (y >>> 11)
  let y := y ^^^ ((y <<< 7) % 2 ^ 32 &&& 0x9D2C5680)
  let y := y ^^^ ((y <<< 15) % 2 ^ 32 &&& 0xEFC60000)
  y ^^^ (y >>> 18)

/-- Draws 32 random bits. -/
def word (m : Memory) : Except Miss (Nat × Memory) := do
  let m ← if 624 ≤ m.next then (regenerate m.cells).map fun cells => ⟨cells, 0⟩ else .ok m
  let y ← load m.cells m.next
  return (temper y, ⟨m.cells, m.next + 1⟩)

/-- Draws words for `count` random bits, of the last one the leading bits only. -/
def gather : (words count : Nat) → Memory → Except Miss (Nat × Memory)
  | 0, _, m => .ok (0, m)
  | words + 1, count, m => do
    let (w, m) ← m.word
    let low := if count < 32 then w >>> (32 - count) else w
    let (high, m) ← gather words (count - 32) m
    return (low + 2 ^ 32 * high, m)

/-- Draws a number of `count` random bits. -/
def bits (count : Nat) (m : Memory) : Except Miss (Nat × Memory) :=
  if count = 0 then .ok (0, m) else gather ((count - 1) / 32 + 1) count m

/-- Draws numbers with as many bits as `bound` until one is below it, `tries` times at most. -/
def belowWithin (tries bound : Nat) (m : Memory) : Option (Except Miss (Nat × Memory)) :=
  match tries with
  | 0 => none
  | tries + 1 =>
    match m.bits (bitLength bound) with
    | .error miss => some (.error miss)
    | .ok (n, m) => if n < bound then some (.ok (n, m)) else belowWithin tries bound m

/-- Draws numbers with as many bits as `bound` until one is below it, unless none ever is. -/
def below (bound : Nat) (m : Memory) : Option (Except Miss (Nat × Memory)) :=
  belowWithin states bound m

/-- Overwrites the cell at an index by what the one in front of it spreads to. -/
def fillAt (i : Nat) (cells : List Nat) : Except Miss (List Nat) := do
  let before ← load cells (i - 1)
  store cells i (((before ^^^ (before >>> 30)) * 1812433253 + i) % 2 ^ 32)

/-- Overwrites cells by what one number spreads to. -/
def fill (n : Nat) (cells : List Nat) : Except Miss (List Nat) := do
  let cells ← store cells 0 n
  loop 1 623 fillAt cells

/-- Cells while they are seeded, with an index into them and one into the key. -/
structure Seeding where
  cells : List Nat
  i : Nat
  j : Nat

/-- Replaces a cell by what is made of it and of the one in front of it, and goes on to the next.
Behind the last cell the first becomes a copy of the last, and the second is next. -/
def mix (make : Nat → Nat → Nat) (s : Seeding) : Except Miss Seeding := do
  let before ← load s.cells (s.i - 1)
  let w ← load s.cells s.i
  let cells ← store s.cells s.i (make w (before ^^^ (before >>> 30)))
  if 624 ≤ s.i + 1 then do
    let last ← load cells 623
    let cells ← store cells 0 last
    return ⟨cells, 1, s.j⟩
  else return ⟨cells, s.i + 1, s.j⟩

/-- Mixes a word of the key into a cell, and goes on in the key or back to its beginning. -/
def mixKey (key : List Nat) (s : Seeding) : Except Miss Seeding := do
  let k ← load key s.j
  mix (fun w before => ((w ^^^ (before * 1664525 % 2 ^ 32)) + k + s.j) % 2 ^ 32)
    { s with j := if s.j + 1 < key.length then s.j + 1 else 0 }

/-- Mixes a cell with the one in front of it. -/
def mixAlone (s : Seeding) : Except Miss Seeding :=
  mix (fun w before => ((w ^^^ (before * 1566083941 % 2 ^ 32)) + 2 ^ 32 - s.i) % 2 ^ 32) s

/-- The memory for a key, in cells of which the contents do not count. -/
def ofKey (key cells : List Nat) : Except Miss Memory := do
  let cells ← fill 19650218 cells
  let s ← loop 0 (max 624 key.length) (fun _ => mixKey key) ⟨cells, 1, 0⟩
  let s ← loop 0 623 (fun _ => mixAlone) s
  let cells ← store s.cells 0 0x80000000
  return ⟨cells, 624⟩

/-- The digits of a number to the base 2 ^ 32, the low ones first; zero has one. -/
def digits (n : Nat) : List Nat :=
  if n < 2 ^ 32 then [n] else n % 2 ^ 32 :: digits (n / 2 ^ 32)

/-- The memory for a seed. -/
def ofSeed (seed : Int) (cells : List Nat) : Except Miss Memory := ofKey (digits seed.natAbs) cells

/-- The reply to a call and the memory after it. -/
def serve (m : Memory) : Call → Option (Except Miss (Reply × Memory))
  | .int upper =>
    if 0 < upper then (m.below upper.toNat).map fun r => r.map fun (n, m) => (.number n, m)
    else some (.ok (.refused .emptyRange, m))
  | .seed value => some ((ofSeed value m.cells).map fun m => (.done, m))
  | .reseed w ws => some ((ofKey ((w :: ws).map UInt32.toNat) m.cells).map fun m => (.done, m))

/-- The replies to calls, one after another, and the memory after them, up to the first miss. -/
def serveAll (m : Memory) : List Call → Option (Except Miss (List Reply × Memory))
  | [] => some (.ok ([], m))
  | c :: cs =>
    (m.serve c).bind fun
      | .error miss => some (.error miss)
      | .ok (reply, m) =>
        (m.serveAll cs).map fun r => r.map fun (replies, m) => (reply :: replies, m)

@[simp] theorem ok_bind {α β : Type} (a : α) (f : α → Except Miss β) :
    (Except.ok a >>= f) = f a := rfl

/-! ## Words in cells -/

/-- The cells that hold words. -/
def ofWords (ws : Vector UInt32 size) : List Nat := ws.toList.map UInt32.toNat

/-- The memory that holds a generator. -/
def of (t : Twister) : Memory := ⟨ofWords t.words, t.next.val⟩

/-- There are 624 cells with numbers of 32 bits in them, and the index is that of a cell or of the
place behind the last one. -/
structure WellFormed (m : Memory) : Prop where
  length : m.cells.length = 624
  lt : ∀ w ∈ m.cells, w < 2 ^ 32
  next : m.next ≤ 624

theorem length_ofWords (ws : Vector UInt32 size) : (ofWords ws).length = 624 := by
  simp [ofWords]

theorem wellFormed_of (t : Twister) : (of t).WellFormed where
  length := length_ofWords t.words
  lt := by
    intro w hw
    obtain ⟨u, -, rfl⟩ := List.mem_map.1 hw
    exact u.toNat_lt
  next := Nat.le_of_lt_succ t.next.isLt

theorem load_ofWords (ws : Vector UInt32 size) {i : Nat} (h : i < size) :
    load (ofWords ws) i = .ok ws[i].toNat := by
  have hget : (ofWords ws)[i]? = some ws[i].toNat := by
    simp [ofWords, h]
  rw [load, hget]

theorem store_ofWords (ws : Vector UInt32 size) {i : Nat} (h : i < size) (w : UInt32) :
    store (ofWords ws) i w.toNat = .ok (ofWords (ws.set i w h)) := by
  have hset : (ofWords ws).set i w.toNat = ofWords (ws.set i w h) := by
    rw [ofWords, ofWords, Vector.toList_set, List.map_set]
  have hlt : i < (ofWords ws).length := by
    rw [length_ofWords]
    exact h
  rw [store, if_pos hlt, hset]

/-! ## Loops -/

section Loops

variable {α β : Type} {start n : Nat}

theorem loop_succ (step : Nat → α → Except Miss α) (a : α) :
    loop start (n + 1) step a = (loop start n step a).bind (step (start + n)) := by
  unfold loop
  rw [List.range'_concat, List.foldlM_append, Nat.one_mul]
  congr 1
  funext b
  simp

/-- A loop misses nothing and goes along with a fold, if each step goes along with one of the
fold. -/
theorem loop_related {step : Nat → β → Except Miss β} {f : (i : Nat) → i < n → α → α}
    (R : Nat → α → β → Prop)
    (h : ∀ i hi a b, R i a b → ∃ b', step (start + i) b = .ok b' ∧ R (i + 1) (f i hi a) b')
    {a : α} {b : β} (hstart : R 0 a b) :
    ∃ b', loop start n step b = .ok b' ∧ R n (Nat.fold n f a) b' := by
  induction n with
  | zero => exact ⟨b, rfl, hstart⟩
  | succ n ih =>
    obtain ⟨b₁, hloop, hb₁⟩ := ih fun i hi => h i (Nat.lt_succ_of_lt hi)
    obtain ⟨b₂, hstep, hb₂⟩ := h n (Nat.lt_succ_self n) _ b₁ hb₁
    refine ⟨b₂, ?_, by rwa [Nat.fold_succ]⟩
    rw [loop_succ, hloop]
    exact hstep

theorem loop_eq {step : Nat → β → Except Miss β} {f : (i : Nat) → i < n → α → α}
    (enc : Nat → α → β)
    (h : ∀ i hi a, step (start + i) (enc i a) = .ok (enc (i + 1) (f i hi a))) (a : α) :
    loop start n step (enc 0 a) = .ok (enc n (Nat.fold n f a)) := by
  have hrelated : ∃ b, loop start n step (enc 0 a) = .ok b ∧ b = enc n (Nat.fold n f a) :=
    loop_related (fun i a b => b = enc i a)
      (fun i hi a b hb => ⟨_, by rw [hb]; exact h i hi a, rfl⟩) rfl
  obtain ⟨b, hloop, rfl⟩ := hrelated
  exact hloop

theorem loop_add (m : Nat) (step : Nat → α → Except Miss α) (a : α) :
    loop start (m + n) step a = (loop start m step a).bind (loop (start + m) n step) := by
  unfold loop
  rw [← List.range'_append, List.foldlM_append, Nat.one_mul]
  rfl

theorem loop_congr {step step' : Nat → α → Except Miss α}
    (h : ∀ i, start ≤ i → i < start + n → step i = step' i) (a : α) :
    loop start n step a = loop start n step' a := by
  induction n with
  | zero => rfl
  | succ n ih =>
    rw [loop_succ, loop_succ, ih fun i hle hlt => h i hle (by omega),
      h (start + n) (by omega) (by omega)]

end Loops

/-! ## Drawing from memory -/

theorem load_carry (y : UInt32) : load [0, 0x9908B0DF] (y.toNat &&& 1) = .ok (carry y).toNat := by
  have hand : y.toNat &&& 1 = (y &&& 1).toNat := rfl
  unfold carry
  rw [hand]
  rcases and_one_cases y with h | h
  · rw [h]
    rfl
  · rw [h]
    rfl

theorem splice_toNat (a b : UInt32) :
    (a.toNat &&& 0x80000000) ||| (b.toNat &&& 0x7FFFFFFF) = (splice a b).toNat := by
  rw [splice, UInt32.toNat_or, UInt32.toNat_and, UInt32.toNat_and]
  rfl

theorem twist_toNat (a b c : UInt32) :
    c.toNat ^^^ ((splice a b).toNat >>> 1) ^^^ (carry (splice a b)).toNat
      = (twist a b c).toNat := by
  rw [twist_eq, UInt32.toNat_xor, UInt32.toNat_xor, UInt32.toNat_shiftRight]
  rfl

theorem renew_ofWords (ws : Vector UInt32 size) {i : Nat} (h : i < size) :
    renew i ((i + 1) % 624) ((i + 397) % 624) (ofWords ws)
      = .ok (ofWords (Twister.renew i h ws)) := by
  have hnext : (i + 1) % 624 < size := Nat.mod_lt _ (by decide)
  have hfar : (i + 397) % 624 < size := Nat.mod_lt _ (by decide)
  simp only [renew, load_ofWords ws h, load_ofWords ws hnext, load_ofWords ws hfar, ok_bind,
    splice_toNat, load_carry, twist_toNat]
  exact store_ofWords ws h _

theorem regenerate_ofWords (ws : Vector UInt32 size) :
    regenerate (ofWords ws) = .ok (ofWords (Twister.regenerate ws)) := by
  let step := fun i => renew i ((i + 1) % 624) ((i + 397) % 624)
  have hall : loop 0 624 step (ofWords ws) = .ok (ofWords (Twister.regenerate ws)) :=
    loop_eq (fun _ => ofWords) (fun i hi ws => by rw [Nat.zero_add]; exact renew_ofWords ws hi) ws
  -- The three parts of the loop are taken apart by where the index wraps around.
  have hfirst : ∀ i, 0 ≤ i → i < 0 + 227 → step i = renew i (i + 1) (i + 397) := by
    intro i _ hi
    have h1 : (i + 1) % 624 = i + 1 := Nat.mod_eq_of_lt (by omega)
    have h2 : (i + 397) % 624 = i + 397 := Nat.mod_eq_of_lt (by omega)
    simp only [step, h1, h2]
  have hsecond : ∀ i, 0 + 227 ≤ i → i < 0 + 227 + 396 → step i = renew i (i + 1) (i - 227) := by
    intro i hle hi
    have h1 : (i + 1) % 624 = i + 1 := Nat.mod_eq_of_lt (by omega)
    have h2 : (i + 397) % 624 = i - 227 := by omega
    simp only [step, h1, h2]
  have hsplit : loop 0 624 step (ofWords ws)
      = ((loop 0 227 step (ofWords ws)).bind (loop (0 + 227) 396 step)).bind (step (0 + 623)) := by
    rw [← loop_add, ← loop_succ]
  rw [← hall, hsplit, loop_congr hfirst, funext fun cells => loop_congr hsecond cells, regenerate]
  cases loop 0 227 (fun i => renew i (i + 1) (i + 397)) (ofWords ws) with
  | error miss => rfl
  | ok cells => rfl

theorem temper_toNat (w : UInt32) : temper w.toNat = (Twister.temper w).toNat := by
  unfold temper Twister.temper
  simp only [UInt32.toNat_xor, UInt32.toNat_and, UInt32.toNat_shiftLeft, UInt32.toNat_shiftRight]
  rfl

/-- A result of the typed generator as one of memory. -/
def result {α β : Type} (f : α → β) (r : α × Twister) : Except Miss (β × Memory) :=
  .ok (f r.1, of r.2)

/-- No access misses when a word is drawn. -/
theorem word_of (t : Twister) : (of t).word = result UInt32.toNat t.word := by
  obtain ⟨ws, next, hnext⟩ := t
  unfold word result of
  dsimp only
  by_cases h : next < size
  · have hle : ¬ 624 ≤ next := Nat.not_le_of_lt h
    have hword : Twister.word ⟨ws, next, hnext⟩
        = (Twister.temper ws[next], ⟨ws, next + 1, Nat.succ_lt_succ h⟩) := dif_pos h
    simp only [if_neg hle, ok_bind, load_ofWords ws h, temper_toNat, hword]
    rfl
  · have hle : 624 ≤ next := Nat.le_of_not_lt h
    have hword : Twister.word ⟨ws, next, hnext⟩
        = (Twister.temper (Twister.regenerate ws)[0], ⟨Twister.regenerate ws, 1⟩) := dif_neg h
    have hzero : 0 < size := by decide
    rw [hword, if_pos hle, regenerate_ofWords]
    simp only [Except.map, ok_bind, load_ofWords (Twister.regenerate ws) hzero, temper_toNat]
    rfl

theorem bitsFrom_succ (full rest : Nat) (t : Twister) :
    t.bitsFrom (full + 1) rest
      = (t.word.1.toNat + ((t.word.2.bitsFrom full rest).1 <<< 32),
        (t.word.2.bitsFrom full rest).2) := rfl

theorem gather_of (full : Nat) {rest : Nat} (hpos : 0 < rest) (hle : rest ≤ 32) (t : Twister) :
    gather (full + 1) (32 * full + rest) (of t) = result id (t.bitsFrom full rest) := by
  induction full generalizing t with
  | zero =>
    have hlow : (if rest < 32 then t.word.1.toNat >>> (32 - rest) else t.word.1.toNat)
        = t.word.1.toNat >>> (32 - rest) := by
      by_cases hlt : rest < 32
      · rw [if_pos hlt]
      · have hrest : 32 - rest = 0 := by omega
        rw [if_neg hlt, hrest, Nat.shiftRight_zero]
    rw [gather, word_of, Nat.mul_zero, Nat.zero_add]
    simp only [result, ok_bind, hlow, gather, Nat.mul_zero, Nat.add_zero]
    rfl
  | succ full ih =>
    have hcount : 32 * (full + 1) + rest - 32 = 32 * full + rest := by omega
    have hmany : ¬ 32 * (full + 1) + rest < 32 := by omega
    rw [gather, word_of]
    have hvalue (high : Nat) : t.word.1.toNat + 2 ^ 32 * high = t.word.1.toNat + (high <<< 32) := by
      rw [Nat.shiftLeft_eq, Nat.mul_comm]
    simp only [result, ok_bind, hcount, if_neg hmany, ih, id_eq, hvalue, bitsFrom_succ]
    rfl

/-- No access misses when random bits are drawn. -/
theorem bits_of (count : Nat) (t : Twister) : (of t).bits count = result id (t.bits count) := by
  unfold bits Twister.bits
  by_cases h : count = 0
  · rw [if_pos h, if_pos h]
    rfl
  · rw [if_neg h, if_neg h]
    have hpos : 0 < count - 32 * ((count - 1) / 32) := by omega
    have hle : count - 32 * ((count - 1) / 32) ≤ 32 := by omega
    have hall : 32 * ((count - 1) / 32) + (count - 32 * ((count - 1) / 32)) = count := by omega
    have hgather := gather_of ((count - 1) / 32) hpos hle t
    rwa [hall] at hgather

theorem belowWithin_of (tries bound : Nat) (t : Twister) :
    (of t).belowWithin tries bound = (t.belowWithin tries bound).map (result id) := by
  induction tries generalizing t with
  | zero => rfl
  | succ tries ih =>
    rw [belowWithin, bits_of, Twister.belowWithin]
    dsimp only [result, id_eq]
    by_cases hlt : (t.bits (bitLength bound)).1 < bound
    · rw [if_pos hlt, if_pos hlt]
      rfl
    · rw [if_neg hlt, if_neg hlt, ih]

/-- A draw from memory has a result exactly if that from the typed generator has, and then it is the
same. -/
theorem below_of (bound : Nat) (t : Twister) :
    (of t).below bound = (t.below bound).map (result id) := belowWithin_of states bound t

/-! ## Seeding memory -/

theorem eq_ofWords {cells : List Nat} {ws : Vector UInt32 size} (hlength : cells.length = 624)
    (h : ∀ j (hj : j < size), cells[j]? = some ws[j].toNat) : cells = ofWords ws := by
  refine List.ext_getElem? fun j => ?_
  by_cases hj : j < size
  · rw [h j hj]
    simp [ofWords, hj]
  · have hle : 624 ≤ j := Nat.le_of_not_lt hj
    rw [List.getElem?_eq_none (by omega), List.getElem?_eq_none (by rw [length_ofWords]; exact hle)]

/-- The cells up to an index hold words. -/
def Filled (i : Nat) (ws : Vector UInt32 size) (cells : List Nat) : Prop :=
  cells.length = 624 ∧ ∀ j (hj : j < size), j ≤ i → cells[j]? = some ws[j].toNat

theorem load_eq {cells : List Nat} {i w : Nat} (h : cells[i]? = some w) : load cells i = .ok w := by
  rw [load, h]

theorem store_eq {cells : List Nat} {i : Nat} (h : i < cells.length) (w : Nat) :
    store cells i w = .ok (cells.set i w) := if_pos h

theorem scramble_toNat (w : UInt32) :
    (w ^^^ (w >>> 30)).toNat = w.toNat ^^^ (w.toNat >>> 30) := by
  rw [UInt32.toNat_xor, UInt32.toNat_shiftRight]
  rfl

/-- The next cell is filled from the last one that is. -/
theorem Filled.next {i : Nat} (hi : i < 623) {ws : Vector UInt32 size} {cells : List Nat}
    (h : Filled i ws cells) :
    ∃ cells', fillAt (1 + i) cells = .ok cells' ∧ Filled (i + 1) (spreadTo i hi ws) cells' := by
  obtain ⟨hlength, hcells⟩ := h
  have hsize : size = 624 := rfl
  have hi' : i < size := by omega
  have hnext : i + 1 < size := by omega
  have hvalue : ((ws[i].toNat ^^^ (ws[i].toNat >>> 30)) * 1812433253 + (i + 1)) % 2 ^ 32
      = ((ws[i] ^^^ (ws[i] >>> 30)) * 1812433253 + UInt32.ofNat (i + 1)).toNat := by
    have hconst : (1812433253 : UInt32).toNat = 1812433253 := rfl
    rw [UInt32.toNat_add, UInt32.toNat_mul, UInt32.toNat_ofNat', scramble_toNat, hconst]
    omega
  rw [fillAt, Nat.add_comm 1 i, Nat.add_sub_cancel, load_eq (hcells i hi' (Nat.le_refl i))]
  simp only [ok_bind, hvalue]
  refine ⟨_, store_eq (by omega) _, by rwa [List.length_set], fun j hj hle => ?_⟩
  unfold spreadTo
  rw [Vector.getElem_set]
  by_cases hij : i + 1 = j
  · rw [if_pos hij, hij, List.getElem?_set_self (by omega)]
  · rw [if_neg hij, List.getElem?_set_ne hij, hcells j hj (by omega)]

/-- Whatever the cells hold, they are overwritten by the words that a number spreads to. -/
theorem fill_eq (n : UInt32) {cells : List Nat} (h : cells.length = 624) :
    fill n.toNat cells = .ok (ofWords (spread n)) := by
  have hstart : Filled 0 (Vector.replicate size n) (cells.set 0 n.toNat) := by
    refine ⟨by rwa [List.length_set], fun j hj hle => ?_⟩
    obtain rfl := Nat.le_zero.1 hle
    rw [List.getElem?_set_self (by omega), Vector.getElem_replicate]
  have hrelated : ∃ cells', loop 1 623 fillAt (cells.set 0 n.toNat) = .ok cells' ∧
      Filled 623 (spread n) cells' :=
    loop_related Filled (fun i hi ws cells hws => hws.next hi) hstart
  obtain ⟨cells', hloop, hlength, hcells⟩ := hrelated
  rw [fill, store_eq (by omega)]
  refine hloop.trans (congrArg Except.ok ?_)
  exact eq_ofWords hlength fun j hj => hcells j hj (by have hsize : size = 624 := rfl; omega)

/-- The cells for a state of mixing, with an index into the key. -/
def Seeding.of (m : Mixing) (j : Nat) : Seeding := ⟨ofWords m.words, m.last.val + 1, j⟩

@[simp] theorem Seeding.cells_of (m : Mixing) (j : Nat) : (of m j).cells = ofWords m.words := rfl

theorem mix_of {make : Nat → Nat → Nat} {f : UInt32 → UInt32 → Nat → UInt32} (m : Mixing) (j : Nat)
    (hmake : ∀ w before, make w.toNat before.toNat = (f w before (m.last.val + 1)).toNat) :
    mix make (.of m j) = .ok (.of (m.step f) j) := by
  obtain ⟨ws, i, hi⟩ := m
  have hsize : size = 624 := rfl
  have hi' : i < size := by omega
  have hnext : i + 1 < size := by omega
  let w := f ws[i + 1] (ws[i] ^^^ (ws[i] >>> 30)) (i + 1)
  have hmix : mix make ⟨ofWords ws, i + 1, j⟩
      = if 624 ≤ i + 1 + 1 then (do
          let last ← load (ofWords (ws.set (i + 1) w)) 623
          let cells ← store (ofWords (ws.set (i + 1) w)) 0 last
          return ⟨cells, 1, j⟩)
        else .ok ⟨ofWords (ws.set (i + 1) w), i + 1 + 1, j⟩ := by
    simp only [mix, Nat.add_sub_cancel, load_ofWords ws hi', load_ofWords ws hnext, ok_bind,
      ← scramble_toNat, hmake, store_ofWords ws hnext]
    rfl
  rw [Seeding.of, hmix]
  by_cases hlast : i + 1 < size - 1
  · have hstep : Mixing.step f ⟨ws, ⟨i, hi⟩⟩ = ⟨ws.set (i + 1) w, ⟨i + 1, hlast⟩⟩ := dif_pos hlast
    rw [if_neg (by omega), hstep]
    rfl
  · have hstep : Mixing.step f ⟨ws, ⟨i, hi⟩⟩ = ⟨(ws.set (i + 1) w).set 0 w, ⟨0, by decide⟩⟩ :=
      dif_neg hlast
    obtain rfl : i = 622 := by omega
    have hzero : 0 < size := by omega
    have hcopied : (ws.set (622 + 1) w)[623] = w := Vector.getElem_set_self hnext
    rw [if_pos (by omega), hstep, load_ofWords _ hnext, hcopied]
    simp only [ok_bind, store_ofWords _ hzero]
    rfl

/-- Counting up and going back to zero at the end is counting modulo the length. -/
theorem succ_mod_eq {length : Nat} (h : 0 < length) (k : Nat) :
    (k + 1) % length = if k % length + 1 < length then k % length + 1 else 0 := by
  have hlt := Nat.mod_lt k h
  rw [← Nat.mod_add_mod]
  by_cases hnext : k % length + 1 < length
  · rw [if_pos hnext, Nat.mod_eq_of_lt hnext]
  · have hlast : k % length + 1 = length := by omega
    rw [if_neg hnext, hlast, Nat.mod_self]

/-- The index into a key goes along with the number of the round. -/
theorem mixKey_of {key : List UInt32} (hkey : key ≠ []) (k : Nat) (m : Mixing) :
    let keyed := key.mapIdx fun i w => w + UInt32.ofNat i
    mixKey (key.map UInt32.toNat) (.of m (k % key.length))
      = .ok (.of (Twister.mixKey keyed k m) ((k + 1) % key.length)) := by
  intro keyed
  have hpos : 0 < key.length := List.length_pos_iff.2 hkey
  have hj : k % key.length < key.length := Nat.mod_lt k hpos
  have hload : (key.map UInt32.toNat)[k % key.length]? = some key[k % key.length].toNat := by
    simp [hj]
  have hkeyed : (keyed[k % keyed.length]?).getD 0
      = key[k % key.length] + UInt32.ofNat (k % key.length) := by
    simp [keyed, hj]
  rw [mixKey, Seeding.of, load_eq hload, succ_mod_eq hpos]
  simp only [ok_bind, List.length_map]
  refine mix_of m _ fun w before => ?_
  rw [hkeyed, UInt32.toNat_add, UInt32.toNat_xor, UInt32.toNat_mul, UInt32.toNat_add,
    UInt32.toNat_ofNat']
  have hconst : (1664525 : UInt32).toNat = 1664525 := rfl
  rw [hconst]
  omega

theorem mixAlone_of (m : Mixing) (j : Nat) :
    mixAlone (.of m j) = .ok (.of (Twister.mixAlone m) j) := by
  refine mix_of m j fun w before => ?_
  have hlast : m.last.val < 623 := m.last.isLt
  dsimp only [Seeding.of]
  rw [UInt32.toNat_sub, UInt32.toNat_xor, UInt32.toNat_mul, UInt32.toNat_ofNat']
  have hconst : (1566083941 : UInt32).toNat = 1566083941 := rfl
  rw [hconst]
  omega

/-- No access misses when memory is seeded with a key that is not empty. -/
theorem ofKey_eq {key : List UInt32} (hkey : key ≠ []) {cells : List Nat}
    (h : cells.length = 624) :
    ofKey (key.map UInt32.toNat) cells = .ok (of (Twister.ofKey key)) := by
  let keyed := key.mapIdx fun i w => w + UInt32.ofNat i
  let blank : Mixing := ⟨spread 19650218, ⟨0, by decide⟩⟩
  let first := Nat.fold (max size keyed.length) (fun k _ m => Twister.mixKey keyed k m) blank
  let second := Nat.fold (size - 1) (fun _ _ m => Twister.mixAlone m) first
  have hfill : fill 19650218 cells = .ok (ofWords blank.words) := fill_eq 19650218 h
  have hlength : max 624 (key.map UInt32.toNat).length = max size keyed.length := by
    simp [keyed]
  have hfirst : loop 0 (max size keyed.length) (fun _ => mixKey (key.map UInt32.toNat))
      (.of blank (0 % key.length)) = .ok (.of first (max size keyed.length % key.length)) :=
    loop_eq (fun k m => Seeding.of m (k % key.length)) (fun k _ m => mixKey_of hkey k m) blank
  have hsecond (j : Nat) :
      loop 0 (size - 1) (fun _ => mixAlone) (.of first j) = .ok (.of second j) :=
    loop_eq (fun _ m => Seeding.of m j) (fun _ _ m => mixAlone_of m j) first
  have hstore : store (ofWords second.words) 0 0x80000000
      = .ok (ofWords (second.words.set 0 0x80000000)) := by
    have hzero : 0 < size := by decide
    have hword : (0x80000000 : UInt32).toNat = 0x80000000 := rfl
    rw [← hword]
    exact store_ofWords second.words hzero 0x80000000
  rw [Nat.zero_mod] at hfirst
  rw [ofKey, hfill, hlength, ok_bind]
  show (loop 0 (max size keyed.length) (fun _ => mixKey (key.map UInt32.toNat)) (.of blank 0) >>= _)
    = _
  rw [hfirst, ok_bind]
  show (loop 0 (size - 1) (fun _ => mixAlone) (.of first _) >>= _) = _
  rw [hsecond, ok_bind, Seeding.cells_of, hstore, ok_bind]
  have hseeded : Twister.ofKey key = ⟨second.words.set 0 0x80000000, Fin.last size⟩ := rfl
  have hlast : (Fin.last size).val = 624 := Fin.val_last size
  rw [hseeded, of, hlast]
  rfl

theorem log2_div {n : Nat} (h : 2 ^ 32 ≤ n) : n.log2 = (n / 2 ^ 32).log2 + 32 := by
  have hne : n / 2 ^ 32 ≠ 0 := by omega
  obtain ⟨hle, hlt⟩ := (Nat.log2_eq_iff hne).1 rfl
  have hup : 2 ^ ((n / 2 ^ 32).log2 + 32) = 2 ^ (n / 2 ^ 32).log2 * 2 ^ 32 := Nat.pow_add ..
  have hdown : 2 ^ ((n / 2 ^ 32).log2 + 32 + 1) = 2 ^ ((n / 2 ^ 32).log2 + 1) * 2 ^ 32 := by
    rw [← Nat.pow_add]
  rw [Nat.log2_eq_iff (by omega), hup, hdown]
  omega

theorem wordsOf_of_lt {n : Nat} (h : n < 2 ^ 32) : wordsOf n = [UInt32.ofNat n] := by
  have hlog : n.log2 / 32 = 0 := by
    by_cases hn : n = 0
    · rw [hn]
      rfl
    · have hlt := (Nat.log2_lt hn).2 h
      omega
  rw [wordsOf, hlog]
  rfl

theorem wordsOf_of_le {n : Nat} (h : 2 ^ 32 ≤ n) :
    wordsOf n = UInt32.ofNat n :: wordsOf (n / 2 ^ 32) := by
  have hcount : n.log2 / 32 + 1 = ((n / 2 ^ 32).log2 / 32 + 1) + 1 := by
    rw [log2_div h]
    omega
  have hshift (i : Nat) : n >>> (32 * (i + 1)) = (n / 2 ^ 32) >>> (32 * i) := by
    rw [Nat.mul_succ, Nat.add_comm, Nat.shiftRight_add, Nat.shiftRight_eq_div_pow n]
  rw [wordsOf, hcount, List.range_succ_eq_map, List.map_cons, List.map_map]
  simp only [Function.comp_def, Nat.succ_eq_add_one, hshift]
  rfl

/-- The words of a number are its digits. -/
theorem digits_eq (n : Nat) : digits n = (wordsOf n).map UInt32.toNat := by
  induction n using Nat.strongRecOn with
  | ind n ih =>
    have hword : (UInt32.ofNat n).toNat = n % 2 ^ 32 := UInt32.toNat_ofNat'
    rw [digits]
    by_cases h : n < 2 ^ 32
    · rw [if_pos h, wordsOf_of_lt h, List.map_singleton, hword, Nat.mod_eq_of_lt h]
    · rw [if_neg h, wordsOf_of_le (Nat.le_of_not_lt h), List.map_cons, hword, ih _ (by omega)]

theorem wordsOf_ne_nil (n : Nat) : wordsOf n ≠ [] := by
  simp [wordsOf]

/-- No access misses when memory is seeded. -/
theorem ofSeed_eq (seed : Int) {cells : List Nat} (h : cells.length = 624) :
    ofSeed seed cells = .ok (of (.ofSeed seed)) := by
  rw [ofSeed, digits_eq, ofKey_eq (wordsOf_ne_nil _) h]
  rfl

/-! ## Calls on memory -/

theorem serve_of (t : Twister) (c : Call) : (of t).serve c = (t.serve c).map (result id) := by
  cases c with
  | int upper =>
    by_cases h : 0 < upper
    · rw [serve, Twister.serve, if_pos h, if_pos h, below_of, Option.map_map, Option.map_map]
      rfl
    · rw [serve, Twister.serve, if_neg h, if_neg h]
      rfl
  | seed value =>
    have hseed : ofSeed value (of t).cells = _ := ofSeed_eq value (length_ofWords t.words)
    rw [serve, hseed]
    rfl
  | reseed w ws =>
    have hkey : ofKey ((w :: ws).map UInt32.toNat) (of t).cells = _ :=
      ofKey_eq (List.cons_ne_nil w ws) (length_ofWords t.words)
    rw [serve, hkey]
    rfl

/-- Calls on the memory that holds a generator have the replies of that generator, and no access
misses. -/
theorem serveAll_of (t : Twister) (calls : List Call) :
    (of t).serveAll calls = (t.serveAll calls).map (result id) := by
  induction calls generalizing t with
  | nil => rfl
  | cons c calls ih =>
    rw [serveAll, Twister.serveAll, serve_of]
    cases t.serve c with
    | none => rfl
    | some r =>
      show (serveAll (of r.2) calls).map _ = (Option.map _ (r.2.serveAll calls)).map _
      rw [ih, Option.map_map, Option.map_map]
      rfl

end Memory

end Proviso.Twister
