/-
  The recurrence of the twister.

  The words of a state and all that follow from them are one sequence, in which a word is made of
  three earlier ones (`stream`); in whatever place the next word stands, the twister gives out the
  members of this sequence one after another, tempered (`word_eq`). Words are combined bit by bit,
  so the sequences of this kind are closed under exclusive or (`Follows.xor`), and the differences
  of neighbours determine such a sequence (`Follows.eq_of_diff_eq`). As there are finitely many of
  them, taking differences comes back to the sequence it started from (`exists_diff_iterate`). That
  is why the leading bit of what is given out cannot be set for ever (`exists_low`).
-/
import Mathlib.Dynamics.PeriodicPts.Lemmas
import Mathlib.Data.Fintype.Pi
import Proviso.Random.Source

namespace Proviso.Twister

/-! ## Words that follow from others -/

/-- Every word of the sequence follows from the 624 words before it. -/
def Follows (x : Nat → UInt32) : Prop :=
  ∀ n, x (n + 624) = twist (x n) (x (n + 1)) (x (n + 397))

/-- The words of a state and those that follow from them. -/
def stream (ws : Vector UInt32 size) (n : Nat) : UInt32 :=
  if h : n < size then ws[n]
  else twist (stream ws (n - 624)) (stream ws (n - 623)) (stream ws (n - 227))
  decreasing_by all_goals simp only [size] at h; omega

theorem stream_of_lt (ws : Vector UInt32 size) {n : Nat} (h : n < size) : stream ws n = ws[n] := by
  rw [stream, dif_pos h]

theorem follows_stream (ws : Vector UInt32 size) : Follows (stream ws) := by
  intro n
  have hn : ¬ n + 624 < size := by simp [size]
  have hback : ∀ k ≤ 624, n + 624 - k = n + (624 - k) := fun k hk => Nat.add_sub_assoc hk n
  rw [stream, dif_neg hn, hback 624 (by omega), hback 623 (by omega), hback 227 (by omega)]
  rfl

/-- The first 624 words determine all that follow. -/
theorem Follows.ext {x y : Nat → UInt32} (hx : Follows x) (hy : Follows y)
    (h : ∀ n < 624, x n = y n) : x = y := by
  funext n
  induction n using Nat.strongRecOn with
  | ind n ih =>
    by_cases hn : n < 624
    · exact h n hn
    · obtain ⟨m, rfl⟩ : ∃ m, n = m + 624 := ⟨n - 624, by omega⟩
      rw [hx m, hy m, ih m (by omega), ih (m + 1) (by omega), ih (m + 397) (by omega)]

theorem Follows.shift {x : Nat → UInt32} (h : Follows x) (k : Nat) :
    Follows fun n => x (n + k) := by
  intro n
  have hk := h (n + k)
  simp only [Nat.add_right_comm n _ k] at hk ⊢
  exact hk

/-! ## The state moves along the sequence -/

/-- What holds at the beginning and is kept by each step of a loop holds at its end. -/
theorem fold_invariant {α : Type} (P : Nat → α → Prop) {n : Nat} (f : (i : Nat) → i < n → α → α)
    {a : α} (hstart : P 0 a) (hstep : ∀ i h a, P i a → P (i + 1) (f i h a)) :
    P n (Nat.fold n f a) := by
  induction n with
  | zero => exact hstart
  | succ n ih =>
    rw [Nat.fold_succ]
    exact hstep n _ _ (ih _ fun i h a => hstep i _ a)

/-- The words of a sequence in the middle of a regeneration: those in front of an index are new. -/
def Renewed (x : Nat → UInt32) (k : Nat) (ws : Vector UInt32 size) : Prop :=
  ∀ j (h : j < size), ws[j] = if j < k then x (j + 624) else x j

/-- One more word is new. Its successor and the word 397 places on, behind which the words begin
again, stand for their members of the sequence whether they are new or old. -/
theorem Renewed.renew {x : Nat → UInt32} (hx : Follows x) {k : Nat} (h : k < size)
    {ws : Vector UInt32 size} (hws : Renewed x k ws) : Renewed x (k + 1) (renew k h ws) := by
  have hsize : size = 624 := rfl
  have hmember : ∀ d, 0 < d → d < 624 → ∀ hd : (k + d) % size < size,
      ws[(k + d) % size] = x (k + d) := by
    intro d hpos hlt hd
    rw [hws _ hd]
    by_cases hwrap : k + d < 624
    · have hmod : (k + d) % size = k + d := Nat.mod_eq_of_lt hwrap
      rw [hmod, if_neg (by omega)]
    · have hmod : (k + d) % size = k + d - 624 := by
        rw [Nat.mod_eq_sub_mod (by omega), Nat.mod_eq_of_lt (by omega)]
      rw [hmod, if_pos (by omega), Nat.sub_add_cancel (by omega)]
  intro j hj
  unfold Twister.renew
  rw [Vector.getElem_set, hmember 1 (by omega) (by omega), hmember 397 (by omega) (by omega),
    hws k h, if_neg (Nat.lt_irrefl k), ← hx k]
  by_cases hjk : k = j
  · rw [if_pos hjk, if_pos (by omega), hjk]
  · rw [if_neg hjk, hws j hj]
    by_cases hlt : j < k
    · rw [if_pos hlt, if_pos (by omega)]
    · rw [if_neg hlt, if_neg (by omega)]

/-- The new words are those that follow from the old ones. -/
theorem getElem_regenerate (ws : Vector UInt32 size) {i : Nat} (h : i < size) :
    (regenerate ws)[i] = stream ws (i + 624) := by
  have hold : Renewed (stream ws) 0 ws := fun j hj => by
    rw [if_neg (Nat.not_lt_zero j), stream_of_lt ws hj]
  have hnew : Renewed (stream ws) size (regenerate ws) :=
    fold_invariant (Renewed (stream ws)) renew hold fun i h _ hws =>
      hws.renew (follows_stream ws) h
  rw [hnew i h, if_pos h]

theorem stream_regenerate (ws : Vector UInt32 size) :
    stream (regenerate ws) = fun n => stream ws (n + 624) := by
  refine (follows_stream _).ext ((follows_stream ws).shift 624) fun n hn => ?_
  rw [stream_of_lt _ hn, getElem_regenerate]

/-- The sequence from the next word of a state on. -/
def ahead (t : Twister) (n : Nat) : UInt32 := stream t.words (n + t.next.val)

theorem follows_ahead (t : Twister) : Follows t.ahead := (follows_stream t.words).shift t.next.val

/-- The next word of the sequence is given out, tempered, and the rest of it is still ahead. -/
theorem word_eq (t : Twister) :
    t.word.1 = temper (t.ahead 0) ∧ t.word.2.ahead = fun n => t.ahead (n + 1) := by
  obtain ⟨ws, next, hnext⟩ := t
  by_cases h : next < size
  · have hword : word ⟨ws, next, hnext⟩ = (temper ws[next], ⟨ws, next + 1, Nat.succ_lt_succ h⟩) :=
      dif_pos h
    rw [hword]
    refine ⟨?_, funext fun n => ?_⟩
    · show _ = temper (stream ws (0 + next))
      rw [Nat.zero_add, stream_of_lt _ h]
    · show stream ws (n + (next + 1)) = stream ws (n + 1 + next)
      congr 1
      omega
  · have hword : word ⟨ws, next, hnext⟩ = (temper (regenerate ws)[0], ⟨regenerate ws, 1⟩) :=
      dif_neg h
    obtain rfl : next = size := by omega
    rw [hword]
    refine ⟨?_, funext fun n => ?_⟩
    · rw [getElem_regenerate]
      rfl
    · show stream (regenerate ws) (n + 1) = stream ws (n + 1 + size)
      rw [stream_regenerate]

/-! ## Words are combined bit by bit -/

/-- The function goes along with exclusive or. -/
def Linear (f : UInt32 → UInt32) : Prop := ∀ a b, f (a ^^^ b) = f a ^^^ f b

theorem xor_xor_xor_comm (a b c d : UInt32) : a ^^^ b ^^^ (c ^^^ d) = a ^^^ c ^^^ (b ^^^ d) := by
  ac_rfl

theorem linear_id : Linear id := fun _ _ => rfl

section Linear

variable {f g : UInt32 → UInt32}

theorem Linear.comp (hg : Linear g) (hf : Linear f) : Linear (g ∘ f) := by
  intro a b
  simp only [Function.comp_apply, hf a b, hg (f a) (f b)]

theorem Linear.xor (hf : Linear f) (hg : Linear g) : Linear fun w => f w ^^^ g w := by
  intro a b
  simp only [hf a b, hg a b, xor_xor_xor_comm]

theorem Linear.shiftRight (hf : Linear f) (k : UInt32) : Linear fun w => f w >>> k := by
  intro a b
  simp only [hf a b, UInt32.shiftRight_xor]

theorem Linear.shiftLeft (hf : Linear f) (k : UInt32) : Linear fun w => f w <<< k := by
  intro a b
  simp only [hf a b, UInt32.shiftLeft_xor]

theorem Linear.and (hf : Linear f) (k : UInt32) : Linear fun w => f w &&& k := by
  intro a b
  apply UInt32.toNat_inj.1
  simp only [hf a b, UInt32.toNat_and, UInt32.toNat_xor, Nat.and_xor_distrib_right]

end Linear

theorem linear_temper : Linear temper := by
  have h1 : Linear fun y => y ^^^ (y >>> 11) := linear_id.xor (linear_id.shiftRight 11)
  have h2 : Linear fun y => y ^^^ ((y <<< 7) &&& 0x9D2C5680) :=
    linear_id.xor ((linear_id.shiftLeft 7).and _)
  have h3 : Linear fun y => y ^^^ ((y <<< 15) &&& 0xEFC60000) :=
    linear_id.xor ((linear_id.shiftLeft 15).and _)
  have h4 : Linear fun y => y ^^^ (y >>> 18) := linear_id.xor (linear_id.shiftRight 18)
  exact h4.comp (h3.comp (h2.comp h1))

/-- What is added to a word of which the last bit is shifted out. -/
def carry (y : UInt32) : UInt32 := if y &&& 1 = 0 then 0 else 0x9908B0DF

theorem and_one_cases (y : UInt32) : y &&& 1 = 0 ∨ y &&& 1 = 1 := by
  have hmod : (y &&& 1).toNat = y.toNat % 2 := by simp [UInt32.toNat_and, Nat.and_one_is_mod]
  rcases Nat.mod_two_eq_zero_or_one y.toNat with h | h
  · exact Or.inl (UInt32.toNat_inj.1 (by simp [hmod, h]))
  · exact Or.inr (UInt32.toNat_inj.1 (by simp [hmod, h]))

theorem linear_carry : Linear carry := by
  intro a b
  have hand : (a ^^^ b) &&& 1 = (a &&& 1) ^^^ (b &&& 1) := linear_id.and 1 a b
  unfold carry
  rw [hand]
  rcases and_one_cases a with ha | ha <;> rcases and_one_cases b with hb | hb <;>
    rw [ha, hb] <;> decide

/-- The leading bit of one word in front of the other bits of another. -/
def splice (word successor : UInt32) : UInt32 :=
  (word &&& 0x80000000) ||| (successor &&& 0x7FFFFFFF)

theorem splice_xor (a b a' b' : UInt32) :
    splice (a ^^^ a') (b ^^^ b') = splice a b ^^^ splice a' b' := by
  unfold splice
  apply UInt32.eq_of_toBitVec_eq
  simp only [UInt32.toBitVec_or, UInt32.toBitVec_and, UInt32.toBitVec_xor]
  ext i hi
  -- No bit is taken from both words.
  have hone :
      (UInt32.toBitVec 0x80000000)[i] = false ∨ (UInt32.toBitVec 0x7FFFFFFF)[i] = false := by
    revert i
    decide
  simp only [BitVec.getElem_or, BitVec.getElem_and, BitVec.getElem_xor]
  grind

theorem splice_self (a : UInt32) : splice a a = a := by
  unfold splice
  apply UInt32.eq_of_toBitVec_eq
  simp only [UInt32.toBitVec_or, UInt32.toBitVec_and]
  ext i hi
  have hone : (UInt32.toBitVec 0x80000000)[i] = true ∨ (UInt32.toBitVec 0x7FFFFFFF)[i] = true := by
    revert i
    decide
  simp only [BitVec.getElem_or, BitVec.getElem_and]
  grind

theorem twist_eq (word successor far : UInt32) :
    twist word successor far
      = far ^^^ (splice word successor >>> 1) ^^^ carry (splice word successor) := rfl

theorem twist_xor (a b c a' b' c' : UInt32) :
    twist (a ^^^ a') (b ^^^ b') (c ^^^ c') = twist a b c ^^^ twist a' b' c' := by
  simp only [twist_eq, splice_xor, linear_carry (splice a b), UInt32.shiftRight_xor]
  ac_rfl

theorem Follows.xor {x y : Nat → UInt32} (hx : Follows x) (hy : Follows y) :
    Follows fun n => x n ^^^ y n := by
  intro n
  simp only [hx n, hy n, twist_xor]

/-! ## Differences of neighbours -/

/-- Only zero follows from itself. -/
theorem eq_zero_of_twist_eq {c : UInt32} (h : twist c c c = c) : c = 0 := by
  rw [twist_eq, splice_self, UInt32.xor_assoc] at h
  have hsame : c >>> 1 = carry c := by
    have hboth := congrArg (c ^^^ ·) h
    simpa only [← UInt32.xor_assoc, UInt32.xor_self, UInt32.zero_xor, UInt32.xor_eq_zero_iff]
      using hboth
  have hhalf : c.toNat / 2 = (carry c).toNat := by
    rw [← hsame, UInt32.toNat_shiftRight]
    rfl
  have hlast : (c &&& 1).toNat = c.toNat % 2 := by simp [UInt32.toNat_and, Nat.and_one_is_mod]
  have hlt := c.toNat_lt
  apply UInt32.toNat_inj.1
  rcases and_one_cases c with hc | hc
  · rw [carry, if_pos hc, UInt32.toNat_zero] at hhalf
    rw [hc, UInt32.toNat_zero] at hlast
    rw [UInt32.toNat_zero]
    omega
  · -- What is left after a shift has no leading bit, but the carry has.
    rw [carry, if_neg (by rw [hc]; decide)] at hhalf
    have hcarry : (0x9908B0DF : UInt32).toNat = 0x9908B0DF := rfl
    omega

/-- The differences of neighbours. -/
def diff (x : Nat → UInt32) (n : Nat) : UInt32 := x (n + 1) ^^^ x n

theorem follows_diff {x : Nat → UInt32} (h : Follows x) : Follows (diff x) := (h.shift 1).xor h

theorem Follows.eq_of_diff_eq {x y : Nat → UInt32} (hx : Follows x) (hy : Follows y)
    (h : diff x = diff y) : x = y := by
  have hsum := hx.xor hy
  -- The sequence of the sums is constant, and only zero follows from itself.
  have hconst : ∀ n, x n ^^^ y n = x 0 ^^^ y 0 := by
    intro n
    induction n with
    | zero => rfl
    | succ n ih =>
      have hn : x (n + 1) ^^^ x n = y (n + 1) ^^^ y n := congrFun h n
      rw [← ih, ← UInt32.xor_eq_zero_iff, xor_xor_xor_comm, ← hn, UInt32.xor_self]
  have hzero : x 0 ^^^ y 0 = 0 := by
    have h0 := hsum 0
    simp only [hconst] at h0
    exact eq_zero_of_twist_eq h0.symm
  funext n
  rw [← UInt32.xor_eq_zero_iff, hconst n, hzero]

/-- The sequences of words that follow from those before. -/
abbrev Sequence := {x : Nat → UInt32 // Follows x}

instance : Finite Sequence :=
  Finite.of_injective (fun (x : Sequence) (i : Fin 624) => (x.1 i).toFin) fun x y h =>
    Subtype.ext (x.2.ext y.2 fun n hn => UInt32.toFin_inj.1 (congrFun h ⟨n, hn⟩))

/-- Taking differences again and again comes back to the sequence it started from. -/
theorem exists_diff_iterate {x : Nat → UInt32} (h : Follows x) : ∃ k, diff^[k + 1] x = x := by
  let step : Sequence → Sequence := fun y => ⟨diff y.1, follows_diff y.2⟩
  have hinj : Function.Injective step := fun y z hyz =>
    Subtype.ext (y.2.eq_of_diff_eq z.2 (congrArg Subtype.val hyz))
  obtain ⟨k, hk, hperiodic⟩ := hinj.mem_periodicPts (⟨x, h⟩ : Sequence)
  have hval : ∀ n, ((step^[n]) ⟨x, h⟩).1 = diff^[n] x := by
    intro n
    induction n with
    | zero => rfl
    | succ n ih =>
      rw [Function.iterate_succ_apply', Function.iterate_succ_apply', ← ih]
  refine ⟨k - 1, ?_⟩
  rw [Nat.sub_add_cancel hk, ← hval, hperiodic]

/-! ## The leading bit of what is given out -/

/-- The leading bit of a word as it is given out. -/
def lead (w : UInt32) : Bool := (temper w).toBitVec.msb

theorem lead_xor (a b : UInt32) : lead (a ^^^ b) = (lead a ^^ lead b) := by
  unfold lead
  rw [linear_temper, UInt32.toBitVec_xor, BitVec.msb_xor]

/-- The leading bit is not set in all words that are given out: it would not be set in the
differences, not in their differences, and so on until the words themselves come back. -/
theorem exists_low {x : Nat → UInt32} (h : Follows x) : ∃ n, lead (x n) = false := by
  by_contra hall
  have hset : ∀ n, lead (x n) = true := fun n => by
    rw [← Bool.not_eq_false]
    exact fun hn => hall ⟨n, hn⟩
  have hdiff : ∀ k n, lead (diff^[k + 1] x n) = false := by
    intro k
    induction k with
    | zero =>
      intro n
      show lead (x (n + 1) ^^^ x n) = false
      rw [lead_xor, hset, hset]
      rfl
    | succ k ih =>
      intro n
      rw [Function.iterate_succ_apply', diff, lead_xor, ih, ih]
      rfl
  obtain ⟨k, hk⟩ := exists_diff_iterate h
  have hlow := hdiff k 0
  rw [hk, hset] at hlow
  exact absurd hlow (by decide)

end Proviso.Twister
