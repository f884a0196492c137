/-
  What can be relied on of the twister.

  A user of the twister seeds it and asks it for numbers below bounds, in any order and number. A
  number is below its bound and a bound that is not positive is refused (`serve_answered`); on
  plain memory the same calls have the same replies, without an access that misses and with the
  memory in order afterwards; and in whatever state the calls leave the twister, random bits are as
  many as they were asked for, a bound of up to 32 bits has a number below it, and a clause about a
  random number is true if it compares it with 100 and false if it compares it with 0
  (`serveAll_contract`). That a bound of more than 32 bits has a number below it is not proved.
-/
import Proviso.Proofs.Drawing
import Proviso.Proofs.Memory

namespace Proviso.Twister

/-- The reply is as it should be for the call. -/
def Call.Answered : Call → Reply → Prop
  | .int upper, .number n => 0 < upper ∧ (n : Int) < upper
  | .int upper, .refused .emptyRange => upper ≤ 0
  | .seed _, .done => True
  | .reseed _ _, .done => True
  | _, _ => False

theorem serve_answered {t t' : Twister} {c : Call} {reply : Reply}
    (h : t.serve c = some (reply, t')) : c.Answered reply := by
  cases c with
  | int upper =>
    rw [serve] at h
    by_cases hpos : 0 < upper
    · rw [if_pos hpos] at h
      obtain ⟨⟨n, t₁⟩, hbelow, heq⟩ := Option.map_eq_some_iff.1 h
      obtain ⟨rfl, -⟩ := Prod.mk.inj heq
      have hlt := lt_of_below hbelow
      exact ⟨hpos, by omega⟩
    · rw [if_neg hpos] at h
      obtain ⟨rfl, -⟩ := Prod.mk.inj (Option.some.inj h)
      exact Int.not_lt.1 hpos
  | seed value =>
    obtain ⟨rfl, -⟩ := Prod.mk.inj (Option.some.inj h)
    trivial
  | reseed w ws =>
    obtain ⟨rfl, -⟩ := Prod.mk.inj (Option.some.inj h)
    trivial

/-- Every call of a session is answered. -/
theorem serveAll_answered {t t' : Twister} {calls : List Call} {replies : List Reply}
    (h : t.serveAll calls = some (replies, t')) : List.Forall₂ Call.Answered calls replies := by
  induction calls generalizing t replies with
  | nil =>
    obtain ⟨rfl, -⟩ := Prod.mk.inj (Option.some.inj h)
    exact .nil
  | cons c calls ih =>
    obtain ⟨⟨reply, t₁⟩, hserve, hrest⟩ := Option.bind_eq_some_iff.1 h
    obtain ⟨⟨rest, t₂⟩, hall, heq⟩ := Option.map_eq_some_iff.1 hrest
    obtain ⟨rfl, rfl⟩ := Prod.mk.inj heq
    exact .cons (serve_answered hserve) (ih hall)

theorem serve_int_of_nonpos (t : Twister) {upper : Int} (h : upper ≤ 0) :
    t.serve (.int upper) = some (.refused .emptyRange, t) := if_neg (Int.not_lt.2 h)

theorem serveAll_cons {t t' : Twister} {c : Call} {reply : Reply}
    (h : t.serve c = some (reply, t')) (cs : List Call) :
    t.serveAll (c :: cs) = (t'.serveAll cs).map fun (replies, t) => (reply :: replies, t) := by
  rw [serveAll, h]
  rfl

theorem exists_serve_int {upper : Int} (hpos : 0 < upper) (hlt : upper < 2 ^ 32) (t : Twister) :
    ∃ n t', t.serve (.int upper) = some (.number n, t') := by
  obtain ⟨n, t', hbelow, -⟩ := @exists_below upper.toNat (by omega) (by omega) t
  exact ⟨n, t', by rw [serve, if_pos hpos, hbelow]; rfl⟩

/-- From any seed and through any calls, the twister can be kept in plain memory, whatever the cells
held before: no access misses, in seeding or afterwards, and there are 624 numbers of 32 bits and a
valid index at the beginning and at the end. If all calls have a reply, each number is below its
bound and just the bounds that are not positive are refused. Afterwards random bits make a number
below the power of two for their count, whatever the count is, a bound of up to 32 bits has a number
below it, and a random number in a test is always less than 100 and never less than 0. -/
theorem serveAll_contract (seed : Int) {cells : List Nat} (hcells : cells.length = 624)
    (calls : List Call) :
    (∃ m, Memory.ofSeed seed cells = .ok m ∧ m.WellFormed ∧
      m.serveAll calls
        = ((ofSeed seed).serveAll calls).map fun (replies, t) => .ok (replies, .of t)) ∧
    ∀ replies t, (ofSeed seed).serveAll calls = some (replies, t) →
      List.Forall₂ Call.Answered calls replies ∧
      (Memory.of t).WellFormed ∧
      (∀ count, (t.bits count).1 < 2 ^ count) ∧
      (∀ upper : Int, 0 < upper → upper < 2 ^ 32 →
        ∃ n t', t.serve (.int upper) = some (.number n, t')) ∧
      ∀ ledger n,
        (100 ≤ n → ((Clause.randomLess n).test .twister ledger t).1 = true) ∧
        (n ≤ 0 → ((Clause.randomLess n).test .twister ledger t).1 = false) := by
  refine ⟨⟨.of (ofSeed seed), Memory.ofSeed_eq seed hcells, Memory.wellFormed_of _, ?_⟩, ?_⟩
  · exact Memory.serveAll_of (ofSeed seed) calls
  · intro replies t h
    exact ⟨serveAll_answered h, Memory.wellFormed_of t, fun count => bits_lt count t,
      fun upper hpos hlt => exists_serve_int hpos hlt t,
      fun ledger n => Clause.test_randomLess ledger n t⟩

/-- A bound of 0 is refused, another seed is taken, and a number below 5 is drawn. -/
theorem serveAll_contract_reseeded :
    (List.replicate 624 0).length = 624 ∧
      ∃ n t, (ofSeed (-7)).serveAll [.int 0, .seed 3, .int 5]
          = some ([.refused .emptyRange, .done, .number n], t) ∧
        n < 5 ∧ (t.bits 70).1 < 2 ^ 70 := by
  have hlength : (List.replicate 624 0).length = 624 := List.length_replicate
  obtain ⟨n, t, hserve⟩ := @exists_serve_int 5 (by decide) (by decide) (ofSeed 3)
  have hall : (ofSeed (-7)).serveAll [.int 0, .seed 3, .int 5]
      = some ([.refused .emptyRange, .done, .number n], t) := by
    rw [serveAll_cons (serve_int_of_nonpos _ (Int.le_refl 0)), serveAll_cons rfl,
      serveAll_cons hserve]
    rfl
  obtain ⟨-, hafter⟩ := serveAll_contract (-7) hlength [.int 0, .seed 3, .int 5]
  obtain ⟨hanswered, -, hbits, -, -⟩ := hafter _ _ hall
  have hlast : Call.Answered (.int 5) (.number n) :=
    (List.forall₂_cons.1 (List.forall₂_cons.1 (List.forall₂_cons.1 hanswered).2).2).1
  exact ⟨hlength, n, t, hall, by have hlt := hlast.2; omega, hbits 70⟩

end Proviso.Twister
