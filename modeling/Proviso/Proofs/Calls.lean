/-
  Where the values of a document are read.

  Reading a value, the items of a list, the pairs of a table in braces or the statements of a
  document goes on with one of the others on what is left. `Calls` tells what it can go on with,
  and where: at first, or behind what has been read without a fault. Whatever is stopped by a
  number is a value that is too long or goes on with what is stopped
  (`Task.Stops.value_or_passes`), and what goes on with what is stopped is stopped itself
  (`Task.Stops.of_calls`). So a document is refused for a number that is too long exactly if such
  a number stands where one of its values is read (`Document.parse_eq_error_iff`). In a string, a
  key or a comment it does no harm, and neither does it behind a place where the document is not
  well formed.
-/
import Mathlib.Logic.Relation
import Proviso.Proofs.Spellings

namespace Proviso.Toml

open Relation (ReflTransGen)

/-! ## Readers that stop -/

/-- The reader is stopped by a number. -/
def Stops {α : Type} (r : Reader α) (t : Text) (fault : Numeral.Fault) : Prop :=
  r.run t = .error (.numeral fault)

namespace Stops

variable {α β : Type} {t : Text} {fault : Numeral.Fault}

theorem bind_iff {r : Reader α} {f : α → Reader β} :
    Stops (r >>= f) t fault ↔
      Stops r t fault ∨ ∃ a rest, r.run t = .ok (a, rest) ∧ Stops (f a) rest fault := by
  unfold Stops
  rw [StateT.run_bind]
  cases hrun : r.run t with
  | ok x =>
    constructor
    · exact fun h => .inr ⟨x.1, x.2, rfl, h⟩
    · rintro (h | ⟨a, rest, heq, h⟩)
      · exact nomatch h
      · rw [Except.ok.inj heq]
        exact h
  | error f =>
    constructor
    · exact fun h => .inl (congrArg Except.error (Except.error.inj h))
    · rintro (h | ⟨a, rest, heq, -⟩)
      · exact congrArg Except.error (Except.error.inj h)
      · exact nomatch heq

/-- Behind what is read without a fault, the rest stops. -/
theorem of_run {r : Reader α} {f : α → Reader β} {a : α} {rest : Text}
    (hrun : r.run t = .ok (a, rest)) (h : Stops (f a) rest fault) : Stops (r >>= f) t fault :=
  bind_iff.2 (.inr ⟨a, rest, hrun, h⟩)

/-- What reads no number does not stop. -/
theorem of_bind {r : Reader α} {f : α → Reader β} (h : Stops (r >>= f) t fault)
    (hr : ¬ Stops r t fault) : ∃ a rest, r.run t = .ok (a, rest) ∧ Stops (f a) rest fault :=
  (bind_iff.1 h).resolve_left hr

/-- What is left is looked at. -/
theorem of_get {f : Text → Reader β} (h : Stops (MonadState.get >>= f) t fault) :
    Stops (f t) t fault := h

/-- The reader has gone on to a place further on. -/
theorem of_set {u : Text} {f : PUnit → Reader β} (h : Stops (MonadStateOf.set u >>= f) t fault) :
    Stops (f ⟨⟩) u fault := h

theorem of_modify {g : Text → Text} {f : PUnit → Reader β}
    (h : Stops ((modify g : Reader PUnit) >>= f) t fault) : Stops (f ⟨⟩) (g t) fault := h

theorem get {f : Text → Reader β} (h : Stops (f t) t fault) :
    Stops (MonadState.get >>= f) t fault := h

theorem set {u : Text} {f : PUnit → Reader β} (h : Stops (f ⟨⟩) u fault) :
    Stops (MonadStateOf.set u >>= f) t fault := h

theorem modify {g : Text → Text} {f : PUnit → Reader β} (h : Stops (f ⟨⟩) (g t) fault) :
    Stops ((modify g : Reader PUnit) >>= f) t fault := h

theorem map {r : Reader α} {f : α → β} (h : Stops r t fault) :
    Stops (r >>= fun a => pure (f a)) t fault := bind_iff.2 (.inl h)

/-- What is done with a result behind its reading does not stop. -/
theorem of_map {r : Reader α} {f : α → β} (h : Stops (r >>= fun a => pure (f a)) t fault) :
    Stops r t fault :=
  (bind_iff.1 h).resolve_right fun ⟨_, _, _, h⟩ => nomatch h

theorem not_pure (a : α) : ¬ Stops (pure a) t fault := nofun

theorem not_fail : ¬ Stops (Reader.fail : Reader α) t fault := nofun

theorem not_ofOption (read : Text → Option (α × Text)) :
    ¬ Stops (Reader.ofOption read) t fault := Reader.run_ofOption_ne_numeral fault

theorem not_skipComment : ¬ Stops skipComment t fault := by
  intro h
  unfold skipComment at h
  replace h := h.of_get
  split at h
  · split at h
    · exact not_fail h
    · exact nomatch h
  · exact nomatch h

theorem not_skipBlock (fuel : Nat) : ¬ Stops (skipBlock fuel) t fault := by
  induction fuel generalizing t with
  | zero => exact not_pure _
  | succ fuel ih =>
    intro h
    unfold skipBlock at h
    replace h := h.of_modify.of_get
    split at h
    · obtain ⟨_, _, -, h⟩ := h.of_bind not_skipComment
      exact ih h
    · exact nomatch h

theorem not_skipBlocks : ¬ Stops skipBlocks t fault := fun h => not_skipBlock _ h.of_get

end Stops

/-! ## Tasks -/

/-- What is read. -/
inductive Task where
  | value (fuel : Nat)
  | items (fuel : Nat)
  | pairs (fuel : Nat) (table : Table) (complete : List (List Text))
  | statements (fuel : Nat) (d : Document)

/-- Reading it from the text is stopped by a number. -/
def Task.Stops : Task × Text → Numeral.Fault → Prop
  | (value fuel, t), fault => Toml.Stops (readValue fuel) t fault
  | (items fuel, t), fault => Toml.Stops (readItems fuel) t fault
  | (pairs fuel table complete, t), fault => Toml.Stops (readPairs fuel table complete) t fault
  | (statements fuel d, t), fault => Toml.Stops (d.readAll fuel) t fault

/-- What reading one thing goes on with. -/
inductive Calls : Task × Text → Task × Text → Prop
  /-- The items of a list behind its opening bracket. -/
  | list {fuel : Nat} {t u : Text} (hskip : skipBlocks.run t = .ok ((), u)) :
    Calls (.value (fuel + 1), '[' :: t) (.items fuel, u)
  /-- The pairs of a table behind its opening brace, if there are any. -/
  | table {fuel : Nat} {t : Text} (hopen : ∀ u, t.dropWhile isGap ≠ '}' :: u) :
    Calls (.value (fuel + 1), '{' :: t) (.pairs fuel [] [], t.dropWhile isGap)
  /-- The first of some items. -/
  | item {fuel : Nat} {t : Text} (hopen : ∀ u, t ≠ ']' :: u) :
    Calls (.items (fuel + 1), t) (.value fuel, t)
  /-- The items behind the first one. -/
  | nextItems {fuel : Nat} {t u v w : Text} {x : Value} (hopen : ∀ u, t ≠ ']' :: u)
      (hitem : (readValue fuel).run t = .ok (x, u))
      (hcomma : skipBlocks.run u = .ok ((), ',' :: v)) (hskip : skipBlocks.run v = .ok ((), w)) :
    Calls (.items (fuel + 1), t) (.items fuel, w)
  /-- The value of the first of some pairs. -/
  | pair {fuel : Nat} {table : Table} {complete : List (List Text)} {t u : Text} {key : List Text}
      (hkey : readKey.run t = .ok (key, '=' :: u)) :
    Calls (.pairs (fuel + 1) table complete, t) (.value fuel, u.dropWhile isGap)
  /-- The pairs behind the first one. -/
  | nextPairs {fuel : Nat} {table table' : Table} {complete : List (List Text)} {t u v w : Text}
      {key : List Text} {x : Value} (hkey : readKey.run t = .ok (key, '=' :: u))
      (hvalue : (readValue fuel).run (u.dropWhile isGap) = .ok (x, v))
      (hcovers : covers complete key = false)
      (hadd : table.alter false (Table.add? (key.getLastD []) x) key.dropLast = some table')
      (hcomma : v.dropWhile isGap = ',' :: w) :
    Calls (.pairs (fuel + 1) table complete, t)
      (.pairs fuel table' (if isClosed x then key :: complete else complete), w.dropWhile isGap)
  /-- The value of a statement. -/
  | assignment {fuel : Nat} {d : Document} {t u v : Text} {c : Char} {key : List Text}
      (hgap : t.dropWhile isGap = c :: u) (hc : c ≠ '\n' ∧ c ≠ '#' ∧ c ≠ '[')
      (hkey : readKey.run (c :: u) = .ok (key, '=' :: v)) :
    Calls (.statements (fuel + 1) d, t) (.value (2 * (c :: u).length + 2), v.dropWhile isGap)
  /-- The statements behind an empty line. -/
  | blank {fuel : Nat} {d : Document} {t u : Text} (hgap : t.dropWhile isGap = '\n' :: u) :
    Calls (.statements (fuel + 1) d, t) (.statements fuel d, u)
  /-- The statements behind a line with one, or with a comment. -/
  | line {fuel : Nat} {d d' : Document} {t u v w : Text} {c : Char}
      (hgap : t.dropWhile isGap = c :: u) (hc : c ≠ '\n')
      (hread : (if c = '#' then pure d else d.readStatement).run (c :: u) = .ok (d', v))
      (hcomment : skipComment.run (v.dropWhile isGap) = .ok ((), '\n' :: w)) :
    Calls (.statements (fuel + 1) d, t) (.statements fuel d', w)

/-! ## One step -/

theorem run_expect_eq_ok_iff {c : Char} {t rest : Text} :
    (expect c).run t = .ok ((), rest) ↔ t = c :: rest := by
  unfold expect
  rw [Reader.run_ofOption_eq_ok_iff, Option.map_eq_some_iff]
  constructor
  · rintro ⟨u, hu, heq⟩
    rw [eq_append_of_after? hu, (Prod.mk.inj heq).2]
    rfl
  · rintro rfl
    exact ⟨rest, by rw [Text.after?, if_pos rfl]; rfl, rfl⟩

/-- The task goes on with something that is stopped. -/
def Task.Passes (stage : Task × Text) (fault : Numeral.Fault) : Prop :=
  ∃ stage', Calls stage stage' ∧ Task.Stops stage' fault

section Steps

open Stops

variable {t : Text} {fault : Numeral.Fault}

theorem readValue_stops {fuel : Nat} (h : Stops (readValue (fuel + 1)) t fault) :
    (∃ digits, BeginsOverlong t digits ∧ fault = .tooLongToRead digits) ∨
      Task.Passes (.value (fuel + 1), t) fault := by
  unfold readValue at h
  replace h := h.of_get
  split at h
  · next u =>
    obtain ⟨_, v, hskip, h⟩ := h.of_set.of_bind not_skipBlocks
    exact .inr ⟨_, .list hskip, h.of_map⟩
  · next u =>
    replace h := h.of_set.of_get
    split at h
    · exact absurd h.of_set (not_pure _)
    · next hopen =>
      exact .inr ⟨_, .table hopen, h.of_map⟩
  · exact absurd h.of_map (not_ofOption _)
  · exact absurd h.of_map (not_ofOption _)
  · split at h
    · exact absurd h.of_set (not_pure _)
    · exact absurd h.of_set (not_pure _)
    · exact .inl (readScalar_eq_error_iff.1 h)

theorem readItems_stops {fuel : Nat} (h : Stops (readItems (fuel + 1)) t fault) :
    Task.Passes (.items (fuel + 1), t) fault := by
  unfold readItems at h
  replace h := h.of_get
  split at h
  · exact absurd h.of_set (not_pure _)
  · next hopen =>
    rcases bind_iff.1 h with h | ⟨x, u, hitem, h⟩
    · exact ⟨_, .item hopen, h⟩
    · obtain ⟨_, v, hcomma, h⟩ := h.of_bind not_skipBlocks
      replace h := h.of_get
      split at h
      · exact absurd h.of_set (not_pure _)
      · obtain ⟨_, w, hskip, h⟩ := h.of_set.of_bind not_skipBlocks
        exact ⟨_, .nextItems hopen hitem hcomma hskip, h.of_map⟩
      · exact absurd h not_fail

theorem readPairs_stops {fuel : Nat} {table : Table} {complete : List (List Text)}
    (h : Stops (readPairs (fuel + 1) table complete) t fault) :
    Task.Passes (.pairs (fuel + 1) table complete, t) fault := by
  unfold readPairs at h
  obtain ⟨key, s, hkey, h⟩ := h.of_bind (not_ofOption _)
  obtain ⟨_, u, hequals, h⟩ := h.of_bind (not_ofOption _)
  rw [run_expect_eq_ok_iff.1 hequals] at hkey
  replace h := h.of_modify
  rcases bind_iff.1 h with h | ⟨x, v, hvalue, h⟩
  · exact ⟨_, .pair hkey, h⟩
  · split at h
    · exact absurd h not_fail
    · next hcovers =>
      split at h
      · exact absurd h not_fail
      · next table' hadd =>
        replace h := h.of_modify.of_get
        split at h
        · exact absurd h.of_set (not_pure _)
        · next w hcomma =>
          exact ⟨_, .nextPairs hkey hvalue (Bool.eq_false_iff.2 hcovers) hadd hcomma,
            h.of_set.of_modify⟩
        · exact absurd h not_fail

/-- A statement is stopped by its value. -/
theorem readStatement_stops {d : Document} (h : Stops d.readStatement t fault) :
    (∀ u, t ≠ '[' :: u) ∧ ∃ key u, readKey.run t = .ok (key, '=' :: u) ∧
      Stops (readValue (2 * t.length + 2)) (u.dropWhile isGap) fault := by
  unfold Document.readStatement at h
  replace h := h.of_get
  split at h
  · obtain ⟨key, _, -, h⟩ := h.of_set.of_bind (not_ofOption _)
    split at h
    · exact absurd h not_fail
    · obtain ⟨_, _, -, h⟩ := h.of_bind (not_ofOption _)
      exact absurd h.of_map (not_ofOption _)
  · obtain ⟨key, _, -, h⟩ := h.of_set.of_bind (not_ofOption _)
    split at h
    · exact absurd h not_fail
    · exact absurd h.of_map (not_ofOption _)
  · next _ hopen =>
    obtain ⟨key, s, hkey, h⟩ := h.of_bind (not_ofOption _)
    obtain ⟨_, u, hequals, h⟩ := h.of_bind (not_ofOption _)
    rw [run_expect_eq_ok_iff.1 hequals] at hkey
    replace h := h.of_modify
    rcases bind_iff.1 h with h | ⟨x, v, -, h⟩
    · exact ⟨hopen, key, u, hkey, h⟩
    · split at h
      · exact absurd h not_fail
      · exact absurd h (not_pure _)

theorem readAll_stops {fuel : Nat} {d : Document} (h : Stops (d.readAll (fuel + 1)) t fault) :
    Task.Passes (.statements (fuel + 1) d, t) fault := by
  unfold Document.readAll at h
  replace h := h.of_modify.of_get
  split at h
  · exact absurd h (not_pure _)
  · next u hgap => exact ⟨_, .blank hgap, h.of_set⟩
  · next c u hbreak hgap =>
    extract_lets lineEnd at h
    have hend : ∀ d' v, (if c = '#' then pure d else d.readStatement).run (c :: u) = .ok (d', v) →
        Stops (lineEnd d') v fault → Task.Passes (.statements (fuel + 1) d, t) fault := by
      intro d' v hread h
      obtain ⟨_, w, hcomment, h⟩ := h.of_modify.of_bind not_skipComment
      replace h := h.of_get
      split at h
      · exact absurd h (not_pure _)
      · next w => exact ⟨_, .line hgap hbreak hread hcomment, h.of_set⟩
      · exact absurd h not_fail
    rw [hgap] at h
    split at h
    · next hmark => exact hend d (c :: u) (by rw [if_pos hmark]; rfl) h
    · next hmark =>
      rcases bind_iff.1 h with h | ⟨d', v, hread, h⟩
      · obtain ⟨hopen, key, v, hkey, hvalue⟩ := readStatement_stops h
        have hc : c ≠ '[' := by
          rintro rfl
          exact hopen u rfl
        exact ⟨_, .assignment hgap ⟨hbreak, hmark, hc⟩ hkey, hvalue⟩
      · exact hend d' v (by rw [if_neg hmark]; exact hread) h

theorem readStatement_of_value {d : Document} {c : Char} {u v : Text} {key : List Text}
    (hc : c ≠ '[') (hkey : readKey.run (c :: u) = .ok (key, '=' :: v))
    (h : Stops (readValue (2 * (c :: u).length + 2)) (v.dropWhile isGap) fault) :
    Stops d.readStatement (c :: u) fault := by
  unfold Document.readStatement
  refine get ?_
  split
  · next heq => exact absurd (List.cons.inj heq).1 hc
  · next heq => exact absurd (List.cons.inj heq).1 hc
  · refine of_run hkey (of_run (run_expect_eq_ok_iff.2 rfl) (of_run (run_skipGap v) ?_))
    exact bind_iff.2 (.inl h)

/-- What goes on with something that is stopped is stopped. -/
theorem Task.Stops.of_calls {stage stage' : Task × Text} (hcalls : Calls stage stage')
    (h : Task.Stops stage' fault) : Task.Stops stage fault := by
  cases hcalls with
  | list hskip =>
    unfold Task.Stops readValue
    exact get (set (of_run hskip (map h)))
  | table hopen =>
    unfold Task.Stops readValue
    refine get (set (get ?_))
    split
    · next heq => exact absurd heq (hopen _)
    · exact map h
  | item hopen =>
    unfold Task.Stops readItems
    refine get ?_
    split
    · exact absurd rfl (hopen _)
    · exact bind_iff.2 (.inl h)
  | nextItems hopen hitem hcomma hskip =>
    unfold Task.Stops readItems
    refine get ?_
    split
    · exact absurd rfl (hopen _)
    · exact of_run hitem (of_run hcomma (get (set (of_run hskip (map h)))))
  | pair hkey =>
    unfold Task.Stops readPairs
    refine of_run hkey (of_run (run_expect_eq_ok_iff.2 rfl) (modify ?_))
    exact bind_iff.2 (.inl h)
  | nextPairs hkey hvalue hcovers hadd hcomma =>
    unfold Task.Stops readPairs
    refine of_run hkey (of_run (run_expect_eq_ok_iff.2 rfl) (modify (of_run hvalue ?_)))
    rw [hcovers, hadd]
    refine modify (get ?_)
    rw [hcomma]
    exact set (modify h)
  | assignment hgap hc hkey =>
    obtain ⟨hbreak, hmark, hopen⟩ := hc
    unfold Task.Stops Document.readAll
    refine modify (get ?_)
    rw [hgap]
    split
    · next heq => exact absurd heq (List.cons_ne_nil _ _)
    · next heq => exact absurd (List.cons.inj heq).1 hbreak
    · next heq =>
      obtain ⟨rfl, rfl⟩ := List.cons.inj heq
      rw [if_neg hmark]
      exact bind_iff.2 (.inl (readStatement_of_value hopen hkey h))
  | blank hgap =>
    unfold Task.Stops Document.readAll
    refine modify (get ?_)
    rw [hgap]
    exact set h
  | @line _ d _ _ _ _ _ c hgap hc hread hcomment =>
    unfold Task.Stops Document.readAll
    refine modify (get ?_)
    rw [hgap]
    split
    · next heq => exact absurd heq (List.cons_ne_nil _ _)
    · next heq => exact absurd (List.cons.inj heq).1 hc
    · next heq =>
      obtain ⟨rfl, rfl⟩ := List.cons.inj heq
      extract_lets lineEnd
      have hend := of_run (f := lineEnd) hread (modify (of_run hcomment (get (set h))))
      split
      · next hmark => rwa [if_pos hmark] at hend
      · next hmark => rwa [if_neg hmark] at hend

end Steps

/-! ## The whole run -/

/-- How much is left to a task: statements go on with fewer of them or with a value, and everything
else goes on with less fuel. -/
def Task.rank : Task → Nat × Nat
  | value fuel => (0, fuel)
  | items fuel => (0, fuel)
  | pairs fuel _ _ => (0, fuel)
  | statements fuel _ => (1, fuel)

theorem Calls.rank_lt {stage stage' : Task × Text} (h : Calls stage stage') :
    Prod.Lex (· < ·) (· < ·) stage'.1.rank stage.1.rank := by
  cases h with
  | assignment => exact .left _ _ Nat.zero_lt_one
  | _ => exact .right _ (Nat.lt_succ_self _)

namespace Task.Stops

variable {fault : Numeral.Fault}

/-- A task that is stopped is a value that is too long, or goes on with what is stopped. -/
theorem value_or_passes {stage : Task × Text} (h : Stops stage fault) :
    (∃ fuel p digits, stage = (.value (fuel + 1), p) ∧ BeginsOverlong p digits ∧
      fault = .tooLongToRead digits) ∨ Passes stage fault := by
  match stage, h with
  | (.value (fuel + 1), t), h =>
    refine (readValue_stops h).imp_left ?_
    rintro ⟨digits, hbegins, hfault⟩
    exact ⟨fuel, t, digits, rfl, hbegins, hfault⟩
  | (.items (fuel + 1), t), h => exact .inr (readItems_stops h)
  | (.pairs (fuel + 1) _ _, t), h => exact .inr (readPairs_stops h)
  | (.statements (fuel + 1) _, t), h => exact .inr (readAll_stops h)
  | (.value 0, t), h => exact absurd h Stops.not_fail
  | (.items 0, t), h => exact absurd h Stops.not_fail
  | (.pairs 0 _ _, t), h => exact absurd h Stops.not_fail
  | (.statements 0 _, t), h => exact absurd h (Stops.not_pure _)

theorem exists_value {stage : Task × Text} (h : Stops stage fault) :
    ∃ fuel p digits, ReflTransGen Calls stage (.value (fuel + 1), p) ∧ BeginsOverlong p digits ∧
      fault = .tooLongToRead digits := by
  rcases value_or_passes h with ⟨fuel, p, digits, rfl, hbegins, hfault⟩ | ⟨stage', hcalls, h⟩
  · exact ⟨fuel, p, digits, .refl, hbegins, hfault⟩
  · obtain ⟨fuel, p, digits, hreads, hbegins, hfault⟩ := exists_value h
    exact ⟨fuel, p, digits, .head hcalls hreads, hbegins, hfault⟩
termination_by stage.1.rank
decreasing_by exact hcalls.rank_lt

theorem of_reads {stage stage' : Task × Text} (hreads : ReflTransGen Calls stage stage')
    (h : Stops stage' fault) : Stops stage fault := by
  induction hreads using ReflTransGen.head_induction_on with
  | refl => exact h
  | head hcalls _ ih => exact of_calls hcalls ih

/-- A value that is too long is stopped, being known by none of its characters. -/
theorem of_begins {p : Text} {digits : Nat} (h : BeginsOverlong p digits) (fuel : Nat) :
    Stops (.value (fuel + 1), p) (.tooLongToRead digits) := by
  have hscalar := readScalar_eq_error_iff.2 ⟨digits, h, rfl⟩
  obtain ⟨c, t, rfl, hc⟩ := h.exists_cons
  exact (run_readValue_scalar hc t fuel).trans hscalar

end Task.Stops

/-! ## Documents -/

namespace Document

/-- One of the values of the document is read where `p` is left of it. -/
def ReadsValueAt (t p : Text) : Prop :=
  let t := Text.joinReturns t
  ∃ fuel, ReflTransGen Calls (.statements (t.length + 1) .empty, t) (.value (fuel + 1), p)

/-- The value of the first statement is read. -/
theorem readsValueAt_first {c : Char} {u v : Text} {key : List Text} (hreturn : '\r' ∉ c :: u)
    (hc : isGap c = false ∧ c ≠ '\n' ∧ c ≠ '#' ∧ c ≠ '[')
    (hkey : readKey.run (c :: u) = .ok (key, '=' :: v)) :
    ReadsValueAt (c :: u) (v.dropWhile isGap) := by
  have hgap : (c :: u).dropWhile isGap = c :: u := List.dropWhile_cons_of_neg (by simp [hc.1])
  have hcalls : Calls (.statements ((c :: u).length + 1) .empty, c :: u)
      (.value (2 * (c :: u).length + 2), v.dropWhile isGap) := .assignment hgap hc.2 hkey
  unfold ReadsValueAt
  rw [Text.joinReturns_of_not_mem hreturn]
  exact ⟨_, .single hcalls⟩

theorem parse_eq_error_iff_stops {t : Text} {fault : Numeral.Fault} :
    parse t = .error (.numeral fault) ↔
      Task.Stops (.statements ((Text.joinReturns t).length + 1) .empty, Text.joinReturns t)
        fault := by
  unfold parse Task.Stops Stops
  dsimp only
  cases (readAll ((Text.joinReturns t).length + 1) .empty).run (Text.joinReturns t) with
  | ok x => exact ⟨nofun, nofun⟩
  | error f =>
    exact ⟨fun h => congrArg Except.error (Except.error.inj h),
      fun h => congrArg Except.error (Except.error.inj h)⟩

/-- A document is refused for a number exactly if a decimal integer of too many digits stands where
one of its values is read. -/
theorem parse_eq_error_iff {t : Text} {fault : Numeral.Fault} :
    parse t = .error (.numeral fault) ↔
      ∃ p digits, ReadsValueAt t p ∧ BeginsOverlong p digits ∧
        fault = .tooLongToRead digits := by
  rw [parse_eq_error_iff_stops]
  constructor
  · intro h
    obtain ⟨fuel, p, digits, hreads, hbegins, hfault⟩ := Task.Stops.exists_value h
    exact ⟨p, digits, ⟨fuel, hreads⟩, hbegins, hfault⟩
  · rintro ⟨p, digits, ⟨fuel, hreads⟩, hbegins, rfl⟩
    exact .of_reads hreads (.of_begins hbegins fuel)

end Document

end Proviso.Toml
