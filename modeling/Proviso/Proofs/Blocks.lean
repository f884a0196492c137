/-
  Saving that fails inside a block.

  A rule is saved as one row for each of its clauses and for each rule nested in it, the members of
  a group one level deeper than the word for its mode (`rows`). Saving writes these rows up to the
  first one that cannot be written (`writes_save`). Without a fault it is back at the depth that it
  began with; with one, the draft stays at the depth of the row that failed, as the blocks around
  that row are not closed any more (`save_stops_in_place`). So a fault leaves the depth alone
  exactly if it is that of a clause of the saved rule itself, and moves what is written afterwards
  if the clause is in a group (`save_leaves_block_open`).
-/
import Proviso.Proofs.Quoting
import Proviso.Proofs.Reporting

namespace Proviso

open Outline (Draft Line Node Word rowText)
open Outline.Token (Writable)

/-! ## Faults of rows -/

/-- Words to be written as one line at a depth. -/
structure Row where
  depth : Nat
  words : List Word
  deriving DecidableEq, Repr

/-- Why a row cannot be written, if it cannot. -/
def Row.fault? (row : Row) : Option Draft.Fault := row.words.findSome? Word.fault?

/-- The line of a row, with its depth. -/
def Row.entry (row : Row) : Nat × Line := (row.depth, .bare (row.words.map Word.text))

/-- Why a clause cannot be saved, if it cannot: its name has no written form, or its operand has too
many digits. -/
def Clause.fault? (c : Clause) : Option Draft.Fault :=
  if ¬ Writable c.name then some (.unquotable c.name)
  else if Numeral.fits c.operand then none
  else some (.numeral .tooLongToWrite)

theorem Outline.Word.fault?_token (t : Text) :
    (Word.token t).fault? = if ¬ Token.Writable t then some (.unquotable t) else none :=
  if_congr Outline.Token.not_writable_iff.symm rfl rfl

theorem Outline.Word.fault?_integer (i : Int) :
    (Word.integer i).fault?
      = if Numeral.fits i then none else some (.numeral .tooLongToWrite) := by
  by_cases h : Numeral.maxDigits < (Text.ofNat i.natAbs).length
  · have hfits : Numeral.fits i = false := decide_eq_false (Nat.not_le_of_lt h)
    rw [hfits]
    exact if_pos h
  · have hfits : Numeral.fits i = true := decide_eq_true (Nat.le_of_not_lt h)
    rw [hfits]
    exact if_neg h

theorem Clause.fault?_words (c : Clause) : c.words.findSome? Word.fault? = c.fault? := by
  have hspelling : (Word.token c.operator.spelling).fault? = none := by
    have hw := Outline.Token.writable_of_bare c.operator.needsQuotes_spelling
    rw [Word.fault?_token, if_neg (not_not.2 hw)]
  rw [Clause.words, List.findSome?_cons, List.findSome?_cons, hspelling, List.findSome?_singleton,
    Word.fault?_token, Word.fault?_integer, Clause.fault?]
  by_cases hname : Writable c.name
  · rw [if_neg (not_not.2 hname), if_neg (not_not.2 hname)]
  · rw [if_pos hname, if_pos hname]

theorem Mode.fault?_word (m : Mode) (depth : Nat) :
    Row.fault? ⟨depth, [.token m.word]⟩ = none := by
  cases m <;> rfl

/-! ## Writing up to a fault -/

namespace Saving

/-- What becomes of writing rows behind a draft: all of them are written and the depth is the one
before, or those in front of the first that has a fault, and the depth is that of the latter. -/
inductive Writes (d : Draft) (rows : List Row) : Saving → Prop
  | toEnd (h : ∀ row ∈ rows, row.fault? = none) : Writes d rows (.wrote d (rows.map Row.entry))
  | upTo {before after : List Row} {row : Row} {fault : Draft.Fault}
      (hrows : rows = before ++ row :: after) (hbefore : ∀ b ∈ before, b.fault? = none)
      (hfault : row.fault? = some fault) :
      Writes d rows ⟨{ d.extend (before.map Row.entry) with depth := row.depth }, some fault⟩

theorem writes_nil (d : Draft) : Writes d [] ⟨d, none⟩ := by
  have h : Writes d [] (wrote d []) := .toEnd (List.forall_mem_nil _)
  rwa [wrote, Draft.extend_nil] at h

/-- A line is written at the depth of the draft. -/
theorem writes_attempt (d : Draft) (words : List Word) :
    Writes d [⟨d.depth, words⟩] (attempt d (·.write words)) := by
  cases hfault : words.findSome? Word.fault? with
  | none =>
    have hwords : ∀ w ∈ words, w.Writable := fun w hw =>
      Word.writable_of_fault? (List.findSome?_eq_none_iff.1 hfault w hw)
    rw [attempt_of_ok (Draft.write_of_writable d hwords)]
    exact .toEnd (by simpa [Row.fault?] using hfault)
  | some fault =>
    have hwrite : d.write words = .error fault := by
      rw [Draft.write, Word.mapM_write_of_fault? hfault]
      rfl
    have hstop : attempt d (·.write words) = ⟨d, some fault⟩ := by
      rw [attempt, hwrite]
    have h := @Writes.upTo d _ [] [] ⟨d.depth, words⟩ fault rfl (List.forall_mem_nil _) hfault
    rwa [List.map_nil, Draft.extend_nil, ← hstop] at h

variable {d : Draft} {rows more : List Row} {s : Saving}

/-- What is written next comes behind the rows so far, unless one of them has a fault. -/
theorem Writes.andThen (h : Writes d rows s) {next : Draft → Saving}
    (hnext : ∀ d', d'.depth = d.depth → Writes d' more (next d')) :
    Writes d (rows ++ more) (s.andThen next) := by
  cases h with
  | toEnd h =>
    show Writes d _ (next (d.extend (rows.map Row.entry)))
    have hmore := hnext (d.extend (rows.map Row.entry)) rfl
    generalize next (d.extend (rows.map Row.entry)) = s' at hmore
    cases hmore with
    | toEnd hmore =>
      rw [wrote, ← Draft.extend_append, ← List.map_append]
      exact .toEnd (List.forall_mem_append.2 ⟨h, hmore⟩)
    | @upTo before after row fault hrows hbefore hfault =>
      rw [← Draft.extend_append, ← List.map_append]
      have hall : rows ++ more = (rows ++ before) ++ row :: after := by
        rw [hrows, List.append_assoc]
      exact .upTo hall (List.forall_mem_append.2 ⟨h, hbefore⟩) hfault
  | @upTo before after row fault hrows hbefore hfault =>
    have hall : rows ++ more = before ++ row :: (after ++ more) := by
      rw [hrows, List.append_assoc, List.cons_append]
    exact .upTo hall hbefore hfault

/-- A block is closed behind its rows if none of them has a fault, and stays open otherwise. -/
theorem Writes.block (h : Writes d.openBlock rows s) :
    Writes d rows (s.andThen fun d => attempt d Draft.closeBlock) := by
  cases h with
  | toEnd h => exact .toEnd h
  | upTo hrows hbefore hfault => exact .upTo hrows hbefore hfault

/-- The fault is that of the first row that has one. -/
theorem Writes.fault_eq (h : Writes d rows s) : s.fault = rows.findSome? Row.fault? := by
  cases h with
  | toEnd h => exact (List.findSome?_eq_none_iff.2 h).symm
  | upTo hrows hbefore hfault =>
    rw [hrows, List.findSome?_append, List.findSome?_eq_none_iff.2 hbefore, Option.none_or,
      List.findSome?_cons, hfault]

end Saving

namespace Rule

/-! ## The rows of a rule -/

mutual

/-- The rows of the members of a rule: its clauses, then its groups. -/
def rows (depth : Nat) : Rule → List Row
  | ⟨_, cs, gs⟩ => cs.map (fun c => ⟨depth, c.words⟩) ++ rowsOf depth gs

/-- The rows of groups: the word for the mode of each, and its members one level deeper. -/
def rowsOf (depth : Nat) : List Rule → List Row
  | [] => []
  | g :: gs => ⟨depth, [.token g.mode.word]⟩ :: (rows (depth + 1) g ++ rowsOf depth gs)

end

mutual

/-- The rows are the lines of the members, at their depths. -/
theorem entry_rows (depth : Nat) : (r : Rule) →
    (r.rows depth).map Row.entry = Node.entriesAll depth r.members
  | ⟨_, cs, gs⟩ => by
    rw [rows, members, Node.entriesAll_append, entriesAll_leaves, List.map_append, List.map_map,
      entry_rowsOf depth gs]
    rfl

theorem entry_rowsOf (depth : Nat) : (gs : List Rule) →
    (rowsOf depth gs).map Row.entry = Node.entriesAll depth (membersOf gs)
  | [] => rfl
  | g :: gs => by
    rw [rowsOf, membersOf, Node.entriesAll, Node.entries, List.map_cons, List.map_append,
      entry_rows (depth + 1) g, entry_rowsOf depth gs]
    rfl

end

mutual

/-- There is one row for each clause and one for each nested rule. -/
theorem length_rows (depth : Nat) : (r : Rule) →
    (r.rows depth).length = r.allClauses.length + r.nested.length
  | ⟨_, cs, gs⟩ => by
    rw [rows, allClauses, nested, List.length_append, List.length_append, List.length_map,
      length_rowsOf depth gs, Nat.add_assoc]

theorem length_rowsOf (depth : Nat) : (gs : List Rule) →
    (rowsOf depth gs).length = (allClausesOf gs).length + (nestedOf gs).length
  | [] => rfl
  | g :: gs => by
    rw [rowsOf, allClausesOf, nestedOf, List.length_cons, List.length_cons, List.length_append,
      List.length_append, List.length_append, length_rows (depth + 1) g, length_rowsOf depth gs]
    omega

end

theorem findSome?_clauseRows (depth : Nat) (cs : List Clause) :
    (cs.map fun c => (⟨depth, c.words⟩ : Row)).findSome? Row.fault?
      = cs.findSome? Clause.fault? := by
  rw [List.findSome?_map]
  exact congrArg (cs.findSome? ·) (funext Clause.fault?_words)

mutual

/-- The first fault of the rows is that of the first clause that has one: the words for modes have
none. -/
theorem findSome?_rows (depth : Nat) : (r : Rule) →
    (r.rows depth).findSome? Row.fault? = r.allClauses.findSome? Clause.fault?
  | ⟨_, cs, gs⟩ => by
    rw [rows, allClauses, List.findSome?_append, List.findSome?_append, findSome?_clauseRows,
      findSome?_rowsOf depth gs]

theorem findSome?_rowsOf (depth : Nat) : (gs : List Rule) →
    (rowsOf depth gs).findSome? Row.fault? = (allClausesOf gs).findSome? Clause.fault?
  | [] => rfl
  | g :: gs => by
    rw [rowsOf, allClausesOf, List.findSome?_cons, Mode.fault?_word, List.findSome?_append,
      List.findSome?_append, findSome?_rows (depth + 1) g, findSome?_rowsOf depth gs]

end

mutual

theorem le_depth_of_mem_rows {depth : Nat} {row : Row} : (r : Rule) → row ∈ r.rows depth →
    depth ≤ row.depth
  | ⟨_, cs, gs⟩, h => by
    rw [rows, List.mem_append] at h
    rcases h with h | h
    · obtain ⟨c, -, rfl⟩ := List.mem_map.1 h
      exact Nat.le_refl depth
    · exact le_depth_of_mem_rowsOf gs h

theorem le_depth_of_mem_rowsOf {depth : Nat} {row : Row} : (gs : List Rule) →
    row ∈ rowsOf depth gs → depth ≤ row.depth
  | [], h => absurd h List.not_mem_nil
  | g :: gs, h => by
    rw [rowsOf, List.mem_cons, List.mem_append] at h
    rcases h with rfl | h | h
    · exact Nat.le_refl depth
    · exact Nat.le_of_succ_le (le_depth_of_mem_rows g h)
    · exact le_depth_of_mem_rowsOf gs h

end

/-- A row of a group that has a fault stands in the block of the group, or deeper. -/
theorem lt_depth_of_fault? {depth : Nat} {row : Row} (hfault : row.fault? ≠ none) :
    (gs : List Rule) → row ∈ rowsOf depth gs → depth < row.depth
  | [], h => absurd h List.not_mem_nil
  | g :: gs, h => by
    rw [rowsOf, List.mem_cons, List.mem_append] at h
    rcases h with rfl | h | h
    · exact absurd (g.mode.fault?_word depth) hfault
    · exact le_depth_of_mem_rows g h
    · exact lt_depth_of_fault? hfault gs h

/-! ## Saving -/

theorem writes_saveClauses (cs : List Clause) (d : Draft) :
    Saving.Writes d (cs.map fun c => ⟨d.depth, c.words⟩) (saveClauses cs d) := by
  induction cs generalizing d with
  | nil => exact Saving.writes_nil d
  | cons c cs ih =>
    refine (Saving.writes_attempt d c.words).andThen fun d' hdepth => ?_
    rw [← hdepth]
    exact ih d'

mutual

/-- Saving writes the rows of the rule up to a fault. -/
theorem writes_save : (r : Rule) → (d : Draft) → Saving.Writes d (r.rows d.depth) (r.save d)
  | ⟨_, cs, gs⟩, d => by
    rw [rows, save]
    refine (writes_saveClauses cs d).andThen fun d' hdepth => ?_
    rw [← hdepth]
    exact writes_saveGroups gs d'

theorem writes_saveGroups : (gs : List Rule) → (d : Draft) →
    Saving.Writes d (rowsOf d.depth gs) (saveGroups gs d)
  | [], d => Saving.writes_nil d
  | g :: gs, d => by
    have hgroup : Saving.Writes d (⟨d.depth, [.token g.mode.word]⟩ :: g.rows (d.depth + 1))
        (g.saveUnder [g.mode.word] d) := by
      refine (Saving.writes_attempt d [.token g.mode.word]).andThen fun d' hdepth => ?_
      rw [← hdepth]
      exact (writes_save g d'.openBlock).block
    rw [rowsOf, ← List.cons_append]
    refine hgroup.andThen fun d' hdepth => ?_
    rw [← hdepth]
    exact writes_saveGroups gs d'

end

/-- What stands in a list behind some of it is in the front part of the list, or else the whole
front part stands in front of it. -/
theorem mem_or_subset_of_append_eq {α : Type} {front back before after : List α} {x : α}
    (h : front ++ back = before ++ x :: after) : x ∈ front ∨ x ∈ back ∧ front ⊆ before := by
  rcases List.append_eq_append_iff.1 h with ⟨between, rfl, rfl⟩ | ⟨rest, rfl, hback⟩
  · exact .inr ⟨List.mem_append_right _ List.mem_cons_self, List.subset_append_left _ _⟩
  · cases rest with
    | nil =>
      rw [List.nil_append] at hback
      rw [← hback, List.append_nil]
      exact .inr ⟨List.mem_cons_self, List.Subset.refl _⟩
    | cons first rest =>
      obtain ⟨rfl, -⟩ := List.cons.inj hback
      exact .inl (List.mem_append_right _ List.mem_cons_self)

/-- Among the rows of a rule, the first one with a fault stands at the depth of the rule exactly if
a clause of the rule itself has a fault. -/
theorem depth_eq_iff_of_first {r : Rule} {depth : Nat} {before after : List Row} {row : Row}
    (hrows : r.rows depth = before ++ row :: after) (hbefore : ∀ b ∈ before, b.fault? = none)
    (hfault : row.fault? ≠ none) :
    row.depth = depth ↔ r.clauses.findSome? Clause.fault? ≠ none := by
  obtain ⟨m, cs, gs⟩ := r
  rw [rows] at hrows
  rw [clauses, ← findSome?_clauseRows depth]
  rcases mem_or_subset_of_append_eq hrows with hown | ⟨hgroups, hsubset⟩
  · obtain ⟨c, -, hc⟩ := List.mem_map.1 hown
    have hdepth : row.depth = depth := congrArg Row.depth hc.symm
    exact ⟨fun _ h => hfault (List.findSome?_eq_none_iff.1 h row hown), fun _ => hdepth⟩
  · have hlt := lt_depth_of_fault? hfault gs hgroups
    have hnone := List.findSome?_eq_none_iff.2 fun e he => hbefore e (hsubset he)
    exact ⟨fun h => absurd h (Nat.ne_of_gt hlt), fun h => absurd hnone h⟩

/-- The depth behind saving is the one before if there is no fault, or if a clause of the rule
itself has one. -/
theorem depth_eq_iff_of_writes {r : Rule} {d : Draft} {s : Saving}
    (h : s.Writes d (r.rows d.depth)) :
    s.draft.depth = d.depth ↔ s.fault = none ∨ r.clauses.findSome? Clause.fault? ≠ none := by
  cases h with
  | toEnd h => exact ⟨fun _ => Or.inl rfl, fun _ => rfl⟩
  | upTo hrows hbefore hfault =>
    have hfirst := depth_eq_iff_of_first hrows hbefore (by rw [hfault]; exact Option.some_ne_none _)
    constructor
    · exact fun hdepth => Or.inr (hfirst.1 hdepth)
    · rintro (hnone | hown)
      · exact absurd hnone (Option.some_ne_none _)
      · exact hfirst.2 hown

/-- Saving writes one line for each clause and for each nested rule, those of the members at the
depth of the draft and those of a group's members one level deeper. If no clause has a fault it
writes all of them and returns to the depth of the draft. Otherwise it fails for the reason of the
first clause that has one, behind all lines in front of that clause, and the draft stays at the
depth of that clause: the depth is the one before exactly if the clause is one of the rule's own. -/
theorem save_stops_in_place (r : Rule) (d : Draft) :
    let rows := r.rows d.depth
    let s := r.save d
    rows.map Row.entry = Node.entriesAll d.depth r.members ∧
    rows.length = r.allClauses.length + r.nested.length ∧
    s.Writes d rows ∧
    s.fault = r.allClauses.findSome? Clause.fault? ∧
    (s.draft.depth = d.depth ↔
      s.fault = none ∨ r.clauses.findSome? Clause.fault? ≠ none) := by
  intro rows s
  have hwrites : s.Writes d rows := writes_save r d
  refine ⟨entry_rows d.depth r, length_rows d.depth r, hwrites, ?_, depth_eq_iff_of_writes hwrites⟩
  rw [hwrites.fault_eq, findSome?_rows]

/-- A group whose only clause has a name that holds a blank and both kinds of quotes: saving fails
behind the word for the mode, and the next line is written as if it were a member of the group. -/
theorem save_leaves_block_open :
    let name : Text := ['b', ' ', '"', '\x60']
    let r : Rule := ⟨.all, [], [⟨.any, [⟨name, .compare .equal, 1⟩], []⟩]⟩
    let s := r.save .empty
    s.fault = some (.unquotable name) ∧ s.draft.depth ≠ Draft.empty.depth ∧
      (s.draft.write [.token ['x']]).map Draft.text = .ok ['o', 'r', '\n', '\t', 'x', '\n'] :=
  ⟨rfl, by decide, rfl⟩

end Rule

end Proviso
