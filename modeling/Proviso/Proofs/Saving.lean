/-
  Rules written and loaded again.

  `members` is the tree of lines as which a rule is saved. Saving writes the entries of that tree
  (`save_eq`), the tree says the rule (`rule_members`), and all its lines can be used. So the
  text of a rule under the word for its mode is read and loaded as that rule
  (`load_textWithHeader`). Loading does not depend on the numbers and the texts of lines
  (`ofHeader_of_erase_eq`).
-/
import Proviso.Proofs.Loading
import Proviso.Rule.Saving

namespace Proviso

open Outline (Draft Line Node Position Word)

/-! ## The lines of a rule -/

/-- The clause can be written in one line and found again. -/
structure Clause.Storable (c : Clause) : Prop where
  writable : Outline.Token.Writable c.name
  unbroken : c.name.Unbroken
  fits : Numeral.fits c.operand = true

instance : DecidablePred Clause.Storable := fun c =>
  decidable_of_iff
    (Outline.Token.Writable c.name ∧ c.name.Unbroken ∧ Numeral.fits c.operand = true)
    ⟨fun h => ⟨h.1, h.2.1, h.2.2⟩, fun h => ⟨h.writable, h.unbroken, h.fits⟩⟩

/-- The line of a clause in its full form. -/
def Clause.line (c : Clause) : Line := .bare (c.words.map Word.text)

/-- The line that opens a group. -/
def Mode.line (m : Mode) : Line := .bare [m.word]

namespace Rule

mutual

/-- The lines of the members of a rule, those of each group below the word for its mode. -/
def members : Rule → List Node
  | ⟨_, cs, gs⟩ => cs.map (fun c => ⟨c.line, []⟩) ++ membersOf gs

/-- The lines of groups. -/
def membersOf : List Rule → List Node
  | [] => []
  | g :: gs => ⟨g.mode.line, members g⟩ :: membersOf gs

end

end Rule

theorem Operator.needsQuotes_spelling (op : Operator) :
    Outline.Token.needsQuotes op.spelling = false := by
  cases op with
  | compare c => cases c <;> decide
  | assign a => cases a <;> decide

theorem Operator.ofSpelling?_spelling (op : Operator) : ofSpelling? op.spelling = some op := by
  cases op with
  | compare c => cases c <;> rfl
  | assign a => cases a <;> rfl

theorem Mode.needsQuotes_word (m : Mode) : Outline.Token.needsQuotes m.word = false := by
  cases m <;> decide

theorem Mode.ofWord?_word (m : Mode) : ofWord? m.word = some m := by
  cases m <;> rfl

theorem Mode.ofHeader_word (m : Mode) : ofHeader m.word = m := by
  cases m <;> rfl

theorem Mode.group?_line (m : Mode) : m.line.group? = some m := ofWord?_word m

theorem Mode.sound_line (m : Mode) :
    ∀ t ∈ m.line.tokens, Outline.Token.Writable t ∧ t.Unbroken :=
  List.forall_mem_singleton.2 (Outline.Token.sound_of_bare m.needsQuotes_word)

theorem Mode.clause?_line (m : Mode) : m.line.clause? = none := by
  cases m <;> rfl

theorem Clause.Storable.words {c : Clause} (h : c.Storable) : ∀ w ∈ c.words, w.Writable := by
  intro w hw
  simp only [Clause.words, List.mem_cons, List.not_mem_nil, or_false] at hw
  rcases hw with rfl | rfl | rfl
  · exact h.writable
  · exact Outline.Token.writable_of_bare (Operator.needsQuotes_spelling _)
  · exact h.fits

/-- A clause is found again in its line. -/
theorem Clause.Storable.clause?_line {c : Clause} (h : c.Storable) : c.line.clause? = some c := by
  obtain ⟨literal, hread, hvalue⟩ := Numeral.Literal.value_ofInt h.fits
  have htokens : c.line.tokens = [c.name, c.operator.spelling, Text.ofInt c.operand] := rfl
  unfold Line.clause?
  rw [htokens]
  dsimp only
  rw [hread, Option.map_some, hvalue]
  show Entry.ofThree? c.name c.operator.spelling (.int c.operand) = some c
  rw [Entry.ofThree?, Operator.ofSpelling?_spelling]
  rfl

theorem Clause.Storable.tokens {c : Clause} (h : c.Storable) :
    ∀ t ∈ c.line.tokens, Outline.Token.Writable t ∧ t.Unbroken := by
  intro t ht
  simp only [Clause.line, Line.bare, Clause.words, List.map_cons, List.map_nil, List.mem_cons,
    List.not_mem_nil, or_false] at ht
  rcases ht with rfl | rfl | rfl
  · exact ⟨h.writable, h.unbroken⟩
  · exact Outline.Token.sound_of_bare (Operator.needsQuotes_spelling _)
  · exact Outline.Token.sound_of_bare (Text.needsQuotes_ofInt _)

/-! ## What saving writes -/

/-- Saving that has written some entries behind a draft and nothing else. -/
def Saving.wrote (d : Draft) (entries : List (Nat × Line)) : Saving := ⟨d.extend entries, none⟩

theorem Saving.wrote_andThen {d : Draft} {es fs : List (Nat × Line)} {next : Draft → Saving}
    (h : next (d.extend es) = .wrote (d.extend es) fs) :
    (wrote d es).andThen next = .wrote d (es ++ fs) := by
  show next (d.extend es) = _
  rw [h, wrote, wrote, Draft.extend_append]

theorem Saving.attempt_of_ok {d : Draft} {step : Draft → Except Draft.Fault Draft}
    {entries : List (Nat × Line)} (h : step d = .ok (d.extend entries)) :
    attempt d step = .wrote d entries := by
  unfold attempt
  rw [h]
  rfl

namespace Rule

theorem saveClauses_eq {cs : List Clause} (h : ∀ c ∈ cs, c.Storable) (d : Draft) :
    saveClauses cs d = .wrote d (cs.map fun c => (d.depth, c.line)) := by
  induction cs generalizing d with
  | nil => rw [saveClauses, List.map_nil, Saving.wrote, Draft.extend_nil]
  | cons c cs ih =>
    rw [List.forall_mem_cons] at h
    rw [saveClauses, Saving.attempt_of_ok (Draft.write_of_writable d h.1.words)]
    exact Saving.wrote_andThen (ih h.2 _)

/-- `r` is saved as the lines of its members. -/
def SavesMembers (r : Rule) : Prop :=
  ∀ d : Draft, r.save d = .wrote d (Node.entriesAll d.depth r.members)

/-- The members in a block are one level deeper, and the block is closed behind them. -/
theorem SavesMembers.block {r : Rule} (h : r.SavesMembers) (d : Draft) :
    (r.save d.openBlock).andThen (fun d => Saving.attempt d Draft.closeBlock)
      = .wrote d (Node.entriesAll (d.depth + 1) r.members) := by
  rw [h]
  rfl

/-- A header and the members below it. -/
theorem SavesMembers.under {r : Rule} (h : r.SavesMembers) {header : List Text}
    (hheader : ∀ t ∈ header, Outline.Token.Writable t) (d : Draft) :
    r.saveUnder header d = .wrote d (Node.entries d.depth ⟨.bare header, r.members⟩) := by
  rw [saveUnder, Saving.attempt_of_ok (Draft.write_tokens d hheader)]
  exact Saving.wrote_andThen (h.block _)

/-- A group: the word for its mode and the members below it. -/
theorem SavesMembers.group {r : Rule} (h : r.SavesMembers) (d : Draft) :
    r.saveUnder [r.mode.word] d = .wrote d (Node.entries d.depth ⟨r.mode.line, r.members⟩) :=
  h.under (fun t ht => (r.mode.sound_line t ht).1) d

theorem entriesAll_leaves (depth : Nat) (cs : List Clause) :
    Node.entriesAll depth (cs.map fun c => ⟨c.line, []⟩) = cs.map fun c => (depth, c.line) := by
  induction cs with
  | nil => rfl
  | cons c cs ih =>
    rw [List.map_cons, Node.entriesAll, ih]
    rfl

mutual

/-- Saving writes the lines of the members, and never stops. -/
theorem save_eq : (r : Rule) → (∀ c ∈ r.allClauses, c.Storable) → r.SavesMembers
  | ⟨m, cs, gs⟩, h => by
    intro d
    rw [allClauses, List.forall_mem_append] at h
    rw [save, saveClauses_eq h.1, members, Node.entriesAll_append, entriesAll_leaves]
    exact Saving.wrote_andThen (saveGroups_eq gs h.2 _)

/-- Groups are saved one after another. -/
theorem saveGroups_eq : (gs : List Rule) → (∀ c ∈ allClausesOf gs, c.Storable) → (d : Draft) →
    saveGroups gs d = .wrote d (Node.entriesAll d.depth (membersOf gs))
  | [], _, d => by
    rw [saveGroups, membersOf, Node.entriesAll, Saving.wrote, Draft.extend_nil]
  | g :: gs, h, d => by
    rw [allClausesOf, List.forall_mem_append] at h
    show (g.saveUnder [g.mode.word] d).andThen (fun d => saveGroups gs d) = _
    rw [(save_eq g h.1).group d, membersOf, Node.entriesAll]
    exact Saving.wrote_andThen (saveGroups_eq gs h.2 _)

end

/-! ## What the lines of a rule say -/

mutual

/-- Every line of the members is the line of a clause or opens a group. -/
theorem line_of_mem_members {e : Nat × Line} (depth : Nat) :
    (r : Rule) → e ∈ Node.entriesAll depth r.members →
      (∃ c ∈ r.allClauses, e.2 = c.line) ∨ ∃ m : Mode, e.2 = m.line
  | ⟨m, cs, gs⟩, h => by
    rw [members, Node.entriesAll_append, entriesAll_leaves, List.mem_append] at h
    rcases h with h | h
    · obtain ⟨c, hc, rfl⟩ := List.mem_map.1 h
      exact Or.inl ⟨c, List.mem_append_left _ hc, rfl⟩
    · rcases line_of_mem_membersOf depth gs h with ⟨c, hc, he⟩ | hm
      · exact Or.inl ⟨c, List.mem_append_right _ hc, he⟩
      · exact Or.inr hm

theorem line_of_mem_membersOf {e : Nat × Line} (depth : Nat) :
    (gs : List Rule) → e ∈ Node.entriesAll depth (membersOf gs) →
      (∃ c ∈ allClausesOf gs, e.2 = c.line) ∨ ∃ m : Mode, e.2 = m.line
  | [], h => absurd h List.not_mem_nil
  | g :: gs, h => by
    rw [membersOf, Node.entriesAll, Node.entries, List.cons_append, List.mem_cons,
      List.mem_append] at h
    rcases h with rfl | h | h
    · exact Or.inr ⟨g.mode, rfl⟩
    · rcases line_of_mem_members (depth + 1) g h with ⟨c, hc, he⟩ | hm
      · exact Or.inl ⟨c, List.mem_append_left _ hc, he⟩
      · exact Or.inr hm
    · rcases line_of_mem_membersOf depth gs h with ⟨c, hc, he⟩ | hm
      · exact Or.inl ⟨c, List.mem_append_right _ hc, he⟩
      · exact Or.inr hm

end

variable {r : Rule} (h : ∀ c ∈ r.allClauses, c.Storable)
include h

/-- The lines of the members can be written and read back. -/
theorem sound_members {depth : Nat} {e : Nat × Line} (he : e ∈ Node.entriesAll depth r.members) :
    Outline.Sound e ∧ e.2.tokens ≠ [] := by
  unfold Outline.Sound
  rcases line_of_mem_members depth r he with ⟨c, hc, hline⟩ | ⟨m, hline⟩
  · rw [hline]
    exact ⟨(h c hc).tokens, List.cons_ne_nil _ _⟩
  · rw [hline]
    exact ⟨m.sound_line, List.cons_ne_nil _ _⟩

/-- The lines of the members can all be used. -/
theorem isUsable_members {depth : Nat} {e : Nat × Line}
    (he : e ∈ Node.entriesAll depth r.members) : e.2.isUsable = true := by
  unfold Line.isUsable
  rcases line_of_mem_members depth r he with ⟨c, hc, hline⟩ | ⟨m, hline⟩
  · rw [hline, (h c hc).clause?_line]
    rfl
  · rw [hline, Mode.group?_line, Option.isSome_some, Bool.or_true]

omit h

theorem filterMap_clause?_leaves {cs : List Clause} (h : ∀ c ∈ cs, c.Storable) :
    (cs.map fun c => (⟨c.line, []⟩ : Node)).filterMap (·.line.clause?) = cs := by
  induction cs with
  | nil => rfl
  | cons c cs ih =>
    rw [List.forall_mem_cons] at h
    have hc : (⟨c.line, []⟩ : Node).line.clause? = some c := h.1.clause?_line
    rw [List.map_cons, List.filterMap_cons, hc, ih h.2]

theorem filterMap_clause?_membersOf (gs : List Rule) :
    (membersOf gs).filterMap (·.line.clause?) = [] := by
  induction gs with
  | nil => rfl
  | cons g gs ih =>
    have hg : (⟨g.mode.line, g.members⟩ : Node).line.clause? = none := Mode.clause?_line _
    rw [membersOf, List.filterMap_cons, hg, ih]

theorem groupsOf_leaves_append {cs : List Clause} (h : ∀ c ∈ cs, c.Storable) (ns : List Node) :
    Node.groupsOf ((cs.map fun c => ⟨c.line, []⟩) ++ ns) = Node.groupsOf ns := by
  induction cs with
  | nil => rfl
  | cons c cs ih =>
    rw [List.forall_mem_cons] at h
    have hc : c.line.group? = none := Line.group?_of_clause? h.1.clause?_line
    rw [List.map_cons, List.cons_append, Node.groupsOf, Node.group?, hc, ih h.2]
    rfl

mutual

/-- The clauses and the groups that the members say are those of the rule. -/
theorem says_members : (r : Rule) → (∀ c ∈ r.allClauses, c.Storable) →
    r.members.filterMap (·.line.clause?) = r.clauses ∧ Node.groupsOf r.members = r.groups
  | ⟨m, cs, gs⟩, h => by
    rw [allClauses, List.forall_mem_append] at h
    rw [members, List.filterMap_append, filterMap_clause?_leaves h.1, filterMap_clause?_membersOf,
      List.append_nil, groupsOf_leaves_append h.1, groupsOf_membersOf gs h.2]
    exact ⟨rfl, rfl⟩

theorem groupsOf_membersOf : (gs : List Rule) → (∀ c ∈ allClausesOf gs, c.Storable) →
    Node.groupsOf (membersOf gs) = gs
  | [], _ => rfl
  | g :: gs, h => by
    rw [allClausesOf, List.forall_mem_append] at h
    obtain ⟨hclauses, hgroups⟩ := says_members g h.1
    rw [membersOf, Node.groupsOf, Node.group?, Mode.group?_line, hclauses, hgroups,
      groupsOf_membersOf gs h.2]
    cases g
    rfl

end

/-- The rule below a header that announces its mode. -/
theorem rule_members (h : ∀ c ∈ r.allClauses, c.Storable) {l : Line}
    (hmode : Mode.ofHeader (l.token 0) = r.mode) : Node.rule ⟨l, r.members⟩ = r := by
  obtain ⟨hclauses, hgroups⟩ := says_members r h
  show Rule.mk (.ofHeader (l.token 0)) (r.members.filterMap (·.line.clause?))
    (Node.groupsOf r.members) = r
  rw [hmode, hclauses, hgroups]
  cases r
  rfl

/-! ## Saving and loading again -/

/-- A header read from the lines of a rule is loaded as that rule. -/
theorem ofHeader_of_erase_eq {r : Rule} (h : ∀ c ∈ r.allClauses, c.Storable) {above : List Line}
    {l : Line} {n : Node} (hmode : Mode.ofHeader (l.token 0) = r.mode)
    (hn : n.map Line.erase = Node.map Line.erase ⟨l, r.members⟩) :
    (ofHeader ⟨above, n⟩).fault = none ∧ (ofHeader ⟨above, n⟩).rule = r ∧
      (ofHeader ⟨above, n⟩).reports = [] := by
  obtain ⟨k, ns⟩ := n
  obtain ⟨hline, hchildren⟩ := Node.mk.inj hn
  have hvisited : ∀ q ∈ (⟨above, ⟨k, ns⟩⟩ : Position).visited, q.node.line.isUsable = true := by
    intro q hq
    have habove : (above ++ [k]).map Line.erase = (above ++ [l]).map Line.erase := by
      simp [hline]
    -- The lines looked at below `k` have the tokens of those looked at below `l`.
    have htokens := Node.visitedAll_erase (above ++ [k]) ns
    rw [habove, hchildren, Node.visitedAll_erase] at htokens
    have hmem := List.mem_map_of_mem (f := (·.node.line.tokens)) hq
    rw [Position.visited, Node.line, Node.children, ← htokens] at hmem
    obtain ⟨q₀, hq₀, hsame⟩ := List.mem_map.1 hmem
    obtain ⟨e, he, hline⟩ := Node.exists_entry_of_mem_visitedAll hq₀ 0
    have husable := isUsable_members h he
    unfold Line.isUsable Line.clause? Line.group? at husable ⊢
    rw [← hsame, ← hline]
    exact husable
  have hrule : Node.rule ⟨k, ns⟩ = r := by
    rw [← Node.rule_erase, hn, Node.rule_erase, rule_members h hmode]
  rw [← hrule]
  exact ofHeader_of_isUsable hvisited

/-- The text of a rule under the word for its mode has one top node, which is loaded as that rule
without a fault and without a report. -/
theorem load_textWithHeader (source : Text) (r : Rule) (h : ∀ c ∈ r.allClauses, c.Storable) :
    ∃ t n, r.textWithHeader = .ok t ∧ (Outline.parse source t).nodes = [n] ∧
      (ofHeader ⟨[.outermost], n⟩).fault = none ∧ (ofHeader ⟨[.outermost], n⟩).rule = r ∧
      (ofHeader ⟨[.outermost], n⟩).reports = [] := by
  let saved : Node := ⟨r.mode.line, r.members⟩
  have hentries : Node.entriesAll 0 [saved] = (0, r.mode.line) :: Node.entriesAll 1 r.members :=
    List.append_nil _
  have hsound : ∀ e ∈ Node.entriesAll 0 [saved], Outline.Sound e ∧ e.2.tokens ≠ [] := by
    rw [hentries, List.forall_mem_cons]
    exact ⟨⟨r.mode.sound_line, List.cons_ne_nil _ _⟩, fun e he => sound_members h he⟩
  have htext : r.textWithHeader
      = .ok (Text.unlines ((Node.entriesAll 0 [saved]).map Outline.rowText)) := by
    rw [textWithHeader, (save_eq r h).group, Node.entriesAll, Node.entriesAll, List.append_nil]
    rfl
  have hmark : (Text.unlines ((Node.entriesAll 0 [saved]).map Outline.rowText)).head?
      ≠ some Outline.byteOrderMark := by
    have hbare := Mode.needsQuotes_word r.mode
    rw [hentries, Outline.head?_unlines (Outline.Token.writable_of_bare hbare) rfl,
      Outline.Token.written_of_bare hbare]
    cases r.mode <;> decide
  have hnodes := Outline.nodesOf_unlines hsound hmark
  obtain ⟨n, hn, hsame⟩ := List.map_eq_singleton_iff.1 hnodes
  refine ⟨_, n, htext, hn, ofHeader_of_erase_eq h ?_ hsame⟩
  exact Mode.ofHeader_word r.mode

/-- A rule with names that look like words, comments, quotes and operators, with empty groups and
with an end of several groups at once. -/
def odd : Rule :=
  ⟨.any,
    [⟨[], .compare .unequal, 0⟩, ⟨Mode.any.word, .assign .add, -7⟩,
     ⟨['#', 'x'], .compare .less, 3⟩],
    [⟨.all, [], []⟩,
     ⟨.all, [⟨['"', 'x'], .assign .capAbove, 10⟩],
       [⟨.any, [⟨['+', '+'], .assign .replace, 1⟩],
         [⟨.any, [⟨Entry.neverWord, .compare .atLeast, 2⟩], []⟩]⟩]⟩,
     ⟨.any, [⟨['a', ' ', '\x60'], .compare .equal, 5⟩, ⟨['a', '"', '\x60'], .assign .subtract, 1⟩],
       [⟨.any, [], []⟩]⟩]⟩

theorem load_textWithHeader_odd :
    (∀ c ∈ odd.allClauses, c.Storable) ∧
      ∃ t n, odd.textWithHeader = .ok t ∧ (Outline.parse [] t).nodes = [n] ∧
        (ofHeader ⟨[.outermost], n⟩).fault = none ∧ (ofHeader ⟨[.outermost], n⟩).rule = odd ∧
        (ofHeader ⟨[.outermost], n⟩).reports = [] :=
  ⟨by decide, load_textWithHeader [] odd (by decide)⟩

end Rule

end Proviso
