/-
  What formatting keeps.

  Formatting keeps headers and rules, and formatting twice is formatting once, if and only if the
  text does not begin with a token that begins with a byte order mark and stands without quotes
  (`format_faithful_iff`). Such a mark is lost when the text is read again. That the text cannot
  be the same then is shown by counting marks: reading drops one, and neither reading nor
  formatting ever adds any (`count_canonText_le`).
-/
import Mathlib.Data.List.Flatten
import Proviso.Proofs.Canonical

namespace Proviso

open Outline (Line Node Position byteOrderMark canonText nodesOf)

/-! ## Counting byte order marks -/

namespace Outline

/-- How many byte order marks the tokens of lines hold. -/
def marksIn (ls : List Line) : Nat := (ls.flatMap (·.tokens)).flatten.count byteOrderMark

theorem marksIn_append (ls ks : List Line) : marksIn (ls ++ ks) = marksIn ls + marksIn ks := by
  rw [marksIn, List.flatMap_append, List.flatten_append, List.count_append]
  rfl

theorem marksIn_cons (l : Line) (ls : List Line) :
    marksIn (l :: ls) = l.tokens.flatten.count byteOrderMark + marksIn ls := by
  rw [marksIn, List.flatMap_cons, List.flatten_append, List.count_append]
  rfl

theorem marksIn_le_of_sublist {ls ks : List Line} (h : List.Sublist ls ks) :
    marksIn ls ≤ marksIn ks := by
  unfold marksIn
  exact (h.flatMap _).flatten.count_le _

theorem count_written {t : Text} (h : Token.Writable t) :
    (Token.written t).count byteOrderMark = t.count byteOrderMark := by
  rcases Token.written_cases h with ⟨-, hw⟩ | ⟨q, hq, -, hw⟩
  · rw [hw]
  · have hne : q ≠ byteOrderMark := by
      rintro rfl
      exact absurd hq (by decide)
    rw [hw, List.count_append, List.count_cons_of_ne hne, List.count_cons_of_ne hne,
      List.count_nil, Nat.add_zero]

theorem count_lineOf {ts : List Text} (h : ∀ t ∈ ts, Token.Writable t) :
    (Token.lineOf ts).count byteOrderMark = ts.flatten.count byteOrderMark := by
  induction ts with
  | nil => rfl
  | cons t ts ih =>
    rw [List.forall_mem_cons] at h
    rw [List.flatten_cons, List.count_append, ← ih h.2, ← count_written h.1]
    cases ts with
    | nil => rfl
    | cons u us =>
      rw [Token.lineOf_cons, List.count_append, List.count_cons_of_ne (by decide)]

theorem count_rowText {e : Nat × Line} (h : Sound e) :
    (rowText e).count byteOrderMark = e.2.tokens.flatten.count byteOrderMark := by
  have htabs : ∀ depth, (List.replicate depth '\t').count byteOrderMark = 0 := fun depth =>
    List.count_eq_zero.2 fun hmem => absurd (List.eq_of_mem_replicate hmem) (by decide)
  unfold rowText
  rw [List.count_append, count_lineOf fun t ht => (h t ht).1]
  split
  · rw [List.count_nil, Nat.zero_add]
  · rw [htabs, Nat.zero_add]

/-- A text of written lines has the marks of their tokens. -/
theorem count_unlines {entries : List (Nat × Line)} (h : ∀ e ∈ entries, Sound e) :
    (Text.unlines (entries.map rowText)).count byteOrderMark = marksIn (entries.map (·.2)) := by
  induction entries with
  | nil => rfl
  | cons e entries ih =>
    rw [List.forall_mem_cons] at h
    rw [List.map_cons, List.map_cons, Text.unlines_cons, List.count_append,
      List.count_cons_of_ne (by decide), ih h.2, count_rowText h.1, marksIn_cons]

/-- Reading finds no more marks in lines than there are. -/
theorem marksIn_contentFrom_le (number : Nat) (raws : List Text) :
    marksIn ((contentFrom number raws).map (·.2)) ≤ raws.flatten.count byteOrderMark := by
  induction raws generalizing number with
  | nil => exact Nat.le_refl _
  | cons raw raws ih =>
    have hraws := ih (number + 1)
    rw [contentFrom, content?_eq, List.flatten_cons, List.count_append]
    cases hasContent raw with
    | false => exact Nat.le_trans hraws (Nat.le_add_left _ _)
    | true =>
      have hsub : List.Sublist (contentLine (raw, number)).tokens.flatten raw :=
        (Token.flatten_read_sublist _).trans (List.dropWhile_sublist _)
      have hraw := hsub.count_le byteOrderMark
      show marksIn (contentLine (raw, number) :: (contentFrom (number + 1) raws).map (·.2)) ≤ _
      rw [marksIn_cons]
      omega

theorem marksIn_content_le (t : Text) :
    marksIn ((content t).map (·.2)) ≤ (dropMark t).count byteOrderMark :=
  Nat.le_trans (marksIn_contentFrom_le 1 _) ((Text.flatten_lines_sublist _).count_le _)

end Outline

/-- How many byte order marks the names of clauses hold. -/
def Clause.marksIn (cs : List Clause) : Nat := (cs.map (·.name)).flatten.count byteOrderMark

theorem Clause.marksIn_append (cs ds : List Clause) :
    marksIn (cs ++ ds) = marksIn cs + marksIn ds := by
  rw [marksIn, List.map_append, List.flatten_append, List.count_append]
  rfl

theorem Clause.marksIn_cons (c : Clause) (cs : List Clause) :
    marksIn (c :: cs) = c.name.count byteOrderMark + marksIn cs := by
  rw [marksIn, List.map_cons, List.flatten_cons, List.count_append]
  rfl

theorem Text.count_mark_ofInt (i : Int) : (Text.ofInt i).count byteOrderMark = 0 := by
  have hne : ∀ c ∈ Text.ofInt i, c ≠ byteOrderMark :=
    Text.forall_mem_ofInt (by decide) (by decide) i
  exact List.count_eq_zero.2 fun hmem => hne _ hmem rfl

theorem Operator.count_mark_spelling (op : Operator) : op.spelling.count byteOrderMark = 0 := by
  cases op with
  | compare c => cases c <;> decide
  | assign a => cases a <;> decide

theorem Clause.marksIn_line (c : Clause) :
    c.line.tokens.flatten.count byteOrderMark = c.name.count byteOrderMark := by
  show [c.name, c.operator.spelling, Text.ofInt c.operand].flatten.count byteOrderMark = _
  simp [Operator.count_mark_spelling, Text.count_mark_ofInt]

theorem Clause.marksIn_lines (cs : List Clause) :
    Outline.marksIn (cs.map Clause.line) = marksIn cs := by
  induction cs with
  | nil => rfl
  | cons c cs ih =>
    rw [List.map_cons, Outline.marksIn_cons, ih, Clause.marksIn_line, Clause.marksIn_cons]

mutual

/-- The marks in the lines of a rule are those in the names of its clauses. -/
theorem Rule.marksIn_members (depth : Nat) : (r : Rule) →
    Outline.marksIn ((Node.entriesAll depth r.members).map (·.2)) = Clause.marksIn r.allClauses
  | ⟨m, cs, gs⟩ => by
    rw [Rule.members, Node.entriesAll_append, Rule.entriesAll_leaves, List.map_append, List.map_map,
      Outline.marksIn_append, Rule.marksIn_membersOf depth gs, Rule.allClauses,
      Clause.marksIn_append]
    congr 1
    exact Clause.marksIn_lines cs

theorem Rule.marksIn_membersOf (depth : Nat) : (gs : List Rule) →
    Outline.marksIn ((Node.entriesAll depth (Rule.membersOf gs)).map (·.2))
      = Clause.marksIn (Rule.allClausesOf gs)
  | [] => rfl
  | g :: gs => by
    have hword : g.mode.line.tokens.flatten.count byteOrderMark = 0 := by
      cases g.mode <;> decide
    rw [Rule.membersOf, Node.entriesAll, Node.entries, List.map_append, List.map_cons,
      Outline.marksIn_append, Outline.marksIn_cons, hword, Nat.zero_add,
      Rule.marksIn_members (depth + 1) g, Rule.marksIn_membersOf depth gs, Rule.allClausesOf,
      Clause.marksIn_append]

end

/-- The names of clauses are tokens of their lines. -/
theorem Clause.marksIn_filterMap_le (ps : List Position) :
    marksIn (ps.filterMap (·.node.line.clause?)) ≤ Outline.marksIn (ps.map (·.node.line)) := by
  induction ps with
  | nil => exact Nat.le_refl _
  | cons p ps ih =>
    rw [List.map_cons, Outline.marksIn_cons]
    cases hc : p.node.line.clause? with
    | none =>
      rw [List.filterMap_cons, hc]
      exact Nat.le_trans ih (Nat.le_add_left _ _)
    | some c =>
      have hname : c.name.count byteOrderMark ≤ p.node.line.tokens.flatten.count byteOrderMark := by
        rcases Line.name_of_clause? hc with hnil | hmem
        · rw [hnil]
          exact Nat.zero_le _
        · exact (List.sublist_flatten_of_mem hmem).count_le _
      rw [List.filterMap_cons, hc, marksIn_cons]
      exact Nat.add_le_add hname ih

/-- The members of a rule hold no more marks than the lines that it was loaded from. -/
theorem Outline.Node.marksIn_rule_le (above : List Line) (n : Node) :
    Clause.marksIn n.rule.allClauses
      ≤ Outline.marksIn ((Node.walkAll above n.children).map (·.node.line)) := by
  have hperm := Node.visitedAll_perm above n.children
  have hsum : Clause.marksIn n.rule.allClauses
      = Clause.marksIn ((Node.visitedAll above n.children).filterMap (·.node.line.clause?)) :=
    (hperm.map _).flatten.count_eq _
  rw [hsum]
  refine Nat.le_trans (Clause.marksIn_filterMap_le _) ?_
  exact Outline.marksIn_le_of_sublist ((Node.visitedAll_sublist above n.children).map _)

theorem Outline.marksIn_canon_le (above : List Line) (ns : List Node) :
    marksIn ((Node.entriesAll 0 (ns.map Node.canon)).map (·.2))
      ≤ marksIn ((Node.walkAll above ns).map (·.node.line)) := by
  induction ns with
  | nil => exact Nat.le_refl _
  | cons n ns ih =>
    obtain ⟨l, ms⟩ := n
    have hrule := Node.marksIn_rule_le (above ++ [l]) ⟨l, ms⟩
    rw [← Rule.marksIn_members 1] at hrule
    have hwalk : marksIn ((Node.walkAll above (⟨l, ms⟩ :: ns)).map (·.node.line))
        = l.tokens.flatten.count byteOrderMark
          + marksIn ((Node.walkAll (above ++ [l]) ms).map (·.node.line))
          + marksIn ((Node.walkAll above ns).map (·.node.line)) := by
      rw [Node.walkAll, Node.walk, List.map_append, List.map_cons, marksIn_append, marksIn_cons]
      rfl
    rw [hwalk, List.map_cons, Node.entriesAll, Node.canon, Node.entries, List.map_append,
      List.map_cons, marksIn_append, marksIn_cons]
    exact Nat.add_le_add (Nat.add_le_add_left hrule _) ih

/-- The canonical form of what is read holds no more marks than the text behind its first mark. -/
theorem Outline.count_canonText_le (t : Text) :
    (canonText (nodesOf t)).count byteOrderMark ≤ (dropMark t).count byteOrderMark := by
  have hsound : ∀ e ∈ Node.entriesAll 0 ((nodesOf t).map Node.canon), Sound e :=
    fun _ he => (Node.sound_canon (fun _ hn => storable_of_mem_nodesOf hn) he).1
  have hwalk := marksIn_canon_le [] (nodesOf t)
  rw [walkAll_nodesOf_lines] at hwalk
  rw [canonText, count_unlines hsound]
  exact Nat.le_trans hwalk (marksIn_content_le t)

/-! ## Where a mark stands in front -/

/-- The first header begins with a token that begins with a byte order mark and needs no quotes. -/
def Outline.markInFront (o : Outline) : Bool :=
  (o.nodes.head?.bind fun n => n.line.tokens.head?).any fun t =>
    t.head? = some byteOrderMark && !Token.needsQuotes t

theorem Outline.head?_written {t : Text} (h : Token.Writable t) :
    (Token.written t).head? = some byteOrderMark
      ↔ (t.head? = some byteOrderMark && !Token.needsQuotes t) = true := by
  cases hquotes : Token.needsQuotes t with
  | false => simp [Token.written_of_bare hquotes]
  | true =>
    rcases Token.written_cases h with ⟨hbare, -⟩ | ⟨q, hq, -, hw⟩
    · rw [hquotes] at hbare
      exact absurd hbare (by decide)
    · have hne : q ≠ byteOrderMark := by
        rintro rfl
        exact absurd hq (by decide)
      simp [hw, hne]

/-- The canonical text begins with a byte order mark if the first header does. -/
theorem Outline.head?_canonText (source t : Text) :
    (canonText (nodesOf t)).head? = some byteOrderMark
      ↔ (parse source t).markInFront = true := by
  have hstorable : ∀ n ∈ nodesOf t, n.Storable := fun n hn => storable_of_mem_nodesOf hn
  unfold markInFront parse
  dsimp only
  cases hns : nodesOf t with
  | nil => simp [canonText, Node.entriesAll, Text.unlines]
  | cons n ns =>
    rw [hns, List.forall_mem_cons] at hstorable
    obtain ⟨hsound, hne⟩ := hstorable.1.header
    obtain ⟨u, us, htokens⟩ := List.exists_cons_of_ne_nil hne
    have hu : Token.Writable u := (hsound u (by simp [htokens])).1
    have hentries : Node.entriesAll 0 ((n :: ns).map Node.canon)
        = (0, .bare n.line.tokens) ::
          (Node.entriesAll 1 n.rule.members ++ Node.entriesAll 0 (ns.map Node.canon)) := rfl
    have hhead := head?_unlines (l := .bare n.line.tokens) hu htokens
      (Node.entriesAll 1 n.rule.members ++ Node.entriesAll 0 (ns.map Node.canon))
    rw [canonText, hentries, hhead, head?_written hu, List.head?_cons, Option.bind_some, htokens,
      List.head?_cons, Option.any_some]

/-! ## Formatting and reading again -/

/-- The outline read from the text that formatting an outline writes. -/
def Outline.formatted (o : Outline) : Outline :=
  .parse o.source (Formatting.ofOutline o).draft.text

/-- Formatting an outline keeps what it means, and formatting twice is formatting once. -/
structure Formatting.Faithful (o : Outline) : Prop where
  headers : o.formatted.nodes.map (·.line.tokens) = o.nodes.map (·.line.tokens)
  loads : (Collection.ofOutline o.formatted).fault = none
  rules : (Collection.ofOutline o.formatted).rules = (Collection.ofOutline o).rules
  reports : (Collection.ofOutline o.formatted).reports = []
  writes : (Formatting.ofOutline o.formatted).fault = none
  again : (Formatting.ofOutline o.formatted).draft.text = (Formatting.ofOutline o).draft.text

/-- An outline whose rules can all be loaded is formatted without a fault, and faithfully if and
only if it does not begin with a byte order mark that is written without quotes. -/
theorem format_faithful_iff (source t : Text)
    (h : (Collection.ofOutline (.parse source t)).fault = none) :
    (Formatting.ofOutline (.parse source t)).fault = none ∧
      (Formatting.ofOutline (.parse source t)).draft.depth = 0 ∧
      (Formatting.Faithful (.parse source t) ↔ (Outline.parse source t).markInFront = false) := by
  obtain ⟨hfault, hdepth, htext⟩ := Formatting.ofOutline_eq h
  refine ⟨hfault, hdepth, fun hfaithful => ?_, fun hmark => ?_⟩
  · rw [← Bool.not_eq_true, ← Outline.head?_canonText]
    intro hhead
    have hloads := hfaithful.loads
    have hagain := hfaithful.again
    rw [Outline.formatted, htext] at hloads hagain
    rw [(Formatting.ofOutline_eq hloads).2.2] at hagain
    obtain ⟨s, hs⟩ := List.head?_eq_some_iff.1 hhead
    -- The mark in front is dropped, and formatting what is left cannot bring it back.
    have hle := Outline.count_canonText_le (canonText (nodesOf t))
    rw [hagain, hs] at hle
    have hdrop : Outline.dropMark (byteOrderMark :: s) = s := by simp [Outline.dropMark]
    rw [hdrop, List.count_cons_self] at hle
    exact absurd hle (by omega)
  · have hhead : (canonText (nodesOf t)).head? ≠ some byteOrderMark := by
      rw [Ne, Outline.head?_canonText source, hmark]
      decide
    have hns : ∀ n ∈ nodesOf t, n.Storable := fun n hn => Outline.storable_of_mem_nodesOf hn
    obtain ⟨hloads, hrules, hreports⟩ := Collection.ofOutline_canonText hns hhead source
    obtain ⟨hwrites, -, hagain⟩ := Formatting.ofOutline_eq hloads
    have hrules' : (Collection.ofOutline (.parse source t)).rules = (nodesOf t).map Node.rule :=
      (Collection.ofNodes_eq (Collection.fault_eq_none h)).2.1
    have hformatted : (Outline.parse source t).formatted
        = .parse source (canonText (nodesOf t)) := by
      rw [Outline.formatted, htext]
      rfl
    constructor
    · rw [hformatted, Outline.nodes_parse, Outline.nodes_parse]
      exact Outline.headers_canonText hns hhead
    · rw [hformatted, hloads]
    · rw [hformatted, hrules, hrules']
    · rw [hformatted, hreports]
    · rw [hformatted, hwrites]
    · rw [hformatted, hagain, htext, Outline.canonText_canonText hns hhead]

/-- A single mark in front of the text is no part of the first header, and a mark in the quotes of a
later header stays where it is. -/
theorem format_faithful_of_one_mark :
    let t : Text := [byteOrderMark, 'o', 'r', ' ', '\x60', ' ', '\n', ' ', 'a', ' ', '+', '+', '\n',
      ' ', 'b', ' ', '+', '\n', '"', byteOrderMark, ' ', '"']
    (Collection.ofOutline (.parse [] t)).fault = none ∧ Formatting.Faithful (.parse [] t) :=
  ⟨by decide, (format_faithful_iff [] _ (by decide)).2.2.2 (by decide)⟩

/-- Of two marks in front of a text the second belongs to the first header, and is lost. -/
theorem not_faithful_of_two_marks :
    let o : Outline := .parse [] [byteOrderMark, byteOrderMark, 'a']
    (Collection.ofOutline o).fault = none ∧ (Formatting.ofOutline o).fault = none ∧
      o.nodes.map (·.line.tokens) = [[[byteOrderMark, 'a']]] ∧
      o.formatted.nodes.map (·.line.tokens) = [[['a']]] ∧ ¬ Formatting.Faithful o := by
  intro o
  have hread : o.nodes.map (·.line.tokens) = [[[byteOrderMark, 'a']]] := by decide
  have hagain : o.formatted.nodes.map (·.line.tokens) = [[['a']]] := by decide
  refine ⟨by decide, by decide, hread, hagain, fun h => ?_⟩
  have hsame := h.headers
  rw [hread, hagain] at hsame
  exact absurd hsame (by decide)

end Proviso
