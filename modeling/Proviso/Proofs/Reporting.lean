/-
  What every line that is looked at brings about.

  Loading all rules of an outline looks at the lines below the headers and, where one of them opens
  a group, at the lines below it. Each of them brings about one clause, one group, or its reports
  (`Yields`); these shares together are all clauses, all groups and all diagnostics there are, the
  diagnostics in the order of the lines (`diagnostics_exact`). The numbers of the lines grow along
  the walk through an outline (`pairwise_number_walk`), so the diagnostics of one line stand
  together and there are no others with its number.
-/
import Mathlib.Data.List.Forall2
import Mathlib.Data.List.Nodup
import Mathlib.Data.List.Perm.Basic
import Proviso.Proofs.Canonical
import Proviso.Proofs.Grammar

namespace Proviso

open Outline (Diagnostic Line Node Position Report)
open Numeral (Literal)

/-! ## Groups in groups -/

namespace Rule

mutual

/-- All rules inside a rule, each before those that are inside it. -/
def nested : Rule → List Rule
  | ⟨_, _, gs⟩ => nestedOf gs

/-- Rules one after another, each with all rules inside it. -/
def nestedOf : List Rule → List Rule
  | [] => []
  | g :: gs => g :: (nested g ++ nestedOf gs)

end

theorem nestedOf_append (gs hs : List Rule) : nestedOf (gs ++ hs) = nestedOf gs ++ nestedOf hs := by
  induction gs with
  | nil => rfl
  | cons g gs ih =>
    rw [List.cons_append, nestedOf, nestedOf, ih, List.cons_append, List.append_assoc]

end Rule

namespace Outline.Node

mutual

/-- The lines that open groups, among those looked at, are the groups there are, in order. -/
theorem filterMap_group?_visited (above : List Line) : (n : Node) →
    (n.visited above).filterMap (·.node.group?) = Rule.nestedOf n.group?.toList
  | ⟨l, ns⟩ => by
    have hnode : (⟨above, ⟨l, ns⟩⟩ : Position).node.group? = group? ⟨l, ns⟩ := rfl
    rw [visited, List.filterMap_cons, hnode, group?]
    cases l.group? with
    | none => rfl
    | some mode =>
      show _ :: (visitedAll (above ++ [l]) ns).filterMap (·.node.group?) = _
      rw [filterMap_group?_visitedAll (above ++ [l]) ns]
      show _ = _ :: (Rule.nestedOf (groupsOf ns) ++ [])
      rw [List.append_nil]

theorem filterMap_group?_visitedAll (above : List Line) : (ns : List Node) →
    (visitedAll above ns).filterMap (·.node.group?) = Rule.nestedOf (groupsOf ns)
  | [] => rfl
  | n :: ns => by
    rw [visitedAll, groupsOf, List.filterMap_append, filterMap_group?_visited above n,
      filterMap_group?_visitedAll above ns, Rule.nestedOf_append]

end

mutual

/-- Where a line that is looked at opens a group, the lines below it are looked at, too. -/
theorem mem_visited_below {q r : Position} (hg : q.node.line.group?.isSome = true)
    (hr : r ∈ visitedAll (q.above ++ [q.node.line]) q.node.children) (above : List Line) :
    (n : Node) → q ∈ n.visited above → r ∈ n.visited above
  | ⟨l, ns⟩, hq => by
    rw [visited] at hq ⊢
    rcases List.mem_cons.1 hq with rfl | hq
    · have hl : l.group?.isSome = true := hg
      rw [if_pos hl]
      exact List.mem_cons_of_mem _ hr
    · split at hq
      · rename_i hl
        rw [if_pos hl]
        exact List.mem_cons_of_mem _ (mem_visitedAll_below hg hr (above ++ [l]) ns hq)
      · exact absurd hq List.not_mem_nil

theorem mem_visitedAll_below {q r : Position} (hg : q.node.line.group?.isSome = true)
    (hr : r ∈ visitedAll (q.above ++ [q.node.line]) q.node.children) (above : List Line) :
    (ns : List Node) → q ∈ visitedAll above ns → r ∈ visitedAll above ns
  | [], hq => absurd hq List.not_mem_nil
  | n :: ns, hq => by
    rw [visitedAll, List.mem_append] at hq ⊢
    exact hq.imp (mem_visited_below hg hr above n) (mem_visitedAll_below hg hr above ns)

end

end Outline.Node

/-! ## The lines that are looked at -/

namespace Outline

/-- The positions that loading all rules looks at. -/
def visited (o : Outline) : List Position :=
  o.nodes.flatMap fun n => Position.visited ⟨[.outermost], n⟩

theorem visited_sublist_walk (o : Outline) : List.Sublist o.visited o.walk := by
  unfold visited walk
  induction o.nodes with
  | nil => exact List.nil_sublist _
  | cons n ns ih =>
    obtain ⟨l, below⟩ := n
    rw [List.flatMap_cons, Node.walkAll, Node.walk]
    exact ((Node.visitedAll_sublist _ below).cons _).append ih

/-- The numbers of content lines grow. -/
theorem pairwise_number_content (t : Text) :
    ((content t).map (·.2.number)).Pairwise (· < ·) := by
  have hnumbers : (content t).map (·.2.number)
      = (numberedContent 1 (dropMark t).lines).map fun entry => (entry.2 : Int) := by
    rw [content, contentFrom_eq, List.map_map]
    rfl
  have hall : (((dropMark t).lines.zipIdx 1).map (·.2)).Pairwise (· < ·) := by
    rw [List.zipIdx_map_snd]
    exact List.pairwise_lt_range' 1
  rw [hnumbers, List.pairwise_map]
  rw [List.pairwise_map] at hall
  exact (hall.sublist List.filter_sublist).imp Int.ofNat_lt.2

/-- The numbers of lines grow along the walk through an outline. -/
theorem pairwise_number_walk (source t : Text) :
    ((parse source t).walk.map (·.node.line.number)).Pairwise (· < ·) := by
  have hnumbers := congrArg (List.map Line.number) (lines_walk_parse source t)
  rw [List.map_map, List.map_map] at hnumbers
  have hgrow := pairwise_number_content t
  rw [← Function.comp_def Line.number, ← hnumbers] at hgrow
  exact hgrow

end Outline

/-! ## What a line brings about -/

/-- What one line brings about. -/
structure Share where
  clauses : List Clause
  groups : List Rule
  diagnostics : List Diagnostic

/-- A diagnostic with a message about the line at a position. -/
def Outline.Position.diagnostic (source : Text) (p : Position) (message : Text) : Diagnostic :=
  ⟨message, p.node.line.number, p.node.line.text, source⟩

/-- What the line at a position brings about: the clause that it is, the group that it opens with
what the lines below it say, or a diagnostic, which a diagnostic about the third of three tokens
precedes if that is no literal. -/
inductive Yields (source : Text) (p : Position) : Share → Prop where
  | clause {c : Clause} (h : Phrase p.node.line.tokens (.clause c)) : Yields source p ⟨[c], [], []⟩
  | group {m : Mode} {cs : List Clause} {gs : List Rule} (h : Phrase p.node.line.tokens (.group m))
      (hbelow : Says p.node.children cs gs) : Yields source p ⟨[], [⟨m, cs, gs⟩], []⟩
  | unrecognized (h : ∀ e, ¬ Phrase p.node.line.tokens e)
      (hliteral : ∀ name op t, p.node.line.tokens = [name, op, t] →
        ∃ literal : Literal, literal.Spelled t) :
      Yields source p ⟨[], [], [p.diagnostic source "Unrecognized condition expression:".toList]⟩
  | notNumber {name op t : Text} (h : p.node.line.tokens = [name, op, t])
      (hliteral : ∀ literal : Literal, ¬ literal.Spelled t) :
      Yields source p
        ⟨[], [],
          [p.diagnostic source ("Cannot convert value to a number: ".toList ++ t.quoted),
            p.diagnostic source "Unrecognized condition expression:".toList]⟩

/-- The diagnostics about the line at a position. -/
def Outline.Position.diagnostics (source : Text) (p : Position) : List Diagnostic :=
  p.reports.map (Report.diagnostic source)

/-- The share of the line at a position, as loading makes it. -/
def Outline.Position.share (source : Text) (p : Position) : Share :=
  ⟨p.node.line.clause?.toList, p.node.group?.toList, p.diagnostics source⟩

theorem Outline.Position.diagnostics_of_isUsable (source : Text) {p : Position}
    (h : p.node.line.isUsable = true) : p.diagnostics source = [] := by
  simp [diagnostics, reports, Line.complaints, h]

theorem Numeral.isLiteral_iff {t : Text} :
    isLiteral t = true ↔ ∃ literal : Literal, literal.Spelled t := by
  unfold isLiteral
  rw [Option.isSome_iff_exists]
  exact exists_congr fun _ => Literal.read?_eq_some_iff

theorem Outline.Line.not_phrase_of_not_isUsable {l : Line} (hlong : l.overlong? = none)
    (h : l.isUsable = false) (e : Entry) : ¬ Phrase l.tokens e := by
  intro he
  rcases phrase_cases l.tokens with ⟨c, hc⟩ | ⟨m, hm⟩ | hnone
  · simp [isUsable, (of_clause_phrase hlong hc).1] at h
  · simp [isUsable, (of_group_phrase hm).2] at h
  · exact hnone e he

/-- An unusable line has one diagnostic, or two if its third token of three is no literal. -/
theorem yields_of_not_isUsable (source : Text) {p : Position}
    (hlong : p.node.line.overlong? = none) (h : p.node.line.isUsable = false) :
    Yields source p ⟨[], [], p.diagnostics source⟩ := by
  have hnone := Line.not_phrase_of_not_isUsable hlong h
  unfold Position.diagnostics Position.reports Line.complaints
  rw [h, if_neg (by decide)]
  split
  · rename_i name op t htokens
    cases hliteral : Numeral.isLiteral t with
    | true =>
      refine .unrecognized hnone fun name' op' t' htokens' => ?_
      rw [htokens] at htokens'
      obtain ⟨-, -, rfl⟩ : name = name' ∧ op = op' ∧ t = t' := by simpa using htokens'
      exact Numeral.isLiteral_iff.1 hliteral
    | false =>
      refine .notNumber htokens fun literal hspelled => ?_
      rw [Numeral.isLiteral_iff.2 ⟨literal, hspelled⟩] at hliteral
      exact absurd hliteral (by decide)
  · rename_i hother
    exact .unrecognized hnone fun name op t htokens => absurd htokens (hother name op t)

/-- A line that does not interrupt loading brings about the share that loading makes of it. -/
theorem yields_share (source : Text) {p : Position} (hlong : p.node.line.overlong? = none)
    (hbelow : p.node.line.group?.isSome = true →
      Uninterrupted (p.above ++ [p.node.line]) p.node.children) :
    Yields source p (p.share source) := by
  obtain ⟨above, ⟨l, ns⟩⟩ := p
  have hline : (⟨above, ⟨l, ns⟩⟩ : Position).node.line = l := rfl
  cases hc : l.clause? with
  | some c =>
    have hg := Line.group?_of_clause? hc
    have husable : l.isUsable = true := by simp [Line.isUsable, hc]
    have hshare : Position.share source ⟨above, ⟨l, ns⟩⟩ = ⟨[c], [], []⟩ := by
      simp [Position.share, Position.diagnostics_of_isUsable, Node.group?, hline, hc, hg, husable]
    rw [hshare]
    exact .clause ((Line.clause?_eq_some_iff hlong).1 hc)
  | none =>
    cases hg : l.group? with
    | some m =>
      have husable : l.isUsable = true := by simp [Line.isUsable, hg]
      have hshare : Position.share source ⟨above, ⟨l, ns⟩⟩
          = ⟨[], [⟨m, ns.filterMap (·.line.clause?), Node.groupsOf ns⟩], []⟩ := by
        simp [Position.share, Position.diagnostics_of_isUsable, Node.group?, hline, hc, hg, husable]
      obtain ⟨cs, gs, hsaid⟩ := exists_said ns
      obtain ⟨rfl, rfl⟩ := hsaid.eq (hbelow (Option.isSome_of_eq_some hg))
      rw [hshare]
      exact .group (Line.group?_eq_some_iff.1 hg) hsaid
    | none =>
      have husable : l.isUsable = false := by simp [Line.isUsable, hc, hg]
      have hshare : Position.share source ⟨above, ⟨l, ns⟩⟩
          = ⟨[], [], Position.diagnostics source ⟨above, ⟨l, ns⟩⟩⟩ := by
        simp [Position.share, Node.group?, hline, hc, hg]
      rw [hshare]
      exact yields_of_not_isUsable source hlong husable

/-! ## All rules of an outline -/

/-- The first line that interrupts loading among all lines that are looked at is where loading the
rules below headers stops. -/
theorem Collection.fault_ofNodes (above : List Line) (ns : List Node) :
    (ofNodes above ns).fault
      = (ns.flatMap fun n => Position.visited ⟨above, n⟩).findSome? (·.node.line.overlong?) := by
  induction ns with
  | nil => rfl
  | cons n ns ih =>
    have hfirst := (Rule.intake_ofHeader ⟨above, n⟩).fault
    rw [ofNodes, List.flatMap_cons, List.findSome?_append, ← hfirst, ← ih]
    dsimp only
    cases (Rule.ofHeader ⟨above, n⟩).fault with
    | some fault => rfl
    | none => rfl

theorem Collection.fault_ofOutline (o : Outline) :
    (ofOutline o).fault = o.visited.findSome? (·.node.line.overlong?) :=
  fault_ofNodes [.outermost] o.nodes

/-- Formatting headers stops where loading them does. -/
theorem Formatting.fault_ofNodes {above : List Line} {ns : List Node}
    (hns : ∀ n ∈ ns, n.Storable) (d : Outline.Draft) :
    (Formatting.ofNodes above ns d).fault = (Collection.ofNodes above ns).fault.map .numeral := by
  induction ns generalizing d with
  | nil => rfl
  | cons n ns ih =>
    rw [List.forall_mem_cons] at hns
    rw [Formatting.ofNodes, Collection.ofNodes]
    dsimp only
    cases hfault : (Rule.ofHeader ⟨above, n⟩).fault with
    | none =>
      rw [Formatting.header_eq hns.1 hfault]
      exact ih hns.2 _
    | some fault =>
      have hwrite := Outline.Draft.write_tokens d fun t ht => (hns.1.header.1 t ht).1
      have hheader : (Formatting.header ⟨above, n⟩ d).fault = some (.numeral fault) := by
        unfold Formatting.header
        dsimp only
        rw [hwrite, hfault]
      rw [hheader]
      exact hheader

/-- Where all rules are loaded, no line that is looked at interrupts loading, the rules are what the
headers say, and the reports are those about the lines that are looked at. -/
theorem Collection.ofOutline_eq {o : Outline} (h : (Collection.ofOutline o).fault = none) :
    (∀ p ∈ o.visited, p.node.line.overlong? = none) ∧
      (Collection.ofOutline o).rules = o.nodes.map Node.rule ∧
      (Collection.ofOutline o).reports = o.visited.flatMap Position.reports := by
  have hheaders := Collection.fault_eq_none h
  obtain ⟨-, hrules, hreports⟩ := Collection.ofNodes_eq hheaders
  refine ⟨?_, hrules, hreports.trans ?_⟩
  · rw [fault_ofOutline] at h
    exact List.findSome?_eq_none_iff.1 h
  · rw [Outline.visited, List.flatMap_assoc]
    exact List.flatMap_congr fun n hn => (Rule.intake_ofHeader _).reports (hheaders n hn)

/-- The clauses of the lines that are looked at are those of the rules. -/
theorem Outline.clauses_visited_perm (o : Outline) :
    (o.visited.filterMap (·.node.line.clause?)).Perm
      ((o.nodes.map Node.rule).flatMap Rule.allClauses) := by
  rw [visited, List.filterMap_flatMap, List.flatMap_map]
  exact List.Perm.flatMap_left _ fun n _ => (Node.visitedAll_perm _ n.children).symm

/-- The groups of the lines that are looked at are those inside the rules, in order. -/
theorem Outline.groups_visited (o : Outline) :
    o.visited.filterMap (·.node.group?) = (o.nodes.map Node.rule).flatMap Rule.nested := by
  rw [visited, List.filterMap_flatMap, List.flatMap_map]
  exact List.flatMap_congr fun n _ => Node.filterMap_group?_visitedAll _ n.children

/-! ## The numbers in diagnostics -/

theorem Outline.Position.line_diagnostics (source : Text) (p : Position) :
    (p.diagnostics source).map (·.line)
      = List.replicate p.node.line.complaints.length p.node.line.number := by
  rw [diagnostics, reports, List.map_map, List.map_map]
  show List.map (fun _ => p.node.line.number) p.node.line.complaints = _
  rw [List.map_const']

theorem Outline.Line.length_complaints_le (l : Line) : l.complaints.length ≤ 2 := by
  unfold complaints
  split
  · exact Nat.zero_le 2
  · split
    · split
      · exact Nat.le_succ 1
      · exact Nat.le_refl 2
    · exact Nat.le_succ 1

section Numbers

variable {ps : List Position} (h : (ps.map (·.node.line.number)).Pairwise (· < ·))
include h

/-- The numbers in the diagnostics about lines whose numbers grow do not decrease. -/
theorem pairwise_line_diagnostics (source : Text) :
    ((ps.flatMap (Position.diagnostics source)).map (·.line)).Pairwise (· ≤ ·) := by
  rw [List.map_flatMap, List.pairwise_flatMap]
  rw [List.pairwise_map] at h
  simp only [Position.line_diagnostics]
  refine ⟨fun p _ => List.pairwise_replicate.2 (.inr (Int.le_refl _)),
    h.imp fun hlt x hx y hy => ?_⟩
  rw [List.eq_of_mem_replicate hx, List.eq_of_mem_replicate hy]
  exact Int.le_of_lt hlt

/-- No number is in more than two diagnostics about lines whose numbers grow. -/
theorem count_line_diagnostics_le (source : Text) (number : Int) :
    ((ps.flatMap (Position.diagnostics source)).map (·.line)).count number ≤ 2 := by
  induction ps with
  | nil => exact Nat.zero_le 2
  | cons p ps ih =>
    rw [List.map_cons, List.pairwise_cons] at h
    rw [List.flatMap_cons, List.map_append, List.count_append, Position.line_diagnostics]
    by_cases hp : p.node.line.number = number
    · -- The lines behind `p` have larger numbers.
      have hrest : ((ps.flatMap (Position.diagnostics source)).map (·.line)).count number = 0 := by
        rw [List.count_eq_zero, List.map_flatMap, List.mem_flatMap]
        rintro ⟨q, hq, hmem⟩
        rw [Position.line_diagnostics] at hmem
        have hlt := h.1 _ (List.mem_map_of_mem (f := (·.node.line.number)) hq)
        rw [hp, List.eq_of_mem_replicate hmem] at hlt
        exact absurd hlt (Int.lt_irrefl _)
      rw [hrest, hp, List.count_replicate_self]
      exact Line.length_complaints_le _
    · rw [List.count_replicate, if_neg (by simpa using hp), Nat.zero_add]
      exact ih h.2

end Numbers

/-- Where all rules of a text are loaded, every line that is looked at brings about one clause, one
group, or its diagnostics; all shares together are the clauses of the rules, the groups inside them
and the diagnostics, these in order. The numbers in the diagnostics do not decrease, none is there
more than twice, and none is that of a line that is not looked at. -/
theorem diagnostics_exact (source t : Text)
    (h : (Collection.ofOutline (.parse source t)).fault = none) :
    let o := Outline.parse source t
    let rules := (Collection.ofOutline o).rules
    let diagnostics := (Collection.ofOutline o).reports.map (Report.diagnostic source)
    (∃ shares, List.Forall₂ (Yields source) o.visited shares ∧
      (shares.flatMap Share.clauses).Perm (rules.flatMap Rule.allClauses) ∧
      shares.flatMap Share.groups = rules.flatMap Rule.nested ∧
      shares.flatMap Share.diagnostics = diagnostics) ∧
    (diagnostics.map (·.line)).Pairwise (· ≤ ·) ∧
    (∀ number, (diagnostics.map (·.line)).count number ≤ 2) ∧
    ∀ p ∈ o.walk, p ∉ o.visited → p.node.line.number ∉ diagnostics.map (·.line) := by
  intro o rules diagnostics
  obtain ⟨hlong, hsaid, hreports⟩ := Collection.ofOutline_eq h
  have hrules : rules = o.nodes.map Node.rule := hsaid
  have hdiagnostics : diagnostics = o.visited.flatMap (Position.diagnostics source) := by
    show List.map _ (Collection.ofOutline o).reports = _
    rw [hreports, List.map_flatMap]
    rfl
  have hgrow := Outline.pairwise_number_walk source t
  have hvisited : (o.visited.map (·.node.line.number)).Pairwise (· < ·) :=
    hgrow.sublist (o.visited_sublist_walk.map _)
  refine ⟨⟨o.visited.map (Position.share source), ?_, ?_, ?_, ?_⟩, ?_, ?_, ?_⟩
  · rw [List.forall₂_map_right_iff, List.forall₂_same]
    intro p hp
    refine yields_share source (hlong p hp) fun hg q hq => hlong q ?_
    obtain ⟨n, hn, hmem⟩ := List.mem_flatMap.1 hp
    exact List.mem_flatMap.2 ⟨n, hn, Node.mem_visitedAll_below hg hq _ _ hmem⟩
  · rw [List.flatMap_map, hrules]
    refine .trans (.of_eq ?_) o.clauses_visited_perm
    exact (List.filterMap_eq_flatMap_toList (fun p : Position => p.node.line.clause?) _).symm
  · rw [List.flatMap_map, hrules, ← o.groups_visited]
    exact (List.filterMap_eq_flatMap_toList (fun p : Position => p.node.group?) _).symm
  · rw [List.flatMap_map, hdiagnostics]
    rfl
  · rw [hdiagnostics]
    exact pairwise_line_diagnostics hvisited source
  · rw [hdiagnostics]
    exact count_line_diagnostics_le hvisited source
  · intro p hp hnot hmem
    rw [hdiagnostics, List.map_flatMap, List.mem_flatMap] at hmem
    obtain ⟨q, hq, hline⟩ := hmem
    rw [Position.line_diagnostics] at hline
    -- Numbers that grow along the walk are different at different positions.
    have hnodup : (o.walk.map (·.node.line.number)).Nodup := hgrow.imp Int.ne_of_lt
    have hmem := o.visited_sublist_walk.subset hq
    have hsame := List.inj_on_of_nodup_map hnodup hp hmem (List.eq_of_mem_replicate hline)
    exact hnot (hsame ▸ hq)

/-- An operator and an operand that are both wrong are two diagnostics, a number that is too large
for its format is one, a group has its own between them, and the line below a clause has none. -/
theorem diagnostics_exact_mixed_lines :
    let lines : List Text :=
      [['c'], "\tx ! y".toList, "\tand".toList, "\t\tnot x".toList, "\t\t\tz".toList,
        "\t\tz".toList, "\tx == 1e400".toList]
    let o := Outline.parse [] (Text.join ['\n'] lines)
    let rules := (Collection.ofOutline o).rules
    let diagnostics := (Collection.ofOutline o).reports.map (Report.diagnostic [])
    (Collection.ofOutline o).fault = none ∧
      rules.flatMap Rule.allClauses = [⟨['x'], .compare .equal, 0⟩] ∧
      diagnostics.map (fun d => (d.line, d.text)) =
        [(2, "x ! y".toList), (2, "x ! y".toList), (6, ['z']), (7, "x == 1e400".toList)] ∧
      (∃ shares, List.Forall₂ (Yields []) o.visited shares ∧
        shares.flatMap Share.groups = rules.flatMap Rule.nested ∧
        shares.flatMap Share.diagnostics = diagnostics) ∧
      5 ∉ diagnostics.map (·.line) := by
  intro lines o rules diagnostics
  have hfault : (Collection.ofOutline o).fault = none := by decide +kernel
  obtain ⟨⟨shares, hyields, -, hgroups, hdiagnostics⟩, -⟩ := diagnostics_exact [] _ hfault
  exact ⟨hfault, by decide +kernel, by decide +kernel, ⟨shares, hyields, hgroups, hdiagnostics⟩,
    by decide +kernel⟩

end Proviso
