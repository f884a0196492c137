/-
  What loading makes of the lines below a header.

  `Intake` says what a loading did with some lines: it stopped at the first that interrupts it, or
  else took in every clause and every group in order and complained about every unusable line.
  Each step of loading keeps it (`intake_add`), and so does the whole of loading
  (`intake_ofHeader`), which gives the outcome of loading in full (`load_outcome`). What a header
  says, and which lines loading looks at, depends on nothing but tokens (`rule_erase`,
  `visited_erase`).

  Loading calls itself for every group within a group. How deep calls may be nested is not
  modelled: an interpreter with a limit of its own stops at groups about a thousand deep.
-/
import Proviso.Proofs.Clauses
import Proviso.Proofs.Drafts

namespace Proviso

open Outline (Line Node Position Complaint Report)

/-! ## The lines that loading looks at, and the rule they say -/

namespace Outline.Node

mutual

/-- The positions of a node below the lines `above` and of the nodes in the groups it opens. -/
def visited (above : List Line) : Node → List Position
  | ⟨l, ns⟩ => ⟨above, ⟨l, ns⟩⟩ :: if l.group?.isSome then visitedAll (above ++ [l]) ns else []

/-- The positions of nodes below the lines `above` and of the nodes in the groups they open. -/
def visitedAll (above : List Line) : List Node → List Position
  | [] => []
  | n :: ns => visited above n ++ visitedAll above ns

end

mutual

/-- The group that a node says, if its line opens one. -/
def group? : Node → Option Rule
  | ⟨l, ns⟩ => l.group?.map fun mode => ⟨mode, ns.filterMap (·.line.clause?), groupsOf ns⟩

/-- The groups that nodes say, in order. -/
def groupsOf : List Node → List Rule
  | [] => []
  | n :: ns => (group? n).toList ++ groupsOf ns

end

/-- The rule that a header and the nodes below it say. -/
def rule (n : Node) : Rule :=
  ⟨.ofHeader (n.line.token 0), n.children.filterMap (·.line.clause?), groupsOf n.children⟩

end Outline.Node

/-- The positions that loading looks at below a header. -/
def Outline.Position.visited (p : Position) : List Position :=
  Node.visitedAll (p.above ++ [p.node.line]) p.node.children

/-- The reports about the line at a position. -/
def Outline.Position.reports (p : Position) : List Report :=
  p.node.line.complaints.map (Report.about p)

/-- The rule with the clauses and groups that nodes say behind its own. -/
def Rule.takeIn (r : Rule) (ns : List Node) : Rule :=
  ⟨r.mode, r.clauses ++ ns.filterMap (·.line.clause?), r.groups ++ Node.groupsOf ns⟩

theorem Rule.takeIn_nil (r : Rule) : r.takeIn [] = r := by
  cases r
  simp [Rule.takeIn, Node.groupsOf, Rule.mode, Rule.clauses, Rule.groups]

theorem Rule.takeIn_cons (r : Rule) (n : Node) (ns : List Node) :
    r.takeIn (n :: ns) = (r.takeIn [n]).takeIn ns := by
  cases r
  cases hc : n.line.clause? <;>
    simp [Rule.takeIn, Node.groupsOf, Rule.mode, Rule.clauses, Rule.groups, hc]

theorem Rule.takeIn_empty (mode : Mode) (ns : List Node) :
    (Rule.empty mode).takeIn ns = ⟨mode, ns.filterMap (·.line.clause?), Node.groupsOf ns⟩ := rfl

/-! ## What loading does -/

/-- The outcome of loading the lines at `ps`, of which `r` is the rule: it stops at the first line
that interrupts it; without such a line it gives the rule and reports every unusable line. -/
structure Intake (l : Loading) (r : Rule) (ps : List Position) : Prop where
  fault : l.fault = ps.findSome? (·.node.line.overlong?)
  rule : l.fault = none → l.rule = r
  reports : l.fault = none → l.reports = ps.flatMap Position.reports

namespace Intake

theorem start (r : Rule) : Intake ⟨r, [], none⟩ r [] := ⟨rfl, fun _ => rfl, fun _ => rfl⟩

/-- Lines loaded after others. -/
theorem andThen {l : Loading} {r r' : Rule} {ps qs : List Position} {next : Rule → Loading}
    (h : Intake l r ps) (hnext : Intake (next r) r' qs) :
    Intake (l.andThen next) r' (ps ++ qs) := by
  obtain ⟨rule, events, fault⟩ := l
  have hfault := h.fault
  cases fault with
  | some f =>
    refine ⟨?_, fun hn => absurd hn (by simp [Loading.andThen]),
      fun hn => absurd hn (by simp [Loading.andThen])⟩
    rw [List.findSome?_append, ← hfault]
    rfl
  | none =>
    have hrule : rule = r := h.rule rfl
    subst hrule
    refine ⟨?_, hnext.rule, fun hn => ?_⟩
    · rw [List.findSome?_append, ← hfault]
      exact hnext.fault
    · rw [List.flatMap_append, ← h.reports rfl, ← hnext.reports hn]
      exact List.filterMap_append

/-- The end of a loading adds no report. -/
theorem complete {l : Loading} {r : Rule} {ps : List Position} (h : Intake l r ps) :
    Intake l.complete r ps := by
  let next : Rule → Loading := fun r => ⟨r, [.loaded r.mode r.clauses.length r.groups.length], none⟩
  have hend : Intake (next r) r [] := ⟨rfl, fun _ => rfl, fun _ => rfl⟩
  have hboth : Intake (l.andThen next) r (ps ++ []) := h.andThen hend
  rw [List.append_nil] at hboth
  exact hboth

/-- One line that does not stop loading and is dealt with. -/
theorem single {p : Position} (hp : p.node.line.overlong? = none) (r : Rule) {events : List Event}
    (h : events.filterMap Event.report? = p.reports) : Intake ⟨r, events, none⟩ r [p] := by
  refine ⟨?_, fun _ => rfl, fun _ => ?_⟩
  · rw [List.findSome?_cons, hp]
    rfl
  · rw [List.flatMap_singleton]
    exact h

/-- A line in front that neither stops loading nor is reported. -/
theorem cons {p : Position} {l : Loading} {r : Rule} {ps : List Position}
    (hp : p.node.line.overlong? = none) (hreports : p.reports = []) (h : Intake l r ps) :
    Intake l r (p :: ps) := by
  refine ⟨?_, h.rule, fun hn => ?_⟩
  · rw [List.findSome?_cons, hp]
    exact h.fault
  · rw [List.flatMap_cons, hreports]
    exact h.reports hn

/-- A group is added to a rule when it is complete. -/
theorem group {g : Loading} {r : Rule} {ps : List Position} (h : Intake g r ps) (rule : Rule) :
    Intake
      (match g.fault with
        | some fault => ⟨rule, g.events, some fault⟩
        | none => ⟨rule.addGroup g.rule, g.events, none⟩)
      (rule.addGroup r) ps := by
  have hfault := h.fault
  cases hg : g.fault with
  | some fault =>
    rw [hg] at hfault
    exact ⟨hfault, fun hn => absurd hn (by simp), fun hn => absurd hn (by simp)⟩
  | none =>
    rw [hg] at hfault
    exact ⟨hfault, fun _ => congrArg rule.addGroup (h.rule hg), fun _ => h.reports hg⟩

end Intake

theorem Outline.Position.reports_of_clause {p : Position} {c : Clause}
    (h : p.node.line.clause? = some c) : p.reports = [] := by
  simp [Position.reports, Line.complaints, Line.isUsable, h]

theorem Outline.Position.reports_of_group {p : Position} {mode : Mode}
    (h : p.node.line.group? = some mode) : p.reports = [] := by
  simp [Position.reports, Line.complaints, Line.isUsable, h]

namespace Rule

variable (rule : Rule) {l : Line} (ns : List Node)

theorem takeIn_clause {c : Clause} (h : l.clause? = some c) :
    rule.takeIn [⟨l, ns⟩] = rule.addClause c := by
  cases rule
  have hg := Line.group?_of_clause? h
  simp [takeIn, Node.groupsOf, Node.group?, Node.line, mode, clauses, groups, addClause, h, hg]

theorem takeIn_group {mode : Mode} (hc : l.clause? = none) (hg : l.group? = some mode) :
    rule.takeIn [⟨l, ns⟩] = rule.addGroup ((empty mode).takeIn ns) := by
  cases rule
  rw [takeIn_empty]
  simp [takeIn, Node.groupsOf, Node.group?, Node.line, Rule.mode, clauses, groups, addGroup, hc, hg]

theorem takeIn_unusable (hc : l.clause? = none) (hg : l.group? = none) :
    rule.takeIn [⟨l, ns⟩] = rule := by
  cases rule
  simp [takeIn, Node.groupsOf, Node.group?, Node.line, mode, clauses, groups, hc, hg]

mutual

/-- One line is taken in as what it says, or stops the loading. -/
theorem intake_add (above : List Line) (rule : Rule) :
    (n : Node) → Intake (add above rule n) (rule.takeIn [n]) (n.visited above)
  | ⟨l, ns⟩ => by
    rw [add, Entry.ofLine_eq, Node.visited]
    cases hlong : l.overlong? with
    | some fault =>
      have hp : (⟨above, ⟨l, ns⟩⟩ : Position).node.line.overlong? = some fault := hlong
      refine ⟨?_, fun h => absurd h (by simp), fun h => absurd h (by simp)⟩
      rw [List.findSome?_cons, hp]
    | none =>
      have hp : (⟨above, ⟨l, ns⟩⟩ : Position).node.line.overlong? = none := hlong
      cases hc : l.clause? with
      | some c =>
        have hg := Line.group?_of_clause? hc
        rw [takeIn_clause rule ns hc]
        simp only [Line.entry, hc, hg]
        exact .single hp _ (Position.reports_of_clause (p := ⟨above, ⟨l, ns⟩⟩) hc).symm
      | none =>
        cases hg : l.group? with
        | some mode =>
          have hgroup := (intake_addAll (above ++ [l]) (.empty mode) ns).complete
          rw [takeIn_group rule ns hc hg]
          simp only [Line.entry, hc, hg]
          exact .cons hp (Position.reports_of_group (p := ⟨above, ⟨l, ns⟩⟩) hg) (hgroup.group rule)
        | none =>
          rw [takeIn_unusable rule ns hc hg]
          simp only [Line.entry, hc, hg]
          refine .single hp _ ?_
          rw [List.filterMap_map]
          exact congrFun List.filterMap_eq_map' l.complaints

/-- Lines are taken in one after another. -/
theorem intake_addAll (above : List Line) (rule : Rule) :
    (ns : List Node) → Intake (addAll above rule ns) (rule.takeIn ns) (Node.visitedAll above ns)
  | [] => by
    rw [addAll, takeIn_nil]
    exact .start rule
  | n :: ns => by
    rw [addAll, takeIn_cons, Node.visitedAll]
    exact (intake_add above rule n).andThen (intake_addAll above _ ns)

end

/-- The rule below a header is what the header and the lines below it say. -/
theorem intake_ofHeader (p : Position) : Intake (ofHeader p) p.node.rule p.visited :=
  (intake_addAll (p.above ++ [p.node.line]) (.empty (.ofHeader (p.node.line.token 0)))
    p.node.children).complete

/-- Lines that can all be used are loaded without a fault and without a report. -/
theorem ofHeader_of_isUsable {p : Position} (h : ∀ q ∈ p.visited, q.node.line.isUsable = true) :
    (ofHeader p).fault = none ∧ (ofHeader p).rule = p.node.rule ∧ (ofHeader p).reports = [] := by
  have hintake := intake_ofHeader p
  have hfault : (ofHeader p).fault = none := by
    rw [hintake.fault, List.findSome?_eq_none_iff]
    exact fun q hq => Line.overlong?_of_isUsable (h q hq)
  refine ⟨hfault, hintake.rule hfault, ?_⟩
  rw [hintake.reports hfault, List.flatMap_eq_nil_iff]
  intro q hq
  simp [Position.reports, Line.complaints, h q hq]

end Rule

/-! ## Loading sees nothing but tokens -/

namespace Outline.Node

theorem filterMap_clause?_erase (ns : List Node) :
    (mapAll Line.erase ns).filterMap (·.line.clause?) = ns.filterMap (·.line.clause?) := by
  rw [mapAll_eq_map, List.filterMap_map]
  congr 1
  funext n
  show (n.map Line.erase).line.clause? = n.line.clause?
  rw [line_map]
  rfl

mutual

theorem group?_erase : (n : Node) → (n.map Line.erase).group? = n.group?
  | ⟨l, ns⟩ => by
    have hl : l.erase.group? = l.group? := rfl
    rw [map, group?, group?, hl, filterMap_clause?_erase, groupsOf_erase ns]

theorem groupsOf_erase : (ns : List Node) → groupsOf (mapAll Line.erase ns) = groupsOf ns
  | [] => rfl
  | n :: ns => by
    rw [mapAll, groupsOf, groupsOf, group?_erase n, groupsOf_erase ns]

end

theorem rule_erase : (n : Node) → (n.map Line.erase).rule = n.rule
  | ⟨l, ns⟩ => by
    show Rule.mk (.ofHeader (l.token 0)) ((mapAll Line.erase ns).filterMap (·.line.clause?))
      (groupsOf (mapAll Line.erase ns)) = _
    rw [filterMap_clause?_erase, groupsOf_erase]
    rfl

mutual

theorem visited_erase (above : List Line) : (n : Node) →
    ((n.map Line.erase).visited (above.map Line.erase)).map (·.node.line.tokens)
      = (n.visited above).map (·.node.line.tokens)
  | ⟨l, ns⟩ => by
    have hl : l.erase.group? = l.group? := rfl
    have habove : above.map Line.erase ++ [l.erase] = (above ++ [l]).map Line.erase := by simp
    rw [map, visited, visited, List.map_cons, List.map_cons, hl, habove]
    cases l.group?.isSome with
    | true => exact congrArg (l.tokens :: ·) (visitedAll_erase (above ++ [l]) ns)
    | false => rfl

theorem visitedAll_erase (above : List Line) : (ns : List Node) →
    (visitedAll (above.map Line.erase) (mapAll Line.erase ns)).map (·.node.line.tokens)
      = (visitedAll above ns).map (·.node.line.tokens)
  | [] => rfl
  | n :: ns => by
    rw [mapAll, visitedAll, visitedAll, List.map_append, List.map_append, visited_erase above n,
      visitedAll_erase above ns]

end

mutual

/-- Loading looks at some of the positions of a walk, in the same order. -/
theorem visited_sublist (above : List Line) : (n : Node) → (n.visited above).Sublist (n.walk above)
  | ⟨l, ns⟩ => by
    rw [visited, walk]
    refine List.Sublist.cons_cons _ ?_
    split
    · exact visitedAll_sublist (above ++ [l]) ns
    · exact List.nil_sublist _

theorem visitedAll_sublist (above : List Line) : (ns : List Node) →
    (visitedAll above ns).Sublist (walkAll above ns)
  | [] => List.Sublist.refl _
  | n :: ns => (visited_sublist above n).append (visitedAll_sublist above ns)

end

theorem exists_entry_of_mem_visitedAll {q : Position} {above : List Line} {ns : List Node}
    (h : q ∈ visitedAll above ns) (depth : Nat) : ∃ e ∈ entriesAll depth ns, e.2 = q.node.line := by
  have hwalk : q.node.line ∈ (walkAll above ns).map (·.node.line) :=
    List.mem_map_of_mem ((visitedAll_sublist above ns).subset h)
  rw [← entriesAll_lines depth above] at hwalk
  exact List.mem_map.1 hwalk

/-- All clauses that nodes say, in the order in which a rule has them. -/
def clausesOf (ns : List Node) : List Clause :=
  ns.filterMap (·.line.clause?) ++ Rule.allClausesOf (groupsOf ns)

mutual

/-- What a node adds to the clauses of a rule. -/
theorem clausesOf_cons_perm (above : List Line) (ns : List Node) : (n : Node) →
    (clausesOf (n :: ns)).Perm
      ((n.visited above).filterMap (·.node.line.clause?) ++ clausesOf ns)
  | ⟨l, ms⟩ => by
    unfold clausesOf
    rw [visited, groupsOf, group?, List.filterMap_cons, List.filterMap_cons]
    cases hc : l.clause? with
    | some c =>
      have hg := Line.group?_of_clause? hc
      simp [line, hc, hg]
    | none =>
      cases hg : l.group? with
      | none => simp [line, hc]
      | some mode =>
        have hms := visitedAll_perm (above ++ [l]) ms
        unfold clausesOf at hms
        simp only [line, hc, Option.map_some, Option.toList_some, List.singleton_append,
          Rule.allClausesOf, Rule.allClauses, Option.isSome_some, if_true]
        refine List.perm_append_comm_assoc _ _ _ |>.trans ?_
        exact hms.append_right _

/-- The clauses are those of the lines that loading looks at, up to their order. -/
theorem visitedAll_perm (above : List Line) : (ns : List Node) →
    (clausesOf ns).Perm ((visitedAll above ns).filterMap (·.node.line.clause?))
  | [] => List.Perm.refl _
  | n :: ns => by
    rw [visitedAll, List.filterMap_append]
    exact (clausesOf_cons_perm above ns n).trans ((visitedAll_perm above ns).append_left _)

end

end Outline.Node

/-! ## The outcome of loading -/

/-- Loading is interrupted by nothing but an integer with too many digits, in a line of three tokens
that it looks at. If there is none, the rule is made of all lines that can be used, and every other
line that loading looks at is reported, once and in order, as not recognized. -/
theorem load_outcome (p : Position) :
    match p.visited.findSome? (·.node.line.overlong?) with
    | some fault => (Rule.ofHeader p).fault = some fault
    | none =>
      (Rule.ofHeader p).fault = none ∧ (Rule.ofHeader p).rule = p.node.rule ∧
      (Rule.ofHeader p).reports.filter (·.complaint = .unrecognized)
        = (p.visited.filter (!·.node.line.isUsable)).map (Report.about · .unrecognized) := by
  have hintake := Rule.intake_ofHeader p
  split
  · rename_i fault hfault
    rw [hintake.fault, hfault]
  · rename_i hnone
    have hfault : (Rule.ofHeader p).fault = none := hintake.fault.trans hnone
    refine ⟨hfault, hintake.rule hfault, ?_⟩
    rw [hintake.reports hfault]
    induction p.visited with
    | nil => rfl
    | cons q qs ih =>
      have hq : (q.reports).filter (·.complaint = .unrecognized)
          = if q.node.line.isUsable then [] else [Report.about q .unrecognized] := by
        show (List.map (Report.about q) q.node.line.complaints).filter _ = _
        rw [List.filter_map]
        show List.map (Report.about q) (q.node.line.complaints.filter (· = .unrecognized)) = _
        rw [Line.unrecognized_complaints]
        split <;> rfl
      rw [List.flatMap_cons, List.filter_append, hq, ih, List.filter_cons]
      cases q.node.line.isUsable <;> rfl

/-- A header above one line with an operand. -/
def assignmentText (i : Int) : Text :=
  Text.unlines [['c'], ['\t', 'x', ' ', '=', ' '] ++ Text.ofInt i]

/-- The line below the header is read with the operand as its third token. -/
theorem nodesOf_assignmentText (i : Int) :
    ∃ k l ns, Outline.nodesOf (assignmentText i) = [⟨k, [⟨l, ns⟩]⟩] ∧
      l.tokens = [['x'], ['='], Text.ofInt i] := by
  let l : Line := .bare [['x'], ['='], Text.ofInt i]
  let header : Node := ⟨.bare [['c']], [⟨l, []⟩]⟩
  have hbare := Text.needsQuotes_ofInt i
  have hentries : Node.entriesAll 0 [header] = [(0, .bare [['c']]), (1, l)] := rfl
  have hrow : Outline.rowText (1, l) = ['\t', 'x', ' ', '=', ' '] ++ Text.ofInt i := by
    show ['\t'] ++ Outline.Token.lineOf [['x'], ['='], Text.ofInt i] = _
    rw [Outline.Token.lineOf_cons, Outline.Token.lineOf_cons]
    show ['\t'] ++ (['x'] ++ ' ' :: (['='] ++ ' ' :: Outline.Token.written (Text.ofInt i))) = _
    rw [Outline.Token.written_of_bare hbare]
    rfl
  have htext : assignmentText i
      = Text.unlines ((Node.entriesAll 0 [header]).map Outline.rowText) := by
    rw [hentries, List.map_cons, List.map_cons, List.map_nil, hrow]
    rfl
  have hsound : ∀ e ∈ Node.entriesAll 0 [header], Outline.Sound e ∧ e.2.tokens ≠ [] := by
    have hx : Outline.Token.Writable ['x'] ∧ Text.Unbroken ['x'] := by decide
    have hop : Outline.Token.Writable ['='] ∧ Text.Unbroken ['='] := by decide
    have hi := Outline.Token.sound_of_bare hbare
    have hc : Outline.Token.Writable ['c'] ∧ Text.Unbroken ['c'] := by decide
    rw [hentries, List.forall_mem_cons, List.forall_mem_singleton]
    exact ⟨⟨List.forall_mem_singleton.2 hc, List.cons_ne_nil _ _⟩,
      List.forall_mem_cons.2 ⟨hx, List.forall_mem_cons.2 ⟨hop, List.forall_mem_singleton.2 hi⟩⟩,
      List.cons_ne_nil _ _⟩
  have hmark : (Text.unlines ((Node.entriesAll 0 [header]).map Outline.rowText)).head?
      ≠ some Outline.byteOrderMark := by
    have hc : Outline.Token.Writable ['c'] := by decide
    rw [hentries, Outline.head?_unlines hc rfl]
    decide
  have hnodes := Outline.nodesOf_unlines hsound hmark
  rw [← htext] at hnodes
  obtain ⟨⟨k, ms⟩, hread, hsame⟩ := List.map_eq_singleton_iff.1 hnodes
  obtain ⟨-, hbelow⟩ := Node.mk.inj hsame
  rw [Node.mapAll_eq_map] at hbelow
  obtain ⟨⟨l', ns⟩, rfl, hline⟩ := List.map_eq_singleton_iff.1 hbelow
  obtain ⟨herase, -⟩ := Node.mk.inj hline
  have htokens : l'.erase.tokens = l.erase.tokens := congrArg Line.tokens herase
  exact ⟨k, l', ns, hread, htokens⟩

theorem fault_assignmentText {i : Int} (h : Numeral.fits i = false) :
    ∃ n, Outline.nodesOf (assignmentText i) = [n] ∧
      (Rule.ofHeader ⟨[.outermost], n⟩).fault
        = some (.tooLongToRead (Text.ofNat i.natAbs).length) := by
  obtain ⟨k, l, ns, hread, htokens⟩ := nodesOf_assignmentText i
  have hlong : ∀ above, (⟨above, ⟨l, ns⟩⟩ : Position).node.line.overlong?
      = some (.tooLongToRead (Text.ofNat i.natAbs).length) :=
    fun _ => Line.overlong?_ofInt htokens h
  refine ⟨⟨k, [⟨l, ns⟩]⟩, hread, ?_⟩
  rw [(Rule.intake_ofHeader _).fault, Position.visited, Node.children, Node.visitedAll,
    Node.visited, List.cons_append, List.findSome?_cons, hlong]

/-- One digit too many in an operand interrupts loading. -/
theorem load_interrupted_of_digit_too_many :
    ∃ n, (Outline.parse [] (assignmentText (10 ^ Numeral.maxDigits))).nodes = [n] ∧
      (Rule.ofHeader ⟨[.outermost], n⟩).fault ≠ none := by
  have hten : (10 : Int).natAbs = 10 := rfl
  have hfits : Numeral.fits (10 ^ Numeral.maxDigits) = false := by
    rw [← Bool.not_eq_true, Numeral.fits_iff, Int.natAbs_pow, hten]
    exact Nat.lt_irrefl _
  obtain ⟨n, hread, hfault⟩ := fault_assignmentText hfits
  refine ⟨n, (Outline.nodes_parse [] _).trans hread, ?_⟩
  rw [hfault]
  exact Option.some_ne_none _

end Proviso
