/-
  What a trace tells.

  A report about a line has a trace: its message, if it has one, and the lines from the top down to
  the line itself. The positions passed on the way down (`path`) are what the trace lists and what
  the links of the text lead back over, up to the owner that keeps the diagnostic. They come in the
  order of the text, and none of their lines holds a line break, so the lines of the trace can be
  told apart again (`print_exact`).
-/
import Proviso.Findings
import Proviso.Proofs.Links
import Proviso.Proofs.Verdicts

namespace Proviso

/-! ## Lines put together without a break behind the last -/

namespace Text

theorem linesFrom_unbroken {line : Text} (h : Unbroken line) (begun : Text)
    (hne : begun ≠ [] ∨ line ≠ []) : linesFrom begun line = [begun.reverse ++ line] := by
  induction line generalizing begun with
  | nil =>
    have hbegun : begun.isEmpty = false := by simpa using hne
    rw [linesFrom, hbegun, List.append_nil]
    rfl
  | cons c line ih =>
    rw [unbroken_cons] at h
    rw [linesFrom_cons _ _ h.1, ih h.2 _ (Or.inl (List.cons_ne_nil _ _)), List.reverse_cons,
      List.append_assoc]
    rfl

/-- Lines with a line feed between neighbours are found again, unless the last one is empty. -/
theorem lines_join {ls : List Text} (h : ∀ l ∈ ls, Unbroken l) (hlast : ls.getLast? ≠ some []) :
    lines (join ['\n'] ls) = ls := by
  induction ls with
  | nil => rfl
  | cons line ls ih =>
    rw [List.forall_mem_cons] at h
    cases ls with
    | nil => exact linesFrom_unbroken h.1 [] (Or.inr fun hnil => hlast (by rw [hnil]; rfl))
    | cons next ls =>
      rw [join, lines, List.append_assoc, List.singleton_append, linesFrom_line h.1]
      · exact congrArg (line :: ·) (ih h.2 (by rwa [List.getLast?_cons_cons] at hlast))
      · exact List.cons_ne_nil _ _

end Text

namespace Outline

/-! ## The way down to a position -/

namespace Position

/-- The positions on the way down along indices of children. -/
def path (p : Position) : List Nat → List Position
  | [] => []
  | i :: is => (p.child? i).toList ++ (p.child? i).elim [] (path · is)

variable {p q : Position} {is : List Nat}

theorem path_cons {i : Nat} (h : p.child? i = some q) : p.path (i :: is) = q :: q.path is := by
  rw [path, h]
  rfl

theorem child_eq {i : Nat} (h : p.child? i = some q) : q.above = p.above ++ [p.node.line] := by
  obtain ⟨n, -, rfl⟩ := Option.map_eq_some_iff.1 h
  rfl

/-- A step down leads to a child, and from there on along the other indices. -/
theorem descend?_cons_eq_some {i : Nat} (h : p.descend? (i :: is) = some q) :
    ∃ c, p.child? i = some c ∧ c.descend? is = some q :=
  Option.bind_eq_some_iff.1 h

/-- There is one position on the way for each index, the one that the indices so far lead to. -/
theorem getElem?_path (h : p.descend? is = some q) :
    (p.path is).length = is.length ∧
      ∀ k < is.length, p.descend? (is.take (k + 1)) = (p.path is)[k]? := by
  induction is generalizing p with
  | nil => exact ⟨rfl, fun k hk => absurd hk (Nat.not_lt_zero k)⟩
  | cons i is ih =>
    obtain ⟨c, hc, hdescend⟩ := descend?_cons_eq_some h
    obtain ⟨hlength, hstep⟩ := ih hdescend
    rw [path_cons hc]
    refine ⟨congrArg Nat.succ hlength, fun k hk => ?_⟩
    rw [List.take_succ_cons, descend?, hc]
    show c.descend? (is.take k) = _
    cases k with
    | zero => rfl
    | succ k => exact hstep k (Nat.lt_of_succ_lt_succ hk)

/-- The lines above a position and its own are those above the start and those on the way. -/
theorem lines_path (h : p.descend? is = some q) :
    q.above ++ [q.node.line] = (p.above ++ [p.node.line]) ++ (p.path is).map (·.node.line) := by
  induction is generalizing p with
  | nil =>
    obtain rfl := Option.some.inj h
    exact (List.append_nil _).symm
  | cons i is ih =>
    obtain ⟨c, hc, hdescend⟩ := descend?_cons_eq_some h
    rw [ih hdescend, path_cons hc, child_eq hc, List.map_cons, List.append_assoc]
    rfl

end Position

namespace Node

/-- The walk over a node among others is part of the walk over all of them. -/
theorem walk_sublist_walkAll (above : List Line) {n : Node} {ns : List Node} (h : n ∈ ns) :
    (walk above n).Sublist (walkAll above ns) := by
  induction ns with
  | nil => exact absurd h List.not_mem_nil
  | cons m ns ih =>
    rw [walkAll]
    rcases List.mem_cons.1 h with rfl | h
    · exact List.sublist_append_left _ _
    · exact (ih h).trans (List.sublist_append_right _ _)

end Node

/-- The positions on the way down come in the order of the walk. -/
theorem Position.path_sublist_walkAll (p : Position) (is : List Nat) :
    (p.path is).Sublist (Node.walkAll (p.above ++ [p.node.line]) p.node.children) := by
  induction is generalizing p with
  | nil => exact List.nil_sublist _
  | cons i is ih =>
    cases hc : p.child? i with
    | none =>
      rw [path, hc]
      exact List.nil_sublist _
    | some c =>
      rw [path_cons hc]
      obtain ⟨n, hn, rfl⟩ := Option.map_eq_some_iff.1 hc
      refine List.Sublist.trans ?_
        (Node.walk_sublist_walkAll _ (List.mem_of_getElem? hn))
      obtain ⟨l, ns⟩ := n
      exact (ih ⟨p.above ++ [p.node.line], ⟨l, ns⟩⟩).cons_cons _

/-! ## The trace -/

section Trace

variable {o : Outline} {is : List Nat} {p : Position}

/-- Below the line above the top, the trail is made up of the lines on the way. -/
theorem trail_eq_path (h : (Position.top o.root).descend? is = some p) :
    p.trail = ((Position.top o.root).path is).map (·.node.line) := by
  rw [Position.trail, Position.lines_path h]
  rfl

theorem path_sublist_walk (o : Outline) (is : List Nat) :
    ((Position.top o.root).path is).Sublist o.walk :=
  (Position.top o.root).path_sublist_walkAll is

theorem getLast?_path (h : (Position.top o.root).descend? is = some p) (his : is ≠ []) :
    ((Position.top o.root).path is).getLast? = some p := by
  obtain ⟨hlength, hstep⟩ := Position.getElem?_path h
  have hpos := List.length_pos_iff.2 his
  rw [List.getLast?_eq_getElem?, hlength, ← hstep _ (by omega), Nat.sub_add_cancel hpos,
    List.take_length, h]

end Trace

theorem Report.unbroken_traceLine (k : Nat) {l : Line} (h : l.text.Unbroken) :
    (traceLine k l).Unbroken := by
  have hstart : Text.Unbroken ['L'] := by decide
  have hcolon : Text.Unbroken ": ".toList := by decide
  have hindent : Text.Unbroken (List.replicate (2 * k) ' ') := by
    intro c hc
    rw [List.eq_of_mem_replicate hc]
    decide
  exact ((((hstart.append (Text.unbroken_ofInt _)).append hcolon).append hindent).append h)

/-- Of a trace without line breaks in its message and in the texts of its lines, the lines are the
message, if it is not empty, and one for each line of the trail. -/
theorem Report.lines_trace {r : Report} (hmessage : r.complaint.message.Unbroken)
    (htexts : ∀ l ∈ r.trail, l.text.Unbroken) (htrail : r.trail ≠ []) :
    Text.lines r.trace = r.traceLines := by
  refine Text.lines_join (fun l hl => ?_) ?_
  · rw [traceLines, List.mem_append] at hl
    rcases hl with hl | hl
    · split at hl
      · exact absurd hl List.not_mem_nil
      · rw [List.mem_singleton.1 hl]
        exact hmessage
    · obtain ⟨k, hk, rfl⟩ := List.mem_mapIdx.1 hl
      exact unbroken_traceLine k (htexts _ (List.getElem_mem hk))
  · obtain ⟨front, l, hfront⟩ := (List.eq_nil_or_concat' r.trail).resolve_left htrail
    rw [traceLines, hfront, List.mapIdx_concat, ← List.append_assoc, List.getLast?_append]
    exact fun h => List.cons_ne_nil _ _ (Option.some.inj h)

/-- A trace of a line at some depth, with a message without line breaks, has the message, if it is
not empty, for its first line, and then as many lines as the depth: those of the positions passed on
the way down, each with its number, two spaces for each level and its text. The numbers grow along
the way, and the links from the line upwards lead back over the same lines: what is printed by
climbing them from the index of the line is just this trace, and the owner that is found is that
above all lines. One diagnostic of the line comes behind those that this owner has kept, and nothing
else is changed. -/
theorem print_exact (source t : Text) (earlier : List Diagnostic) {is : List Nat} {p : Position}
    {message : Text} (hp : (Position.top (parse source t).root).descend? is = some p)
    (his : is ≠ []) (hmessage : message.Unbroken) :
    let o := parse source t
    let owner : Findings := ⟨o.source, earlier⟩
    let printed := (Report.about p (.remark message)).print (some owner)
    ∃ path : List Position,
      path.length = is.length ∧
      (∀ k < is.length, (Position.top o.root).descend? (is.take (k + 1)) = path[k]?) ∧
      (∃ i j, (links t)[i]? = some ⟨p.node.line, some j⟩ ∧
        Climbs (links t) i (path.map (·.node.line)) ∧
        printAt (links t) owner.atTop i (.remark message) = some printed) ∧
      Text.lines printed.trace
        = (if message = [] then [] else [message])
          ++ path.mapIdx (fun k q => "L".toList ++ Text.ofInt q.node.line.number ++ ": ".toList
            ++ List.replicate (2 * k) ' ' ++ q.node.line.text) ∧
      (path.map (·.node.line.number)).Pairwise (· < ·) ∧
      printed.owner = some ⟨source,
        earlier ++ [⟨message, p.node.line.number, p.node.line.text, source⟩]⟩ := by
  intro o owner printed
  obtain ⟨hlength, hstep⟩ := Position.getElem?_path hp
  have htrail := trail_eq_path hp
  have hwalk := path_sublist_walk o is
  have hlast := getLast?_path hp his
  have hmem : p ∈ o.walk := hwalk.subset (List.mem_of_getLast? hlast)
  have hne : (Position.top o.root).path is ≠ [] := by
    intro hnil
    rw [hnil] at hlast
    exact absurd hlast (by simp)
  refine ⟨(Position.top o.root).path is, hlength, hstep, ?_, ?_, ?_, rfl⟩
  · obtain ⟨before, after, hsplit⟩ := List.append_of_mem hmem
    have hlink := links_walk source hsplit
    have hclimbs := climbs_trail source t hsplit
    have hprinted := printAt_links hlink hclimbs owner (.remark message)
    rw [htrail] at hclimbs
    exact ⟨_, _, hlink, hclimbs, hprinted⟩
  · have htexts : ∀ l ∈ p.trail, l.text.Unbroken := by
      intro l hl
      rw [htrail] at hl
      obtain ⟨q, hq, rfl⟩ := List.mem_map.1 hl
      exact unbroken_text (hwalk.subset hq)
    have hlines : Text.lines printed.trace = _ :=
      Report.lines_trace (r := .about p (.remark message)) hmessage htexts (by
        show p.trail ≠ []
        rw [htrail]
        simpa using hne)
    rw [hlines, Report.traceLines]
    show (if message.isEmpty then [] else [message]) ++ p.trail.mapIdx Report.traceLine = _
    rw [htrail]
    congr 1
    · cases message <;> rfl
    · refine List.ext_getElem? fun k => ?_
      rw [List.getElem?_mapIdx, List.getElem?_mapIdx, List.getElem?_map, Option.map_map]
      rfl
  · exact (pairwise_number_walk source t).sublist (hwalk.map _)

/-- A trace of a line that is indented like one before it, below one that is indented less, printed
with an empty message and kept behind another diagnostic. -/
theorem print_exact_dedent :
    let t : Text := [' ', 'a', ' ', '\'', '\n', ' ', ' ', ' ', 'b', '\n', '\n', ' ', ' ', 'c', ' ',
      '1', ' ', '#', '\x0C', 'd']
    let c : Position := ⟨[.outermost, ⟨1, ['a', ' ', '\''], [['a'], ['\'']]⟩],
      ⟨⟨4, ['c', ' ', '1', ' ', '#'], [['c'], ['1']]⟩, []⟩⟩
    let kept : Diagnostic := ⟨['m'], 2, ['b'], ['f']⟩
    let printed := (Report.about c (.remark [])).print (some ⟨['f'], [kept]⟩)
    ((Position.top (parse ['f'] t).root).descend? [0, 1] = some c ∧ [0, 1] ≠ [] ∧
      Text.Unbroken []) ∧
    Text.lines printed.trace
      = [['L', '1', ':', ' ', 'a', ' ', '\''],
        ['L', '4', ':', ' ', ' ', ' ', 'c', ' ', '1', ' ', '#']] ∧
    printed.owner = some ⟨['f'], [kept, ⟨[], 4, ['c', ' ', '1', ' ', '#'], ['f']⟩]⟩ := by
  intro t c kept printed
  have hc : (Position.top (parse ['f'] t).root).descend? [0, 1] = some c := rfl
  have hne : [0, 1] ≠ [] := by decide
  obtain ⟨path, hlength, hstep, -, htrace, -, howner⟩ :=
    print_exact ['f'] t [kept] hc hne Text.unbroken_nil
  obtain ⟨q, r, rfl⟩ := List.length_eq_two.1 hlength
  obtain rfl := Option.some.inj (hstep 0 (by decide))
  obtain rfl := Option.some.inj (hstep 1 (by decide))
  exact ⟨⟨hc, hne, Text.unbroken_nil⟩, htrace, howner⟩

end Outline

end Proviso
