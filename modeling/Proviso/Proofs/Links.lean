/-
  Links to the lines above.

  A position in the tree of a text has its lines above written out. Following the links from its
  line upwards meets just these lines (`climbs_trail`), since a position stands below the nearest
  earlier one that is indented less, and that is where the link of its line leads (`links_walk`).
  So a complaint that is printed by climbing has these lines for its trace, and goes to the owner
  above all lines (`printAt_links`).
-/
import Mathlib.Data.List.Induction
import Proviso.Findings
import Proviso.Proofs.Sessions

namespace Proviso.Outline

/-! ## Climbing -/

/-- The lines that are met from an index upwards, the outermost first, without the one above the
top. -/
inductive Climbs (ls : List Linked) : Nat → List Line → Prop
  | top {i : Nat} {l : Line} (h : ls[i]? = some ⟨l, none⟩) : Climbs ls i []
  | up {i j : Nat} {l : Line} {above : List Line} (h : ls[i]? = some ⟨l, some j⟩)
      (habove : Climbs ls j above) : Climbs ls i (above ++ [l])

/-- From an index there is one way up. -/
theorem Climbs.unique {ls : List Linked} {i : Nat} {above above' : List Line}
    (h : Climbs ls i above) (h' : Climbs ls i above') : above = above' := by
  induction h generalizing above' with
  | top hi =>
    cases h' with
    | top => rfl
    | up hi' => exact absurd (hi.symm.trans hi') (by simp)
  | up hi _ ih =>
    cases h' with
    | top hi' => exact absurd (hi.symm.trans hi') (by simp)
    | up hi' habove' =>
      obtain ⟨rfl, hj⟩ := Linked.mk.inj (Option.some.inj (hi.symm.trans hi'))
      rw [ih (Option.some.inj hj ▸ habove')]

/-! ## What is found by climbing -/

section Climb

variable {ls : List Linked} {i j : Nat} {l : Line} {above : List Line} {steps : Nat}

theorem climb_top (h : ls[i]? = some ⟨l, none⟩) : climb ls steps i = [i] := by
  cases steps with
  | zero => rfl
  | succ steps =>
    rw [climb, h]
    rfl

theorem climb_up (h : ls[i]? = some ⟨l, some j⟩) :
    climb ls (steps + 1) i = i :: climb ls steps j := by
  rw [climb, h]
  rfl

theorem below?_top (h : ls[i]? = some ⟨l, none⟩) : below? ls i = none := by
  rw [below?, h]
  rfl

theorem below?_up (h : ls[i]? = some ⟨l, some j⟩) : below? ls i = some l := by
  rw [below?, h]
  rfl

/-- With enough steps the lines that are met are those on the way up. -/
theorem Climbs.filterMap_climb (h : Climbs ls i above) (hsteps : above.length ≤ steps) :
    (climb ls steps i).filterMap (below? ls) = above.reverse := by
  induction h generalizing steps with
  | top hi =>
    rw [climb_top hi, List.filterMap_cons_none (below?_top hi)]
    rfl
  | up hi _ ih =>
    rw [List.length_append, List.length_singleton] at hsteps
    obtain ⟨steps, rfl⟩ : ∃ s, steps = s + 1 := ⟨steps - 1, by omega⟩
    rw [climb_up hi, List.filterMap_cons_some (below?_up hi), ih (Nat.le_of_succ_le_succ hsteps),
      List.reverse_append]
    rfl

/-- With enough steps the owner of what is at the top is met, if nothing on the way has one. -/
theorem Climbs.findSome?_climb (h : Climbs ls i above) (hsteps : above.length ≤ steps)
    {owners : Nat → Option Findings} {f : Findings}
    (htop : ∀ i l, ls[i]? = some ⟨l, none⟩ → owners i = some f)
    (hup : ∀ i l j, ls[i]? = some ⟨l, some j⟩ → owners i = none) :
    (climb ls steps i).findSome? owners = some f := by
  induction h generalizing steps with
  | top hi =>
    rw [climb_top hi, List.findSome?_cons, htop _ _ hi]
  | up hi _ ih =>
    rw [List.length_append, List.length_singleton] at hsteps
    obtain ⟨steps, rfl⟩ : ∃ s, steps = s + 1 := ⟨steps - 1, by omega⟩
    rw [climb_up hi, List.findSome?_cons, hup _ _ _ hi]
    exact ih (Nat.le_of_succ_le_succ hsteps)

end Climb

/-- The first line of the links is the one above the top, and every other is a line of the text,
linked to one in front. -/
theorem links_cases {t : Text} {i : Nat} {l : Linked} (h : (links t)[i]? = some l) :
    (i = 0 ∧ l.parent = none) ∨ ∃ j < i, l.parent = some j := by
  cases i with
  | zero =>
    rw [← Option.some.inj ((links_zero t).symm.trans h)]
    exact .inl ⟨rfl, rfl⟩
  | succ k =>
    have hlength : (links t).length = (content t).length + 1 := (find?_opened (content t)).1
    obtain ⟨hk, -⟩ := List.getElem?_eq_some_iff.1 h
    rw [hlength] at hk
    have hk := Nat.lt_of_succ_lt_succ hk
    have hsplit : content t = (content t).take k ++ (content t)[k] :: (content t).drop (k + 1) := by
      rw [← List.drop_eq_getElem_cons hk, List.take_append_drop]
    have hlink := links_getElem? hsplit
    have htake : ((content t).take k).length = k := List.length_take_of_le (Nat.le_of_lt hk)
    rw [htake, h] at hlink
    rw [Option.some.inj hlink]
    have hle := nearestIdx_le ((content t).take k) (content t)[k].1
    rw [htake] at hle
    exact .inr ⟨_, Nat.lt_succ_of_le hle, rfl⟩

/-- On the way up there are no more lines than in front. -/
theorem Climbs.length_le {t : Text} {i : Nat} {above : List Line} (h : Climbs (links t) i above) :
    above.length ≤ i := by
  induction h with
  | top _ => exact Nat.zero_le _
  | up hi _ ih =>
    rcases links_cases hi with ⟨-, hnone⟩ | ⟨j, hj, hparent⟩
    · exact nomatch hnone
    · obtain rfl := Option.some.inj hparent
      rw [List.length_append]
      exact Nat.succ_le_of_lt (Nat.lt_of_le_of_lt ih hj)

/-- What is printed about a line of a text goes to the owner above all lines, and its trace is made
up of the lines on the way up. -/
theorem printAt_links {t : Text} {i : Nat} {l : Linked} {above : List Line}
    (hi : (links t)[i]? = some l) (h : Climbs (links t) i above) (f : Findings) (c : Complaint) :
    printAt (links t) f.atTop i c = some ((Report.mk c l.line above).print (some f)) := by
  obtain ⟨hlt, -⟩ := List.getElem?_eq_some_iff.1 hi
  have hsteps : above.length ≤ (links t).length := Nat.le_trans h.length_le (Nat.le_of_lt hlt)
  have htrail : trailAt (links t) i = above := by
    rw [trailAt, upward, h.filterMap_climb hsteps, List.reverse_reverse]
  have howner : ownerAt (links t) f.atTop i = some f := by
    refine h.findSome?_climb hsteps (fun i l hi => ?_) fun i l j hi => ?_
    · rcases links_cases hi with ⟨rfl, -⟩ | ⟨j, -, hparent⟩
      · rfl
      · exact nomatch hparent
    · rcases links_cases hi with ⟨-, hnone⟩ | ⟨j, hj, -⟩
      · exact nomatch hnone
      · exact if_neg (Nat.ne_of_gt (Nat.zero_lt_of_lt hj))
  rw [printAt, hi, htrail, howner]
  rfl

/-! ## The way up from a position -/

theorem width_content (t : Text) : ∀ e ∈ content t, e.1 = widthIn (dropMark t).lines e.2 := by
  intro e he
  rw [content, contentFrom_eq] at he
  obtain ⟨entry, hentry, rfl⟩ := List.mem_map.1 he
  exact (widthIn_contentLine hentry).symm

/-- The way down to a child is that to the parent and one line more. -/
theorem IsChild.trail_eq {q p : Position} (h : IsChild q p) :
    p.trail = q.trail ++ [p.node.line] := by
  obtain ⟨k, hk⟩ := h
  obtain ⟨n, -, rfl⟩ := Option.map_eq_some_iff.1 hk
  show ((q.above ++ [q.node.line]) ++ [n.line]).drop 1 = _
  rw [List.drop_append_of_le_length (by simp)]
  rfl

/-- The line at a position, with its width. -/
def entryOf (w : Line → Nat) (q : Position) : Nat × Line := (w q.node.line, q.node.line)

/-- Where no earlier line is indented less, the link is to the line above the top. -/
theorem nearestIdx_of_nearestOuter_none {w : Line → Nat} {earlier : List Position} {p : Position}
    (h : nearestOuter w earlier p = none) :
    nearestIdx (earlier.map (entryOf w)) (w p.node.line) = 0 := by
  refine (nearestIdx_append fun e he => ?_).trans (nearestIdx_nil (w p.node.line))
  obtain ⟨q, hq, rfl⟩ := List.mem_map.1 he
  have hle := List.find?_eq_none.1 h q (List.mem_reverse.2 hq)
  simpa [entryOf] using hle

/-- Elsewhere it is to the nearest of them. -/
theorem nearestIdx_of_nearestOuter_some {w : Line → Nat} {earlier : List Position} {p q : Position}
    (h : nearestOuter w earlier p = some q) :
    ∃ before between, earlier = before ++ q :: between ∧
      nearestIdx (earlier.map (entryOf w)) (w p.node.line) = before.length + 1 := by
  obtain ⟨hlt, between, before, hrev, hbetween⟩ := List.find?_eq_some_iff_append.1 h
  have hsplit : earlier = before.reverse ++ q :: between.reverse := by
    rw [← List.reverse_reverse earlier, hrev, List.reverse_append, List.reverse_cons,
      List.append_assoc]
    rfl
  refine ⟨before.reverse, between.reverse, hsplit, ?_⟩
  have hwide : ∀ e ∈ between.reverse.map (entryOf w), w p.node.line ≤ e.1 := by
    intro e he
    obtain ⟨r, hr, rfl⟩ := List.mem_map.1 he
    simpa [entryOf] using hbetween r (List.mem_reverse.1 hr)
  rw [hsplit, List.map_append, List.map_cons, List.append_cons, nearestIdx_append hwide,
    nearestIdx_concat_of_lt (of_decide_eq_true hlt), List.length_map]

/-- The content of a text with the indentation of each line looked up again. -/
theorem content_eq_walk (source t : Text) :
    content t = (parse source t).walk.map (entryOf (widthIn (dropMark t).lines)) := by
  have hlines := lines_walk_parse source t
  have hwidths : (content t).map id
      = (content t).map fun e => (widthIn (dropMark t).lines e.2, e.2) :=
    List.map_congr_left fun e he => Prod.ext (width_content t e he) rfl
  have hboth := congrArg (List.map fun l => (widthIn (dropMark t).lines l, l)) hlines
  rw [List.map_map, List.map_map] at hboth
  rw [List.map_id] at hwidths
  exact hwidths.trans hboth.symm

/-- A line is linked to the nearest one on the walk before it that is indented less. -/
theorem links_walk (source : Text) {t : Text} {earlier later : List Position} {p : Position}
    (h : (parse source t).walk = earlier ++ p :: later) :
    let w := widthIn (dropMark t).lines
    (links t)[earlier.length + 1]?
      = some ⟨p.node.line, some (nearestIdx (earlier.map (entryOf w)) (w p.node.line))⟩ := by
  intro w
  have hcontent : content t = earlier.map (entryOf w) ++ entryOf w p :: later.map (entryOf w) := by
    rw [content_eq_walk source t, h, List.map_append, List.map_cons]
  have hlink := links_getElem? hcontent
  rwa [List.length_map] at hlink

/-- The links lead from every line of a text up its trail. -/
theorem climbs_trail (source t : Text) {earlier later : List Position} {p : Position}
    (h : (parse source t).walk = earlier ++ p :: later) :
    Climbs (links t) (earlier.length + 1) p.trail := by
  let w := widthIn (dropMark t).lines
  -- By induction on the number of lines in front, as a link always leads to an earlier line.
  induction hn : earlier.length using Nat.strongRecOn generalizing earlier p later with
  | ind n ih =>
    have hchild := isChild_nearestOuter source (w := w) (width_content t) h
    have hlink : (links t)[earlier.length + 1]?
        = some ⟨p.node.line, some (nearestIdx (earlier.map (entryOf w)) (w p.node.line))⟩ :=
      links_walk source h
    rw [hn] at hlink
    cases hnear : nearestOuter w earlier p with
    | none =>
      rw [hnear] at hchild
      rw [nearestIdx_of_nearestOuter_none hnear] at hlink
      rw [hchild.trail_eq]
      exact .up hlink (.top (links_zero t))
    | some q =>
      rw [hnear] at hchild
      obtain ⟨before, between, rfl, hidx⟩ := nearestIdx_of_nearestOuter_some hnear
      rw [hidx] at hlink
      have hwalk : (parse source t).walk = before ++ q :: (between ++ p :: later) := by
        rw [h, List.append_assoc, List.cons_append]
      have hlt : before.length < n := by
        rw [← hn, List.length_append, List.length_cons]
        omega
      rw [hchild.trail_eq]
      exact .up hlink (ih before.length hlt hwalk rfl)

end Proviso.Outline
