/-
  Reading with a stack of open lines.

  A line of a text is linked to the innermost line that is open when it is read. Of all lines that
  have been read, only the open ones can be the nearest that is indented less than a next line
  (`find?_opened`), so the links lead to the nearest earlier lines that are indented less
  (`links_getElem?`). The trees that the links put together can therefore be had without them, from
  the last line to the first: a line takes as its children those of the trees behind it that are
  indented more, up to the first that is not (`forest`). Most proofs about trees are by induction
  on the lines in this order; that both ways lead to the same tree, lists of children included, is
  proved here once (`assemble_links`, `nodesOf_eq`).
-/
import Mathlib.Data.List.Induction
import Mathlib.Data.List.TakeWhile
import Proviso.Outline.Layout

namespace Proviso.Outline

/-! ## From the last line to the first -/

/-- Puts a line in front of a forest: the trees at its front that are indented more go below
the line. -/
def adopt (entry : Nat × Line) (forest : List (Nat × Node)) : List (Nat × Node) :=
  let below := forest.takeWhile fun tree => entry.1 < tree.1
  let beside := forest.dropWhile fun tree => entry.1 < tree.1
  (entry.1, ⟨entry.2, below.map (·.2)⟩) :: beside

/-- The trees of content lines, each with the indentation of its top line. -/
def forest (entries : List (Nat × Line)) : List (Nat × Node) := entries.foldr adopt []

/-- Where the trees are indented less and less, those that are indented more than `w` are in
front. -/
theorem filter_descending (w : Nat) {trees : List (Nat × Node)}
    (h : trees.Pairwise fun a b => b.1 ≤ a.1) :
    trees.filter (fun tree => w < tree.1) = trees.takeWhile (fun tree => w < tree.1) ∧
      trees.filter (fun tree => ¬ w < tree.1) = trees.dropWhile fun tree => w < tree.1 := by
  induction trees with
  | nil => exact ⟨rfl, rfl⟩
  | cons tree trees ih =>
    obtain ⟨hle, htrees⟩ := List.pairwise_cons.1 h
    obtain ⟨htake, hdrop⟩ := ih htrees
    by_cases hw : w < tree.1
    · constructor
      · rw [List.filter_cons_of_pos (by simpa using hw), htake,
          List.takeWhile_cons_of_pos (by simpa using hw)]
      · rw [List.filter_cons_of_neg (by simpa using hw), hdrop,
          List.dropWhile_cons_of_pos (by simpa using hw)]
    · have hall : ∀ b ∈ tree :: trees, ¬ w < b.1 :=
        List.forall_mem_cons.2 ⟨hw, fun b hb => by have := hle b hb; omega⟩
      constructor
      · rw [List.takeWhile_cons_of_neg (by simpa using hw)]
        exact List.filter_eq_nil_iff.2 fun b hb => by simpa using hall b hb
      · rw [List.dropWhile_cons_of_neg (by simpa using hw)]
        exact List.filter_eq_self.2 fun b hb => by simpa using hall b hb

/-- The trees of content lines are indented less and less. -/
theorem pairwise_forest (entries : List (Nat × Line)) :
    (forest entries).Pairwise fun a b => b.1 ≤ a.1 := by
  induction entries with
  | nil => exact .nil
  | cons e entries ih =>
    refine .cons (fun b hb => ?_) (ih.sublist (List.dropWhile_sublist _))
    have hbeside : b ∈ (forest entries).filter fun tree => ¬ e.1 < tree.1 :=
      (filter_descending e.1 ih).2 ▸ hb
    simpa using (List.mem_filter.1 hbeside).2

/-! ## The nearest earlier line that is indented less -/

/-- The indentations of lines and their indices among all lines, the last line in front. -/
def history (entries : List (Nat × Line)) : List (Nat × Nat) :=
  ((entries.zipIdx 1).map fun e => (e.1.1, e.2)).reverse

theorem history_concat (entries : List (Nat × Line)) (e : Nat × Line) :
    history (entries ++ [e]) = (e.1, entries.length + 1) :: history entries := by
  unfold history
  rw [List.zipIdx_append, List.map_append, List.reverse_append, Nat.add_comm 1]
  rfl

theorem find?_dropWhile_of_le {w b : Nat} (h : b ≤ w) (opened : List (Nat × Nat)) :
    (opened.dropWhile fun o => w ≤ o.1).find? (·.1 < b) = opened.find? (·.1 < b) := by
  induction opened with
  | nil => rfl
  | cons o opened ih =>
    by_cases ho : w ≤ o.1
    · have hb : ¬ o.1 < b := Nat.not_lt.2 (Nat.le_trans h ho)
      rw [List.dropWhile_cons_of_pos (by simpa using ho), ih,
        List.find?_cons_of_neg (by simpa using hb)]
    · rw [List.dropWhile_cons_of_neg (by simpa using ho)]

theorem head?_dropWhile_eq_find? (w : Nat) (opened : List (Nat × Nat)) :
    (opened.dropWhile fun o => w ≤ o.1).head? = opened.find? (·.1 < w) := by
  rw [← List.find?_not_eq_head?_dropWhile]
  congr 1
  funext o
  rw [← decide_not, decide_eq_decide, Nat.not_le]

/-- What is open is as good as the whole history for finding the nearest line that is indented
less. -/
theorem find?_opened (entries : List (Nat × Line)) :
    let s := entries.foldl Linking.take .start
    s.links.length = entries.length + 1 ∧
      ∀ b, s.opened.find? (·.1 < b) = (history entries).find? (·.1 < b) := by
  induction entries using List.reverseRecOn with
  | nil => exact ⟨rfl, fun _ => rfl⟩
  | append_singleton entries e ih =>
    obtain ⟨hlength, hfind⟩ := ih
    rw [List.foldl_append]
    refine ⟨?_, fun b => ?_⟩
    · show (_ ++ [_]).length = _
      rw [List.length_append, hlength, List.length_append]
      rfl
    · rw [history_concat]
      show ((e.1, (entries.foldl Linking.take .start).links.length) :: _).find? _ = _
      rw [hlength]
      by_cases hb : e.1 < b
      · rw [List.find?_cons_of_pos (by simpa using hb), List.find?_cons_of_pos (by simpa using hb)]
      · rw [List.find?_cons_of_neg (by simpa using hb), List.find?_cons_of_neg (by simpa using hb),
          find?_dropWhile_of_le (Nat.not_lt.1 hb), hfind]

/-- The index of the nearest of some lines that is indented less than `w`, 0 if there is none. -/
def nearestIdx (entries : List (Nat × Line)) (w : Nat) : Nat :=
  (((history entries).find? (·.1 < w)).map (·.2)).getD 0

theorem nearestIdx_nil (w : Nat) : nearestIdx [] w = 0 := rfl

/-- A further line is the nearest for what is indented more, and for nothing else. -/
theorem nearestIdx_concat_of_lt {entries : List (Nat × Line)} {e : Nat × Line} {w : Nat}
    (h : e.1 < w) : nearestIdx (entries ++ [e]) w = entries.length + 1 := by
  rw [nearestIdx, history_concat, List.find?_cons_of_pos (by simpa using h)]
  rfl

theorem nearestIdx_concat_of_le {entries : List (Nat × Line)} {e : Nat × Line} {w : Nat}
    (h : ¬ e.1 < w) : nearestIdx (entries ++ [e]) w = nearestIdx entries w := by
  rw [nearestIdx, history_concat, List.find?_cons_of_neg (by simpa using h)]
  rfl

/-- Lines that are not indented less make no difference. -/
theorem nearestIdx_append {before between : List (Nat × Line)} {w : Nat}
    (h : ∀ b ∈ between, w ≤ b.1) : nearestIdx (before ++ between) w = nearestIdx before w := by
  induction between using List.reverseRecOn with
  | nil => rw [List.append_nil]
  | append_singleton between b ih =>
    rw [List.forall_mem_append, List.forall_mem_singleton] at h
    rw [← List.append_assoc, nearestIdx_concat_of_le (Nat.not_lt.2 h.2), ih h.1]

theorem take_links (entries : List (Nat × Line)) (e : Nat × Line) :
    ((entries ++ [e]).foldl Linking.take .start).links
      = (entries.foldl Linking.take .start).links ++ [⟨e.2, some (nearestIdx entries e.1)⟩] := by
  rw [List.foldl_append]
  show _ ++ [Linked.mk _ (some (Option.getD (Option.map _ (List.head? _)) 0))] = _
  rw [head?_dropWhile_eq_find?, (find?_opened entries).2]
  rfl

/-- The links of lines that stand behind others. -/
def linksBehind (earlier : List (Nat × Line)) : List (Nat × Line) → List Linked
  | [] => []
  | e :: later => ⟨e.2, some (nearestIdx earlier e.1)⟩ :: linksBehind (earlier ++ [e]) later

theorem links_append (earlier later : List (Nat × Line)) :
    ((earlier ++ later).foldl Linking.take .start).links
      = (earlier.foldl Linking.take .start).links ++ linksBehind earlier later := by
  induction later generalizing earlier with
  | nil => rw [linksBehind, List.append_nil, List.append_nil]
  | cons e later ih =>
    have hsplit : earlier ++ e :: later = (earlier ++ [e]) ++ later := by
      rw [List.append_assoc, List.singleton_append]
    rw [hsplit, ih, take_links, List.append_assoc, List.singleton_append, linksBehind]

theorem links_eq (t : Text) : links t = ⟨.outermost, none⟩ :: linksBehind [] (content t) :=
  links_append [] (content t)

theorem links_zero (t : Text) : (links t)[0]? = some ⟨.outermost, none⟩ := by
  rw [links_eq]
  rfl

/-- Every line is linked to the nearest earlier one that is indented less. -/
theorem links_getElem? {t : Text} {earlier later : List (Nat × Line)} {e : Nat × Line}
    (h : content t = earlier ++ e :: later) :
    (links t)[earlier.length + 1]? = some ⟨e.2, some (nearestIdx earlier e.1)⟩ := by
  rw [links, h, links_append, ← (find?_opened earlier).1,
    List.getElem?_append_right (Nat.le_refl _), Nat.sub_self]
  rfl

/-! ## The trees that the links put together -/

theorem nearestIdx_le (entries : List (Nat × Line)) (w : Nat) :
    nearestIdx entries w ≤ entries.length := by
  induction entries using List.reverseRecOn with
  | nil => exact Nat.le_refl _
  | append_singleton entries e ih =>
    rw [List.length_append, List.length_singleton]
    by_cases hw : e.1 < w
    · exact Nat.le_of_eq (nearestIdx_concat_of_lt hw)
    · rw [nearestIdx_concat_of_le hw]
      exact Nat.le_succ_of_le ih

/-- Behind a line, what is indented more than it is linked to it. -/
theorem nearestIdx_concat_eq_iff {entries : List (Nat × Line)} {e : Nat × Line} {w : Nat} :
    nearestIdx (entries ++ [e]) w = entries.length + 1 ↔ e.1 < w := by
  by_cases h : e.1 < w
  · exact iff_of_true (nearestIdx_concat_of_lt h) h
  · have hle := nearestIdx_le entries w
    rw [nearestIdx_concat_of_le h]
    exact iff_of_false (by omega) h

/-- A line takes from the trees behind it those that are linked to its index. -/
theorem assemble_cons {i : Nat} (l : Linked) {ls : List Linked} {trees : List (Nat × Node)}
    {link : Nat → Nat}
    (h : assemble (i + 1) ls = trees.map fun tree => (some (link tree.1), tree.2)) :
    assemble i (l :: ls)
      = (l.parent, ⟨l.line, (trees.filter fun tree => link tree.1 = i).map (·.2)⟩)
        :: (trees.filter fun tree => link tree.1 ≠ i).map
            fun tree => (some (link tree.1), tree.2) := by
  rw [assemble, h, List.filter_map, List.filter_map, List.map_map]
  simp [Function.comp_def]

/-- The links of lines behind others put together the trees that the forest of these lines has, and
the top lines of these trees are linked to lines in front. -/
theorem assemble_linksBehind (earlier later : List (Nat × Line)) :
    assemble (earlier.length + 1) (linksBehind earlier later)
      = (forest later).map fun tree => (some (nearestIdx earlier tree.1), tree.2) := by
  -- By induction on the lines: the first of them takes from the trees of the others.
  induction later generalizing earlier with
  | nil => rfl
  | cons e later ih =>
    have htrees : assemble (earlier.length + 1 + 1) (linksBehind (earlier ++ [e]) later)
        = (forest later).map
            fun tree => (some (nearestIdx (earlier ++ [e]) tree.1), tree.2) := by
      have hrest := ih (earlier ++ [e])
      rwa [List.length_append, List.length_singleton] at hrest
    obtain ⟨htake, hdrop⟩ := filter_descending e.1 (pairwise_forest later)
    have hforest : forest (e :: later) = adopt e (forest later) := rfl
    rw [linksBehind, assemble_cons _ htrees, hforest, adopt, ← htake, ← hdrop, List.map_cons]
    simp only [ne_eq, nearestIdx_concat_eq_iff]
    congr 1
    refine List.map_congr_left fun tree htree => ?_
    rw [nearestIdx_concat_of_le (by simpa using (List.mem_filter.1 htree).2)]

/-- The links of a text put together one tree, whose top is the line above all others. -/
theorem assemble_links (t : Text) :
    assemble 0 (links t) = [(none, ⟨.outermost, (forest (content t)).map (·.2)⟩)] := by
  have htrees : assemble (0 + 1) (linksBehind [] (content t))
      = (forest (content t)).map fun tree => (some (nearestIdx [] tree.1), tree.2) :=
    assemble_linksBehind [] (content t)
  have hall : (forest (content t)).filter (fun _ => true) = forest (content t) :=
    List.filter_eq_self.2 fun _ _ => rfl
  rw [links_eq, assemble_cons _ htrees]
  simp [nearestIdx_nil, hall]

theorem nodes_parse (source t : Text) : (parse source t).nodes = nodesOf t := rfl

theorem nodesOf_eq (t : Text) : nodesOf t = (forest (content t)).map (·.2) := by
  rw [nodesOf, assemble_links]
  exact List.append_nil _

end Proviso.Outline
