/-
  What indentation says about the tree of a text.

  The lines of the tree, in the order of a walk through it, are the content lines of the text,
  and every line stands directly below the nearest earlier one that is indented less
  (`parse_by_indentation`). The proof takes the tree in the form in which it is built from the last
  line to the first (`nodesOf_eq`); the invariant that carries it is `Layered`: the nodes below a
  line are indented more than it, and of two nodes beside each other the later one is not indented
  more.
-/
import Mathlib.Data.List.TakeWhile
import Proviso.Proofs.Stack
import Proviso.Proofs.Tokens
import Proviso.Proofs.Walk

namespace Proviso.Outline

open Node (walkAll walkAll_append walkAll_lines)

/-! ## Content lines -/

/-- Whether a line has content: its first character that is not blank exists and is no `#`. -/
def hasContent (raw : Text) : Bool := (raw.find? fun c => !Text.isBlank c).any (· ≠ '#')

/-- How many blanks a line begins with. -/
def indentOf (raw : Text) : Nat := (raw.takeWhile Text.isBlank).length

/-- What is kept of a line and its number. -/
def contentLine (entry : Text × Nat) : Line :=
  ⟨entry.2, Text.trim Text.isBlank entry.1, Token.read (Text.dropStart Text.isBlank entry.1)⟩

/-- The content lines among lines that are numbered from `number` on, with their numbers. -/
def numberedContent (number : Nat) (raws : List Text) : List (Text × Nat) :=
  (raws.zipIdx number).filter fun entry => hasContent entry.1

theorem content?_eq (number : Nat) (raw : Text) :
    content? number raw
      = if hasContent raw then some (indentOf raw, contentLine (raw, number)) else none := by
  have hlen : raw.length = indentOf raw + (raw.dropWhile Text.isBlank).length := by
    unfold indentOf
    rw [← List.length_append, List.takeWhile_append_dropWhile]
  unfold content? hasContent contentLine Text.trim Text.dropStart
  rw [List.find?_not_eq_head?_dropWhile]
  cases h : raw.dropWhile Text.isBlank with
  | nil => rfl
  | cons c cs =>
    rw [h, List.length_cons] at hlen
    by_cases hc : c = '#'
    · simp [hc]
    · have hsub : raw.length - (cs.length + 1) = indentOf raw := by omega
      simp [hc, hsub]

theorem contentFrom_eq (number : Nat) (raws : List Text) :
    contentFrom number raws
      = (numberedContent number raws).map fun entry => (indentOf entry.1, contentLine entry) := by
  induction raws generalizing number with
  | nil => rfl
  | cons raw raws ih =>
    rw [contentFrom, content?_eq, ih]
    unfold numberedContent
    rw [List.zipIdx_cons]
    cases h : hasContent raw with
    | false => simp [h]
    | true => simp [h]

theorem tokens_ne_nil_of_hasContent {raw : Text} (number : Nat) (h : hasContent raw = true) :
    (contentLine (raw, number)).tokens ≠ [] := by
  unfold hasContent at h
  rw [List.find?_not_eq_head?_dropWhile] at h
  unfold contentLine Text.dropStart
  cases hd : raw.dropWhile Text.isBlank with
  | nil => simp [hd] at h
  | cons c cs =>
    rw [hd] at h
    have hb : Text.isBlank c = false := by
      have := List.head?_dropWhile_not Text.isBlank raw
      rw [hd] at this
      exact this
    exact Token.read_ne_nil hb (by simpa using h)

/-! ## Trees in layers -/

section Layers

variable (w : Line → Nat)

mutual

/-- The widths of the lines grow from a node to the nodes below it and do not grow from a node
to a later one beside it. -/
def Layered : Node → Prop
  | ⟨l, ns⟩ => (∀ n ∈ ns, w l < w n.line) ∧ LayeredAll ns

/-- The same of nodes beside each other. -/
def LayeredAll : List Node → Prop
  | [] => True
  | n :: ns => Layered n ∧ (∀ m ∈ ns, w m.line ≤ w n.line) ∧ LayeredAll ns

end

theorem layeredAll_append {ns ms : List Node} :
    LayeredAll w (ns ++ ms) ↔
      LayeredAll w ns ∧ LayeredAll w ms ∧ ∀ n ∈ ns, ∀ m ∈ ms, w m.line ≤ w n.line := by
  induction ns with
  | nil => simp [LayeredAll]
  | cons n ns ih =>
    rw [List.cons_append, LayeredAll, LayeredAll, ih, List.forall_mem_append, List.forall_mem_cons]
    constructor
    · rintro ⟨hn, ⟨hns, hms⟩, h1, h2, h3⟩
      exact ⟨⟨hn, hns, h1⟩, h2, hms, h3⟩
    · rintro ⟨⟨hn, hns, h1⟩, h2, hms, h3⟩
      exact ⟨hn, ⟨hns, hms⟩, h1, h2, h3⟩

/-- The trees carry the widths of their top lines. -/
def Labelled (trees : List (Nat × Node)) : Prop := ∀ tree ∈ trees, tree.1 = w tree.2.line

theorem labelled_adopt {entry : Nat × Line} {trees : List (Nat × Node)} (he : entry.1 = w entry.2)
    (h : Labelled w trees) : Labelled w (adopt entry trees) := by
  intro tree htree
  rcases List.mem_cons.1 htree with rfl | htree
  · exact he
  · exact h tree ((List.dropWhile_sublist _).subset htree)

/-- What is not adopted by a line is indented no more than the line: its first tree is not, and
the others are indented no more than the first. -/
theorem width_beside_le {entry : Nat × Line} {trees : List (Nat × Node)}
    (he : entry.1 = w entry.2) (hl : Labelled w trees)
    (h : LayeredAll w (trees.map (·.2))) :
    ∀ m ∈ (trees.dropWhile fun tree => entry.1 < tree.1).map (·.2), w m.line ≤ w entry.2 := by
  have hsub := List.dropWhile_sublist (l := trees) fun tree => decide (entry.1 < tree.1)
  have hsuffix := List.dropWhile_suffix (l := trees) fun tree => decide (entry.1 < tree.1)
  have hhead := List.head?_dropWhile_not (fun tree => decide (entry.1 < tree.1)) trees
  cases hd : trees.dropWhile fun tree => decide (entry.1 < tree.1) with
  | nil => intro m hm; exact absurd hm List.not_mem_nil
  | cons first rest =>
    rw [hd] at hhead hsub hsuffix
    have hfirst : w first.2.line ≤ w entry.2 := by
      have hlabel := hl first (hsub.subset List.mem_cons_self)
      have : ¬ entry.1 < first.1 := by simpa using hhead
      omega
    obtain ⟨before, hbefore⟩ := hsuffix
    rw [← hbefore, List.map_append, layeredAll_append, List.map_cons, LayeredAll] at h
    intro m hm
    rcases List.mem_cons.1 hm with rfl | hm
    · exact hfirst
    · exact Nat.le_trans (h.2.1.2.1 m hm) hfirst

theorem layeredAll_adopt {entry : Nat × Line} {trees : List (Nat × Node)}
    (he : entry.1 = w entry.2) (hl : Labelled w trees) (h : LayeredAll w (trees.map (·.2))) :
    LayeredAll w ((adopt entry trees).map (·.2)) := by
  have hbeside := width_beside_le w he hl h
  rw [← List.takeWhile_append_dropWhile (p := fun tree : Nat × Node => decide (entry.1 < tree.1))
    (l := trees), List.map_append, layeredAll_append] at h
  refine ⟨⟨?_, h.1⟩, hbeside, h.2.1⟩
  intro n hn
  obtain ⟨tree, htree, rfl⟩ := List.mem_map.1 hn
  have hlt : entry.1 < tree.1 := by simpa using List.mem_takeWhile_imp htree
  rw [← he, ← hl tree ((List.takeWhile_sublist _).subset htree)]
  exact hlt

/-- The trees of content lines are layered. -/
theorem layered_forest {entries : List (Nat × Line)} (h : ∀ e ∈ entries, e.1 = w e.2) :
    Labelled w (forest entries) ∧ LayeredAll w ((forest entries).map (·.2)) := by
  induction entries with
  | nil => exact ⟨fun _ hm => absurd hm List.not_mem_nil, trivial⟩
  | cons e entries ih =>
    rw [List.forall_mem_cons] at h
    obtain ⟨hl, hlay⟩ := ih h.2
    exact ⟨labelled_adopt w h.1 hl, layeredAll_adopt w h.1 hl hlay⟩

end Layers

/-- A walk through the trees of content lines meets these lines in order. -/
theorem walkAll_forest_lines (entries : List (Nat × Line)) :
    (walkAll [] ((forest entries).map (·.2))).map (·.node.line) = entries.map (·.2) := by
  induction entries with
  | nil => rfl
  | cons e entries ih =>
    let inside : Nat × Node → Bool := fun tree => e.1 < tree.1
    show (walkAll [] (⟨e.2, ((forest entries).takeWhile inside).map (·.2)⟩
      :: ((forest entries).dropWhile inside).map (·.2))).map (·.node.line) = _
    rw [walkAll, Node.walk, List.cons_append, List.map_cons, List.map_append,
      walkAll_lines ([] ++ _), ← List.map_append, ← walkAll_append, ← List.map_append,
      List.takeWhile_append_dropWhile, ih]
    rfl

/-- A walk through the tree of a text meets its content lines in order. -/
theorem walkAll_nodesOf_lines (t : Text) :
    (walkAll [] (nodesOf t)).map (·.node.line) = (content t).map (·.2) := by
  rw [nodesOf_eq, walkAll_forest_lines]

theorem lines_walk_parse (source t : Text) :
    (parse source t).walk.map (·.node.line) = (content t).map (·.2) :=
  (walkAll_lines [.outermost] (nodesOf t)).trans (walkAll_nodesOf_lines t)

/-- With the widths of its content lines, the tree of a text is layered. -/
theorem layered_nodesOf {w : Line → Nat} {t : Text} (hw : ∀ e ∈ content t, e.1 = w e.2) :
    LayeredAll w (nodesOf t) := by
  rw [nodesOf_eq]
  exact (layered_forest w hw).2

/-! ## The nearest earlier line that is indented less -/

section Nearest

variable (w : Line → Nat)

/-- The last of the positions whose line is less wide than that of `p`. -/
def nearestOuter (earlier : List Position) (p : Position) : Option Position :=
  earlier.reverse.find? fun q => w q.node.line < w p.node.line

/-- The position `p` is that of a node directly below the one at `q`. -/
def IsChild (q p : Position) : Prop := ∃ k, q.child? k = some p

theorem nearestOuter_of_split {before between : List Position} {q p : Position}
    (hq : w q.node.line < w p.node.line) (h : ∀ r ∈ between, w p.node.line ≤ w r.node.line) :
    nearestOuter w (before ++ q :: between) p = some q := by
  have hnone : between.reverse.find? (fun r => decide (w r.node.line < w p.node.line)) = none := by
    rw [List.find?_eq_none]
    intro r hr
    have := h r (List.mem_reverse.1 hr)
    simpa using this
  unfold nearestOuter
  rw [List.reverse_append, List.reverse_cons, List.append_assoc, List.find?_append, hnone]
  simp [hq]

theorem nearestOuter_eq_none {earlier : List Position} {p : Position}
    (h : ∀ r ∈ earlier, w p.node.line ≤ w r.node.line) : nearestOuter w earlier p = none := by
  unfold nearestOuter
  rw [List.find?_eq_none]
  intro r hr
  have := h r (List.mem_reverse.1 hr)
  simpa using this

/-- Where a position of a walk has its parent: at the top of the walk, with nothing less wide
before it, or at an earlier position that is the nearest less wide one. -/
def Placed (isTop : Position → Prop) (earlier : List Position) (p : Position) : Prop :=
  (isTop p ∧ ∀ r ∈ earlier, w p.node.line ≤ w r.node.line) ∨
    ∃ before q between, earlier = before ++ q :: between ∧ IsChild q p ∧
      w q.node.line < w p.node.line ∧ ∀ r ∈ between, w p.node.line ≤ w r.node.line

theorem Placed.mono {isTop isTop' : Position → Prop} {earlier : List Position} {p : Position}
    (h : Placed w isTop earlier p) (himp : isTop p → isTop' p) : Placed w isTop' earlier p :=
  h.imp_left fun ht => ⟨himp ht.1, ht.2⟩

/-- More positions in front change nothing, unless `p` is at the top and one of them is less
wide. -/
theorem Placed.append_left {isTop : Position → Prop} {earlier : List Position} {p : Position}
    (h : Placed w isTop earlier p) (front : List Position)
    (hfront : isTop p → ∀ r ∈ front, w p.node.line ≤ w r.node.line) :
    Placed w isTop (front ++ earlier) p := by
  rcases h with ⟨htop, hle⟩ | ⟨before, q, between, rfl, hrest⟩
  · exact Or.inl ⟨htop, List.forall_mem_append.2 ⟨hfront htop, hle⟩⟩
  · exact Or.inr ⟨front ++ before, q, between, (List.append_assoc ..).symm, hrest⟩

mutual

/-- Nothing below a node is less wide than the node. -/
theorem width_le_of_mem_walk (above : List Line) : (n : Node) → Layered w n →
    ∀ p ∈ n.walk above, w n.line ≤ w p.node.line
  | ⟨l, ns⟩, h => by
    rw [Node.walk, List.forall_mem_cons]
    refine ⟨Nat.le_refl _, fun p hp => ?_⟩
    obtain ⟨n, hn, hle⟩ := width_le_of_mem_walkAll (above ++ [l]) ns h.2 p hp
    exact Nat.le_trans (Nat.le_of_lt (h.1 n hn)) hle

theorem width_le_of_mem_walkAll (above : List Line) : (ns : List Node) → LayeredAll w ns →
    ∀ p ∈ walkAll above ns, ∃ n ∈ ns, w n.line ≤ w p.node.line
  | [], _ => fun _ hp => absurd hp List.not_mem_nil
  | n :: ns, h => by
    rw [walkAll, List.forall_mem_append]
    refine ⟨fun p hp => ⟨n, List.mem_cons_self, width_le_of_mem_walk above n h.1 p hp⟩, ?_⟩
    intro p hp
    obtain ⟨m, hm, hle⟩ := width_le_of_mem_walkAll above ns h.2.2 p hp
    exact ⟨m, List.mem_cons_of_mem _ hm, hle⟩

end

/-- The position is that of one of the nodes, with the lines `above` above it. -/
def TopOf (above : List Line) (ns : List Node) (p : Position) : Prop :=
  p.above = above ∧ p.node ∈ ns

theorem TopOf.isChild {above : List Line} {l : Line} {ns : List Node} {p : Position}
    (h : TopOf (above ++ [l]) ns p) : IsChild ⟨above, ⟨l, ns⟩⟩ p := by
  obtain ⟨hp, hmem⟩ := h
  obtain ⟨k, hk⟩ := List.mem_iff_getElem?.1 hmem
  refine ⟨k, ?_⟩
  show (ns[k]?).map _ = _
  rw [hk]
  cases p
  cases hp
  rfl

/-- An element of two lists one after the other stands in the second or in the first. -/
theorem split_of_append_eq {α : Type} {xs ys earlier later : List α} {p : α}
    (h : xs ++ ys = earlier ++ p :: later) :
    (∃ front, earlier = xs ++ front ∧ ys = front ++ p :: later) ∨
      ∃ rear, xs = earlier ++ p :: rear := by
  rcases List.append_eq_append_iff.1 h with ⟨front, hfront, hys⟩ | ⟨rear, hxs, hrear⟩
  · exact Or.inl ⟨front, hfront, hys⟩
  · cases rear with
    | nil => exact Or.inl ⟨[], by simp [hxs], hrear.symm⟩
    | cons q rear =>
      obtain ⟨rfl, -⟩ := List.cons.inj hrear
      exact Or.inr ⟨rear, hxs⟩

mutual

/-- The walk through a layered tree, step by step: the node itself comes first, and the nodes at
the top of the walk below it have it as their parent. -/
theorem placed_walk (above : List Line) : (n : Node) → Layered w n →
    ∀ earlier p later, n.walk above = earlier ++ p :: later →
      Placed w (TopOf above [n]) earlier p
  | ⟨l, ns⟩, h, earlier, p, later, heq => by
    rw [Node.walk] at heq
    cases earlier with
    | nil =>
      have hp : (⟨above, ⟨l, ns⟩⟩ : Position) = p := (List.cons.inj heq).1
      subst hp
      exact Or.inl ⟨⟨rfl, List.mem_singleton_self _⟩, fun _ hr => absurd hr List.not_mem_nil⟩
    | cons first earlier =>
      obtain ⟨rfl, htail⟩ := List.cons.inj heq
      rcases placed_walkAll (above ++ [l]) ns h.2 earlier p later htail with
        ⟨htop, hle⟩ | ⟨before, q, between, rfl, hrest⟩
      · exact Or.inr ⟨[], _, earlier, rfl, htop.isChild, h.1 p.node htop.2, hle⟩
      · exact Or.inr ⟨_ :: before, q, between, rfl, hrest⟩

/-- The walk through layered trees beside each other: all of an earlier tree is at least as wide
as the top of a later one. -/
theorem placed_walkAll (above : List Line) : (ns : List Node) → LayeredAll w ns →
    ∀ earlier p later, walkAll above ns = earlier ++ p :: later →
      Placed w (TopOf above ns) earlier p
  | [], _, earlier, p, later, heq => by
    exact absurd heq (by simp [walkAll])
  | n :: ns, h, earlier, p, later, heq => by
    rw [walkAll] at heq
    rcases split_of_append_eq heq with ⟨front, rfl, hrest⟩ | ⟨rear, hwalk⟩
    · have hp := placed_walkAll above ns h.2.2 front p later hrest
      refine (hp.append_left w (n.walk above) fun htop r hr => ?_).mono w fun htop =>
        ⟨htop.1, List.mem_cons_of_mem _ htop.2⟩
      exact Nat.le_trans (h.2.1 p.node htop.2) (width_le_of_mem_walk w above n h.1 r hr)
    · refine (placed_walk above n h.1 earlier p rear hwalk).mono w fun htop => ⟨htop.1, ?_⟩
      rw [List.mem_singleton.1 htop.2]
      exact List.mem_cons_self

end

end Nearest

/-! ## The tree of a text -/

/-- The indentation of the line with the number of `l`, looked up among all lines of a text. -/
def widthIn (raws : List Text) (l : Line) : Nat := indentOf (raws.getD (l.number.toNat - 1) [])

theorem widthIn_contentLine {raws : List Text} {entry : Text × Nat}
    (h : entry ∈ numberedContent 1 raws) : widthIn raws (contentLine entry) = indentOf entry.1 := by
  obtain ⟨raw, k⟩ := entry
  have hmem : (raw, k) ∈ raws.zipIdx 1 := (List.mem_filter.1 h).1
  obtain ⟨-, hget⟩ := List.mk_mem_zipIdx_iff_le_and_getElem?_sub.1 hmem
  show indentOf (raws.getD (((k : Nat) : Int).toNat - 1) []) = indentOf raw
  rw [Int.toNat_natCast, List.getD_eq_getElem?_getD, hget]
  rfl

/-- A walk through the tree of a text meets one node for each content line, in the order of the
lines and with their numbers, texts and tokens, of which there is at least one; and each node
stands directly below the nearest earlier one whose line is indented less, or at the top if there
is none. -/
theorem parse_by_indentation (source t : Text) :
    let raws := (dropMark t).lines
    let o := parse source t
    o.walk.map (·.node.line) = (numberedContent 1 raws).map contentLine ∧
    (∀ p ∈ o.walk, p.node.line.tokens ≠ []) ∧
    ∀ earlier p later, o.walk = earlier ++ p :: later →
      IsChild ((nearestOuter (widthIn raws) earlier p).getD (.top o.root)) p := by
  intro raws o
  have hentries : content t
      = (numberedContent 1 raws).map fun entry => (indentOf entry.1, contentLine entry) :=
    contentFrom_eq 1 raws
  have hlines : o.walk.map (·.node.line) = (numberedContent 1 raws).map contentLine := by
    rw [lines_walk_parse, hentries, List.map_map]
    rfl
  have hwidths : ∀ e ∈ content t, e.1 = widthIn raws e.2 := by
    rw [hentries]
    intro e he
    obtain ⟨entry, hentry, rfl⟩ := List.mem_map.1 he
    exact (widthIn_contentLine hentry).symm
  refine ⟨hlines, ?_, ?_⟩
  · intro p hp
    have hline : p.node.line ∈ o.walk.map (·.node.line) := List.mem_map_of_mem hp
    rw [hlines] at hline
    obtain ⟨⟨raw, k⟩, hentry, heq⟩ := List.mem_map.1 hline
    rw [← heq]
    exact tokens_ne_nil_of_hasContent k (List.mem_filter.1 hentry).2
  · intro earlier p later hwalk
    have hlayered := layered_nodesOf hwidths
    rcases placed_walkAll (widthIn raws) [.outermost] (nodesOf t) hlayered earlier p later hwalk
      with
      ⟨htop, hle⟩ | ⟨before, q, between, rfl, hchild, hlt, hle⟩
    · rw [nearestOuter_eq_none _ hle]
      have htop' : TopOf ([] ++ [.outermost]) (nodesOf t) p := htop
      exact htop'.isChild
    · rw [nearestOuter_of_split _ hlt hle]
      exact hchild

/-- A line that is indented less than the one before it and more than the one before that stands
below the latter. -/
theorem parse_by_indentation_dedent :
    let t : Text := [' ', ' ', 'a', '\n', ' ', ' ', ' ', ' ', 'b', ' ', '#', '\n',
      ' ', ' ', ' ', 'd', '\n', '#', '\n', 'e']
    let b : Node := ⟨⟨2, ['b', ' ', '#'], [['b']]⟩, []⟩
    let d : Node := ⟨⟨3, ['d'], [['d']]⟩, []⟩
    let a : Node := ⟨⟨1, ['a'], [['a']]⟩, [b, d]⟩
    let e : Node := ⟨⟨5, ['e'], [['e']]⟩, []⟩
    let below : List Line := [.outermost, a.line]
    (parse [] t).walk = [⟨[.outermost], a⟩, ⟨below, b⟩] ++ ⟨below, d⟩ :: [⟨[.outermost], e⟩] ∧
      IsChild ⟨[.outermost], a⟩ ⟨below, d⟩ := by
  intro t b d a e below
  have hwalk : (parse [] t).walk
      = [⟨[.outermost], a⟩, ⟨below, b⟩] ++ ⟨below, d⟩ :: [⟨[.outermost], e⟩] := rfl
  exact ⟨hwalk, (parse_by_indentation [] t).2.2 _ _ _ hwalk⟩

end Proviso.Outline
