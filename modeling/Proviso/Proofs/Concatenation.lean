/-
  Texts one after another.

  A text that ends with a line feed and a text whose first content line is not indented do not
  notice each other: the lines of both together are those of the first and those of the second
  (`lines_append`), no line of the first adopts one of the second (`forest_append`), and so the
  nodes are those of the first and those of the second with larger numbers (`nodesOf_append`). What
  is loaded, reported and written depends on a line by its tokens alone, but for the numbers in the
  reports, so all of this is put together in the same way (`read_append`).
-/
import Proviso.Proofs.Layouts
import Proviso.Proofs.Reporting

namespace Proviso

open Outline (Diagnostic Line Node Position Report)

/-! ## Lines -/

namespace Text

/-- The text is empty or ends with a line feed. -/
def Closed (t : Text) : Prop := t = [] ∨ t.getLast? = some '\n'

/-- What has been begun of a line goes in front of the first line of a text. -/
theorem exists_linesFrom {t : Text} (ht : t ≠ []) :
    ∃ l ls, ∀ begun, linesFrom begun t = (begun.reverse ++ l) :: ls := by
  induction t with
  | nil => exact absurd rfl ht
  | cons c t ih =>
    by_cases hc : isLineBreak c = true
    · by_cases hpair : c = '\r' ∧ t.head? = some '\n'
      · obtain ⟨rfl, hhead⟩ := hpair
        obtain ⟨s, rfl⟩ := List.head?_eq_some_iff.1 hhead
        refine ⟨[], linesFrom [] s, fun begun => ?_⟩
        rw [linesFrom, List.append_nil]
      · refine ⟨[], linesFrom [] t, fun begun => ?_⟩
        rw [linesFrom_break hc begun fun hr hhead => hpair ⟨hr, hhead⟩, List.append_nil]
    · have hstep : ∀ begun, linesFrom begun (c :: t) = linesFrom (c :: begun) t :=
        fun begun => linesFrom_cons begun t (Bool.eq_false_iff.2 hc)
      by_cases hend : t = []
      · subst hend
        refine ⟨[c], [], fun begun => ?_⟩
        rw [hstep, linesFrom, if_neg (by simp), List.reverse_cons]
      · obtain ⟨l, ls, hlines⟩ := ih hend
        refine ⟨c :: l, ls, fun begun => ?_⟩
        rw [hstep, hlines, List.reverse_cons, List.append_assoc, List.singleton_append]

/-- A line feed separates what comes after it from what comes before it, be it a break of its own or
the second half of one. -/
theorem linesFrom_append_newline (begun s t : Text) :
    linesFrom begun (s ++ '\n' :: t) = linesFrom begun (s ++ ['\n']) ++ linesFrom [] t := by
  fun_induction linesFrom begun s with
  | case1 => rfl
  | case2 begun =>
    rw [List.nil_append, List.nil_append, linesFrom_newline, linesFrom_newline]
    rfl
  | case3 begun s ih =>
    simp only [List.cons_append, linesFrom, ih]
  | case4 begun c s hpair hc ih =>
    by_cases hr : c = '\r' ∧ s = []
    · obtain ⟨rfl, rfl⟩ := hr
      simp only [List.cons_append, List.nil_append, linesFrom]
      rfl
    · have hhead : ∀ u : Text, c = '\r' → (s ++ '\n' :: u).head? ≠ some '\n' := by
        intro u hcr h
        cases s with
        | nil => exact hr ⟨hcr, rfl⟩
        | cons d s => exact hpair s hcr (congrArg (· :: s) (Option.some.inj h))
      rw [List.cons_append, List.cons_append, linesFrom_break hc begun (hhead t),
        linesFrom_break hc begun (hhead []), ih, List.cons_append]
  | case5 begun c s hpair hc ih =>
    have hbare := Bool.eq_false_iff.2 hc
    rw [List.cons_append, List.cons_append, linesFrom_cons begun _ hbare,
      linesFrom_cons begun _ hbare, ih]

/-- The lines of a text that ends with a line feed stay as they are in front of any text. -/
theorem lines_append {s : Text} (hs : s.Closed) (t : Text) :
    (s ++ t).lines = s.lines ++ t.lines := by
  rcases hs with rfl | hlast
  · rfl
  · obtain ⟨u, rfl⟩ := List.getLast?_eq_some_iff.1 hlast
    rw [List.append_assoc, List.singleton_append]
    exact linesFrom_append_newline [] u t

end Text

namespace Outline

/-! ## Marks -/

theorem dropMark_append (s : Text) {t : Text} (ht : t.head? ≠ some byteOrderMark) :
    dropMark (s ++ t) = dropMark s ++ t := by
  cases s with
  | nil => exact dropMark_of_head ht
  | cons c s =>
    rw [List.cons_append, dropMark, dropMark]
    split <;> rfl

section Marks

variable {s : Text} (hs : s.Closed)
include hs

theorem closed_dropMark : (dropMark s).Closed := by
  cases s with
  | nil => exact hs
  | cons c s =>
    rw [dropMark]
    split
    · cases s with
      | nil => exact .inl rfl
      | cons d s => exact .inr (hs.resolve_left (List.cons_ne_nil _ _))
    · exact hs

theorem length_lines_dropMark : (dropMark s).lines.length = s.lines.length := by
  cases s with
  | nil => rfl
  | cons c s =>
    rw [dropMark]
    split
    · next hc =>
      have hne : s ≠ [] := by
        rintro rfl
        subst hc
        exact absurd hs (by unfold Text.Closed; decide)
      obtain ⟨l, ls, hlines⟩ := Text.exists_linesFrom hne
      subst hc
      rw [Text.lines, Text.lines, Text.linesFrom_cons _ _ (by decide), hlines, hlines]
      rfl
    · rfl

end Marks

/-! ## Numbers -/

/-- The line with a larger number. -/
def Line.shift (k : Nat) (l : Line) : Line := { l with number := l.number + k }

theorem content?_add (k number : Nat) (raw : Text) :
    content? (k + number) raw = (content? number raw).map fun e => (e.1, e.2.shift k) := by
  rw [content?_eq, content?_eq]
  split
  · have hnumber : ((k + number : Nat) : Int) = (number : Int) + k := by omega
    show some (indentOf raw, contentLine (raw, k + number)) = some (_, _)
    unfold contentLine
    dsimp only
    rw [hnumber]
    rfl
  · rfl

theorem contentFrom_add (k number : Nat) (raws : List Text) :
    contentFrom (k + number) raws
      = (contentFrom number raws).map fun e => (e.1, e.2.shift k) := by
  induction raws generalizing number with
  | nil => rfl
  | cons raw raws ih =>
    rw [contentFrom, contentFrom, content?_add, Nat.add_assoc, ih]
    cases content? number raw with
    | none => rfl
    | some e => rfl

theorem contentFrom_append (number : Nat) (raws raws' : List Text) :
    contentFrom number (raws ++ raws')
      = contentFrom number raws ++ contentFrom (number + raws.length) raws' := by
  induction raws generalizing number with
  | nil => rfl
  | cons raw raws ih =>
    have hnumber : number + 1 + raws.length = number + (raws.length + 1) := by omega
    rw [List.cons_append, contentFrom, contentFrom, ih, List.length_cons, hnumber]
    cases content? number raw with
    | none => rfl
    | some e => rfl

theorem content_append {s t : Text} (hs : s.Closed) (ht : t.head? ≠ some byteOrderMark) :
    content (s ++ t) = content s ++ (content t).map fun e => (e.1, e.2.shift s.lines.length) := by
  rw [content, dropMark_append s ht, Text.lines_append (closed_dropMark hs), contentFrom_append,
    length_lines_dropMark hs, Nat.add_comm, contentFrom_add, content, content, dropMark_of_head ht]

/-! ## Trees -/

theorem forest_append (es : List (Nat × Line)) {fs : List (Nat × Line)}
    (h : Outside 0 (forest fs)) : forest (es ++ fs) = forest es ++ forest fs := by
  induction es with
  | nil => rfl
  | cons e es ih =>
    have hes : (es ++ fs).foldr adopt [] = es.foldr adopt [] ++ forest fs := ih
    have hmore : Outside e.1 (forest fs) := fun tree htree =>
      Nat.le_trans (h tree htree) (Nat.zero_le _)
    rw [forest, forest, List.cons_append, List.foldr_cons, List.foldr_cons, hes,
      adopt_append e _ hmore]

theorem outside_forest {es : List (Nat × Line)} (h : ∀ e ∈ es.head?, e.1 = 0) :
    Outside 0 (forest es) := by
  cases es with
  | nil => exact fun _ htree => absurd htree (by simp [forest])
  | cons e es =>
    intro tree htree
    rw [← Option.some.inj htree]
    exact Nat.le_of_eq (h e rfl)

theorem map_fst_contentFrom (number : Nat) (raws : List Text) :
    (contentFrom number raws).map (·.1) = (raws.filter hasContent).map indentOf := by
  induction raws generalizing number with
  | nil => rfl
  | cons raw raws ih =>
    rw [contentFrom, content?_eq, List.filter_cons]
    cases hasContent raw with
    | false => exact ih (number + 1)
    | true => exact congrArg (indentOf raw :: ·) (ih (number + 1))

/-- The first content line is not indented. -/
theorem width_head_content {t : Text} (hmark : t.head? ≠ some byteOrderMark)
    (h : ∀ raw ∈ (contentOf t).head?, indentOf raw = 0) : ∀ e ∈ (content t).head?, e.1 = 0 := by
  intro e he
  have hwidth : e.1 ∈ ((contentOf t).map indentOf).head? := by
    unfold contentOf
    rw [← map_fst_contentFrom 1, List.head?_map]
    rw [content, dropMark_of_head hmark] at he
    exact Option.mem_map_of_mem _ he
  rw [List.head?_map] at hwidth
  obtain ⟨raw, hraw, hindent⟩ := Option.map_eq_some_iff.1 hwidth
  rw [← hindent]
  exact h raw hraw

/-- The nodes of two texts, one after the other. -/
theorem nodesOf_append {s t : Text} (hs : s.Closed) (hmark : t.head? ≠ some byteOrderMark)
    (hfirst : ∀ raw ∈ (contentOf t).head?, indentOf raw = 0) :
    nodesOf (s ++ t) = nodesOf s ++ (nodesOf t).map (Node.map (.shift s.lines.length)) := by
  have hhead : ∀ e ∈ ((content t).map fun e => (e.1, e.2.shift s.lines.length)).head?,
      e.1 = 0 := by
    intro e he
    rw [List.head?_map] at he
    obtain ⟨e', he', rfl⟩ := Option.map_eq_some_iff.1 he
    exact width_head_content hmark hfirst e' he'
  rw [nodesOf_eq, content_append hs hmark, forest_append _ (outside_forest hhead),
    forest_map (Line.shift s.lines.length), List.map_append, List.map_map, nodesOf_eq, nodesOf_eq,
    List.map_map]
  rfl

/-! ## What depends on a line by its tokens -/

namespace Node

section Tokens

variable {f : Line → Line} (hf : ∀ l, (f l).tokens = l.tokens)
include hf

theorem group?_of_tokens (l : Line) : (f l).group? = l.group? := by
  unfold Line.group?
  rw [hf]

theorem map_erase_map (n : Node) : (n.map f).map Line.erase = n.map Line.erase := by
  have herase : Line.erase ∘ f = Line.erase := by
    funext l
    show Line.bare (f l).tokens = .bare l.tokens
    rw [hf]
  rw [map_map, herase]

theorem rule_map (n : Node) : (n.map f).rule = n.rule := by
  rw [← rule_erase (n.map f), map_erase_map hf, rule_erase]

theorem canon_map (n : Node) : (n.map f).canon = n.canon := by
  rw [← canon_erase (n.map f), map_erase_map hf, canon_erase]

end Tokens

mutual

/-- Loading looks at the same lines, changed. -/
theorem visited_map {f : Line → Line} (hf : ∀ l, (f l).tokens = l.tokens)
    (above above' : List Line) : (n : Node) →
    ((n.map f).visited above').map (·.node.line)
      = ((n.visited above).map (·.node.line)).map f
  | ⟨l, ns⟩ => by
    rw [map, visited, visited, group?_of_tokens hf]
    cases l.group?.isSome with
    | true => exact congrArg (f l :: ·) (visitedAll_map hf (above ++ [l]) (above' ++ [f l]) ns)
    | false => rfl

theorem visitedAll_map {f : Line → Line} (hf : ∀ l, (f l).tokens = l.tokens)
    (above above' : List Line) : (ns : List Node) →
    (visitedAll above' (mapAll f ns)).map (·.node.line)
      = ((visitedAll above ns).map (·.node.line)).map f
  | [] => rfl
  | n :: ns => by
    rw [mapAll, visitedAll, visitedAll, List.map_append, List.map_append, List.map_append,
      visited_map hf above above' n, visitedAll_map hf above above' ns]

end

end Node

/-- The lines that loading all rules looks at. -/
def linesVisited (ns : List Node) : List Line :=
  (visited ⟨[], ns⟩).map (·.node.line)

theorem linesVisited_append (ns ms : List Node) :
    linesVisited (ns ++ ms) = linesVisited ns ++ linesVisited ms := by
  rw [linesVisited, visited, List.flatMap_append, List.map_append]
  rfl

theorem linesVisited_map {f : Line → Line} (hf : ∀ l, (f l).tokens = l.tokens) (ns : List Node) :
    linesVisited (ns.map (Node.map f)) = (linesVisited ns).map f := by
  unfold linesVisited visited
  rw [List.flatMap_map, List.map_flatMap, List.map_flatMap, List.map_flatMap]
  refine List.flatMap_congr fun n _ => ?_
  obtain ⟨l, ns⟩ := n
  exact Node.visitedAll_map hf ([.outermost] ++ [l]) ([.outermost] ++ [f l]) ns

theorem canonText_append (ns ms : List Node) :
    canonText (ns ++ ms) = canonText ns ++ canonText ms := by
  unfold canonText Text.unlines
  rw [List.map_append, Node.entriesAll_append, List.map_append, List.flatMap_append]

theorem canonText_map {f : Line → Line} (hf : ∀ l, (f l).tokens = l.tokens) (ns : List Node) :
    canonText (ns.map (Node.map f)) = canonText ns := by
  have hcanon : (ns.map (Node.map f)).map Node.canon = ns.map Node.canon := by
    rw [List.map_map]
    exact List.map_congr_left fun n _ => Node.canon_map hf n
  unfold canonText
  rw [hcanon]

/-- The diagnostics about a line. -/
def Line.diagnostics (source : Text) (l : Line) : List Diagnostic :=
  l.complaints.map fun c => ⟨c.message, l.number, l.text, source⟩

/-- The diagnostic with a larger number. -/
def Diagnostic.shift (k : Nat) (d : Diagnostic) : Diagnostic := { d with line := d.line + k }

theorem Line.diagnostics_shift (source : Text) (k : Nat) (l : Line) :
    (l.shift k).diagnostics source = (l.diagnostics source).map (.shift k) := by
  unfold Line.diagnostics
  rw [List.map_map]
  rfl

end Outline

/-! ## What is loaded -/

open Outline (linesVisited)

theorem Collection.fault_eq (o : Outline) :
    (ofOutline o).fault = (linesVisited o.nodes).findSome? Line.overlong? := by
  rw [fault_ofOutline, linesVisited, List.findSome?_map]
  rfl

/-- The diagnostics of an outline are those about the lines that are looked at. -/
theorem Collection.diagnostics_eq {o : Outline} (h : (ofOutline o).fault = none) :
    (ofOutline o).reports.map (Report.diagnostic o.source)
      = (linesVisited o.nodes).flatMap (Line.diagnostics o.source) := by
  rw [(ofOutline_eq h).2.2, List.map_flatMap, linesVisited, List.flatMap_map]
  refine List.flatMap_congr fun p _ => ?_
  rw [Position.reports, List.map_map]
  rfl

/-- A text that ends with a line feed and a text without a mark whose first content line is not
indented, both of which can be loaded, make up a text with the nodes, the rules, the diagnostics and
the canonical text of the one and then of the other, the numbers of the lines of the second being
larger by the number of lines of the first. -/
theorem Outline.read_append (source A B : Text) (hA : A = [] ∨ A.getLast? = some '\n')
    (hmark : B.head? ≠ some byteOrderMark)
    (hfirst : ∀ raw ∈ (contentOf B).head?, indentOf raw = 0)
    (hloadA : (Collection.ofOutline (.parse source A)).fault = none)
    (hloadB : (Collection.ofOutline (.parse source B)).fault = none) :
    let a := Outline.parse source A
    let b := Outline.parse source B
    let both := Outline.parse source (A ++ B)
    let diagnostics (o : Outline) :=
      (Collection.ofOutline o).reports.map (Report.diagnostic o.source)
    both.nodes = a.nodes ++ b.nodes.map (Node.map (.shift A.lines.length)) ∧
    ((Collection.ofOutline both).fault = none ∧
      (Collection.ofOutline both).rules
        = (Collection.ofOutline a).rules ++ (Collection.ofOutline b).rules) ∧
    diagnostics both = diagnostics a ++ (diagnostics b).map (.shift A.lines.length) ∧
    (∀ o ∈ [a, b, both], (Formatting.ofOutline o).fault = none) ∧
    (Formatting.ofOutline both).draft.text
      = (Formatting.ofOutline a).draft.text ++ (Formatting.ofOutline b).draft.text := by
  intro a b both diagnostics
  have hshift : ∀ l, (Line.shift A.lines.length l).tokens = l.tokens := fun _ => rfl
  have hnodes : both.nodes = a.nodes ++ b.nodes.map (Node.map (.shift A.lines.length)) :=
    nodesOf_append hA hmark hfirst
  have hvisited : linesVisited both.nodes
      = linesVisited a.nodes ++ (linesVisited b.nodes).map (.shift A.lines.length) := by
    rw [hnodes, linesVisited_append, linesVisited_map hshift]
  have hload : (Collection.ofOutline both).fault = none := by
    rw [Collection.fault_eq] at hloadA hloadB ⊢
    rw [hvisited, List.findSome?_append, hloadA, List.findSome?_map]
    exact hloadB
  refine ⟨hnodes, ⟨hload, ?_⟩, ?_, ?_, ?_⟩
  · rw [(Collection.ofOutline_eq hload).2.1, (Collection.ofOutline_eq hloadA).2.1,
      (Collection.ofOutline_eq hloadB).2.1, hnodes, List.map_append, List.map_map]
    exact congrArg _ (List.map_congr_left fun n _ => Node.rule_map hshift n)
  · show List.map _ _ = List.map _ _ ++ List.map _ (List.map _ _)
    rw [Collection.diagnostics_eq hload, Collection.diagnostics_eq hloadA,
      Collection.diagnostics_eq hloadB, hvisited, List.flatMap_append, List.flatMap_map,
      List.map_flatMap]
    exact congrArg _ (List.flatMap_congr fun l _ => Line.diagnostics_shift source _ l)
  · intro o ho
    simp only [List.mem_cons, List.not_mem_nil, or_false] at ho
    rcases ho with rfl | rfl | rfl
    · exact (Formatting.ofOutline_eq hloadA).1
    · exact (Formatting.ofOutline_eq hloadB).1
    · exact (Formatting.ofOutline_eq hload).1
  · rw [(Formatting.ofOutline_eq hload).2.2, (Formatting.ofOutline_eq hloadA).2.2,
      (Formatting.ofOutline_eq hloadB).2.2]
    show canonText both.nodes = canonText a.nodes ++ canonText b.nodes
    rw [hnodes, canonText_append, canonText_map hshift]

/-- A first text with a mark, lines that end in other breaks and a deep last block that ends in an
open quote, and a second text with an indented comment, a line that is complained about twice and a
last line without an end. -/
theorem Outline.read_append_open_quote :
    let A : Text := "\uFEFFa b\r\n\tor\r\t \"x\u2028\t\tand\n\t\t\t\x60y ++ 3\n".toList
    let B : Text := "  # a\nb\n\tx = y\n z ! 1\n\tnever".toList
    let a := Outline.parse [] A
    let b := Outline.parse [] B
    let both := Outline.parse [] (A ++ B)
    (A = [] ∨ A.getLast? = some '\n') ∧ B.head? ≠ some byteOrderMark ∧
      (∀ raw ∈ (contentOf B).head?, indentOf raw = 0) ∧
      (Collection.ofOutline a).fault = none ∧ (Collection.ofOutline b).fault = none ∧
      A.lines.length = 5 ∧
      (Collection.ofOutline both).reports.map (·.line.number) = [3, 5, 8, 8, 9] ∧
      both.nodes = a.nodes ++ b.nodes.map (Node.map (.shift A.lines.length)) ∧
      (Formatting.ofOutline both).draft.text
        = (Formatting.ofOutline a).draft.text ++ (Formatting.ofOutline b).draft.text := by
  intro A B a b both
  have hA : A = [] ∨ A.getLast? = some '\n' := by decide +kernel
  have hmark : B.head? ≠ some byteOrderMark := by decide +kernel
  have hfirst : ∀ raw ∈ (contentOf B).head?, indentOf raw = 0 := by decide +kernel
  have hloadA : (Collection.ofOutline a).fault = none := by decide +kernel
  have hloadB : (Collection.ofOutline b).fault = none := by decide +kernel
  obtain ⟨hnodes, -, -, -, htext⟩ := read_append [] A B hA hmark hfirst hloadA hloadB
  exact ⟨hA, hmark, hfirst, hloadA, hloadB, by decide +kernel, by decide +kernel, hnodes, htext⟩

end Proviso
