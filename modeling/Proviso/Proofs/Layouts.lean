/-
  The layout of a text does not matter.

  Two texts are of one shape if their content lines are the same behind their indentation and are
  indented in the same order (`SameShape`): which line is indented less than which is all that the
  forest of a text is made from (`alike_forest`), since nothing but such comparisons decides what a
  line adopts. A text keeps its shape when blank lines and comments come or go, when its lines are
  indented by other blanks of widths that keep their order, and when its lines end in other breaks
  (`contentOf_of_broken`, `Relaid.forall₂`). Texts of one shape have the same tree, line numbers
  apart, and their top nodes load to the same rules (`layout_immaterial`).
-/
import Mathlib.Data.List.Forall2
import Mathlib.Order.Monotone.Basic
import Proviso.Proofs.Loading

namespace Proviso

open Outline (Line Node Position)

/-! ## Loading sees nothing of the layout -/

/-- The line without its number. -/
def Outline.Line.unnumbered (l : Line) : Line := { l with number := 0 }

/-- Top nodes that load to the same rule, or fail to load in the same way. -/
def Outline.Node.LoadsAlike (n n' : Node) : Prop :=
  (Rule.ofHeader ⟨[.outermost], n⟩).fault = (Rule.ofHeader ⟨[.outermost], n'⟩).fault ∧
  ((Rule.ofHeader ⟨[.outermost], n⟩).fault = none →
    (Rule.ofHeader ⟨[.outermost], n⟩).rule = (Rule.ofHeader ⟨[.outermost], n'⟩).rule)

namespace Outline.Node

mutual

theorem map_map (f g : Line → Line) : (n : Node) → (n.map f).map g = n.map (g ∘ f)
  | ⟨l, ns⟩ => by rw [map, map, map, mapAll_mapAll f g ns]; rfl

theorem mapAll_mapAll (f g : Line → Line) : (ns : List Node) →
    mapAll g (mapAll f ns) = mapAll (g ∘ f) ns
  | [] => rfl
  | n :: ns => by rw [mapAll, mapAll, mapAll, map_map f g n, mapAll_mapAll f g ns]

end

/-- Whether loading is interrupted, and by what, is seen in the tokens alone. -/
theorem fault_erase (n : Node) :
    (Rule.ofHeader ⟨[.outermost], n.map Line.erase⟩).fault
      = (Rule.ofHeader ⟨[.outermost], n⟩).fault := by
  obtain ⟨l, ns⟩ := n
  let fault? : List Text → Option Numeral.Fault := fun tokens => (Line.bare tokens).overlong?
  have hfault : ∀ ps : List Position, ps.findSome? (·.node.line.overlong?)
      = (ps.map (·.node.line.tokens)).findSome? fault? := by
    intro ps
    rw [List.findSome?_map]
    rfl
  rw [(Rule.intake_ofHeader _).fault, (Rule.intake_ofHeader _).fault, hfault, hfault]
  have habove : [Line.outermost] ++ [l.erase] = ([Line.outermost] ++ [l]).map Line.erase := rfl
  show ((visitedAll ([.outermost] ++ [l.erase]) (mapAll Line.erase ns)).map _).findSome? fault? = _
  rw [habove, visitedAll_erase]
  rfl

/-- Nodes that differ in nothing but the numbers of their lines load alike. -/
theorem loadsAlike_of_unnumbered {n n' : Node}
    (h : n.map Line.unnumbered = n'.map Line.unnumbered) : n.LoadsAlike n' := by
  have herase : n.map Line.erase = n'.map Line.erase := by
    have hboth := congrArg (map Line.erase) h
    rw [map_map, map_map] at hboth
    exact hboth
  have hfault : (Rule.ofHeader ⟨[.outermost], n⟩).fault
      = (Rule.ofHeader ⟨[.outermost], n'⟩).fault := by
    rw [← fault_erase, herase, fault_erase]
  refine ⟨hfault, fun hnone => ?_⟩
  rw [(Rule.intake_ofHeader _).rule hnone, (Rule.intake_ofHeader _).rule (hfault ▸ hnone)]
  show n.rule = n'.rule
  rw [← rule_erase, herase, rule_erase]

end Outline.Node

namespace Outline

/-! ## Texts of one shape -/

/-- The lines of a text that have content, in order. -/
def contentOf (t : Text) : List Text := t.lines.filter hasContent

/-- A line without its indentation. -/
def bodyOf (raw : Text) : Text := Text.dropStart Text.isBlank raw

/-- Behind their indentation the lines are the same, one by one, and of any two of them the first is
indented less than the second on the one side exactly if it is on the other. -/
structure SameShape (raws raws' : List Text) : Prop where
  bodies : raws.map bodyOf = raws'.map bodyOf
  widths : ∀ x ∈ raws.zip raws', ∀ y ∈ raws.zip raws',
    indentOf x.1 < indentOf y.1 ↔ indentOf x.2 < indentOf y.2

/-- Widths that some line has on the one side and on the other. -/
def SameShape.Widths (raws raws' : List Text) (w w' : Nat) : Prop :=
  ∃ x ∈ raws.zip raws', indentOf x.1 = w ∧ indentOf x.2 = w'

/-- Trees that are the same after a change of their lines, with widths in a relation. -/
def Alike (f : Line → Line) (R : Nat → Nat → Prop) (a b : Nat × Node) : Prop :=
  R a.1 b.1 ∧ a.2.map f = b.2.map f

theorem map_eq_map_iff {α β γ : Type} {f : α → γ} {g : β → γ} {as : List α} {bs : List β} :
    as.map f = bs.map g ↔ List.Forall₂ (fun a b => f a = g b) as bs := by
  rw [← List.forall₂_eq_eq_eq, List.forall₂_map_left_iff, List.forall₂_map_right_iff]

theorem forall₂_takeWhile_dropWhile {α β : Type} {R : α → β → Prop} {p : α → Bool} {q : β → Bool}
    (hpq : ∀ a b, R a b → p a = q b) {as : List α} {bs : List β} (h : List.Forall₂ R as bs) :
    List.Forall₂ R (as.takeWhile p) (bs.takeWhile q) ∧
      List.Forall₂ R (as.dropWhile p) (bs.dropWhile q) := by
  induction h with
  | nil => exact ⟨.nil, .nil⟩
  | cons hab h ih =>
    rename_i a b as bs
    rw [List.takeWhile_cons, List.takeWhile_cons, List.dropWhile_cons, List.dropWhile_cons,
      ← hpq a b hab]
    cases p a with
    | true => exact ⟨.cons hab ih.1, ih.2⟩
    | false => exact ⟨.nil, .cons hab h⟩

section Forest

variable {f : Line → Line} {R : Nat → Nat → Prop}

/-- What a line adopts is decided by comparing widths, so it is the same on both sides. -/
theorem alike_adopt (horder : ∀ {v v' w w'}, R v v' → R w w' → (v < w ↔ v' < w'))
    {e e' : Nat × Line} (hwidth : R e.1 e'.1) (hline : f e.2 = f e'.2)
    {trees trees' : List (Nat × Node)} (h : List.Forall₂ (Alike f R) trees trees') :
    List.Forall₂ (Alike f R) (adopt e trees) (adopt e' trees') := by
  have hinside : ∀ a b, Alike f R a b → decide (e.1 < a.1) = decide (e'.1 < b.1) := fun a b hab =>
    decide_eq_decide.2 (horder hwidth hab.1)
  obtain ⟨hbelow, hbeside⟩ := forall₂_takeWhile_dropWhile hinside h
  refine .cons ⟨hwidth, ?_⟩ hbeside
  have hnodes : (trees.takeWhile fun tree => e.1 < tree.1).map (fun tree => tree.2.map f)
      = (trees'.takeWhile fun tree => e'.1 < tree.1).map fun tree => tree.2.map f :=
    map_eq_map_iff.2 (hbelow.imp fun _ _ hab => hab.2)
  show Node.mk (f e.2) (Node.mapAll f _) = Node.mk (f e'.2) (Node.mapAll f _)
  rw [Node.mapAll_eq_map, Node.mapAll_eq_map, List.map_map, List.map_map, hline]
  exact congrArg (Node.mk (f e'.2)) hnodes

/-- The order of the widths makes the forest, whatever the widths are. -/
theorem alike_forest (horder : ∀ {v v' w w'}, R v v' → R w w' → (v < w ↔ v' < w'))
    {es es' : List (Nat × Line)}
    (h : List.Forall₂ (fun e e' => R e.1 e'.1 ∧ f e.2 = f e'.2) es es') :
    List.Forall₂ (Alike f R) (forest es) (forest es') := by
  induction h with
  | nil => exact .nil
  | cons he _ ih => exact alike_adopt horder he.1 he.2 ih

end Forest

/-- But for its number, a content line is kept as what stands behind its indentation. -/
theorem unnumbered_contentLine {raw raw' : Text} (k k' : Nat) (h : bodyOf raw = bodyOf raw') :
    (contentLine (raw, k)).unnumbered = (contentLine (raw', k')).unnumbered := by
  unfold contentLine Line.unnumbered Text.trim
  unfold bodyOf at h
  rw [h]

/-- The content lines of a text and what is kept of them, by their numbers. -/
theorem exists_numbered {t : Text} (hmark : byteOrderMark ∉ t) :
    ∃ numbered : List (Text × Nat), numbered.map Prod.fst = contentOf t ∧
      content t = numbered.map fun entry => (indentOf entry.1, contentLine entry) := by
  refine ⟨numberedContent 1 t.lines, ?_, ?_⟩
  · have hfilter := List.filter_map (f := Prod.fst) (p := hasContent) (l := t.lines.zipIdx 1)
    rw [List.zipIdx_map_fst] at hfilter
    exact hfilter.symm
  · rw [content, dropMark_of_head fun hhead => hmark (List.mem_of_mem_head? hhead), contentFrom_eq]

/-- Texts of one shape have the same nodes but for the numbers of the lines. -/
theorem unnumbered_nodesOf {t t' : Text} (hmark : byteOrderMark ∉ t) (hmark' : byteOrderMark ∉ t')
    (h : SameShape (contentOf t) (contentOf t')) :
    (nodesOf t).map (Node.map Line.unnumbered) = (nodesOf t').map (Node.map Line.unnumbered) := by
  let R := SameShape.Widths (contentOf t) (contentOf t')
  obtain ⟨numbered, hlines, hcontent⟩ := exists_numbered hmark
  obtain ⟨numbered', hlines', hcontent'⟩ := exists_numbered hmark'
  have hpairs : List.Forall₂ (fun raw raw' => R (indentOf raw) (indentOf raw') ∧
      bodyOf raw = bodyOf raw') (numbered.map Prod.fst) (numbered'.map Prod.fst) := by
    rw [hlines, hlines']
    obtain ⟨hlength, hbodies⟩ := List.forall₂_iff_zip.1 (map_eq_map_iff.1 h.bodies)
    exact List.forall₂_iff_zip.2 ⟨hlength, fun hmem => ⟨⟨_, hmem, rfl, rfl⟩, hbodies hmem⟩⟩
  have hentries : List.Forall₂ (fun e e' => R e.1 e'.1 ∧ e.2.unnumbered = e'.2.unnumbered)
      (content t) (content t') := by
    rw [List.forall₂_map_left_iff, List.forall₂_map_right_iff] at hpairs
    rw [hcontent, hcontent', List.forall₂_map_left_iff, List.forall₂_map_right_iff]
    exact hpairs.imp fun e e' he => ⟨he.1, unnumbered_contentLine e.2 e'.2 he.2⟩
  have horder : ∀ {v v' w w'}, R v v' → R w w' → (v < w ↔ v' < w') := by
    rintro v v' w w' ⟨x, hx, rfl, rfl⟩ ⟨y, hy, rfl, rfl⟩
    exact h.widths x hx y hy
  rw [nodesOf_eq, nodesOf_eq, List.map_map, List.map_map]
  exact map_eq_map_iff.2 ((alike_forest horder hentries).imp fun _ _ hab => hab.2)

/-! ## Changes of the layout -/

/-- What ends a line: one of the characters that do, or a carriage return with a line feed. -/
inductive IsBreak : Text → Prop where
  | single {c : Char} (h : Text.isLineBreak c = true) : IsBreak [c]
  | pair : IsBreak ['\r', '\n']

/-- The text is the lines with breaks of any kind between them, and maybe one behind the last. -/
inductive Broken : List Text → Text → Prop where
  | nil : Broken [] []
  | last {l : Text} (hl : l.Unbroken) : Broken [l] l
  | cons {l b t : Text} {ls : List Text} (hl : l.Unbroken) (hb : IsBreak b) (ht : Broken ls t) :
      Broken (l :: ls) (l ++ (b ++ t))

/-- The second lines are the first with other indentations, of the widths that `g` makes of the old
ones, and with other blank lines and comments between them. -/
inductive Relaid (g : Nat → Nat) : List Text → List Text → Prop where
  | nil : Relaid g [] []
  | indent {l l' : Text} {ls ls' : List Text} (hbody : bodyOf l = bodyOf l')
      (hwidth : indentOf l' = g (indentOf l)) (h : Relaid g ls ls') : Relaid g (l :: ls) (l' :: ls')
  | insert {l : Text} {ls ls' : List Text} (hl : hasContent l = false) (h : Relaid g ls ls') :
      Relaid g ls (l :: ls')
  | delete {l : Text} {ls ls' : List Text} (hl : hasContent l = false) (h : Relaid g ls ls') :
      Relaid g (l :: ls) ls'

theorem linesFrom_append {l : Text} (h : l.Unbroken) (begun t : Text) :
    Text.linesFrom begun (l ++ t) = Text.linesFrom (l.reverse ++ begun) t := by
  induction l generalizing begun with
  | nil => rfl
  | cons c l ih =>
    rw [Text.unbroken_cons] at h
    rw [List.cons_append, Text.linesFrom_cons _ _ h.1, ih h.2]
    simp

/-- A break ends the line in front of it. The line feed behind a carriage return may belong to the
break, and then there is an empty line less. -/
theorem filter_linesFrom_break {b : Text} (hb : IsBreak b) (begun t : Text) :
    (Text.linesFrom begun (b ++ t)).filter hasContent
      = (begun.reverse :: t.lines).filter hasContent := by
  cases hb with
  | pair => rfl
  | @single c hc =>
    by_cases hpair : ∃ rest, c = '\r' ∧ t = '\n' :: rest
    · obtain ⟨rest, rfl, rfl⟩ := hpair
      have hempty : Text.lines ('\n' :: rest) = [] :: Text.lines rest :=
        Text.linesFrom_newline [] rest
      rw [hempty]
      show (begun.reverse :: Text.lines rest).filter hasContent = _
      rw [List.filter_cons, List.filter_cons, List.filter_cons_of_neg (by decide)]
    · rw [List.singleton_append, Text.linesFrom, if_pos hc]
      · rfl
      · exact fun rest hreturn hfeed => hpair ⟨rest, hreturn, hfeed⟩

/-- The content lines of a text do not depend on the breaks between its lines. -/
theorem contentOf_of_broken {ls : List Text} {t : Text} (h : Broken ls t) :
    contentOf t = ls.filter hasContent := by
  unfold contentOf
  induction h with
  | nil => rfl
  | last hl =>
    rename_i l
    have hline := linesFrom_append hl [] []
    rw [List.append_nil, List.append_nil] at hline
    show (Text.linesFrom [] l).filter hasContent = _
    rw [hline, Text.linesFrom]
    cases l with
    | nil => rfl
    | cons c l => simp
  | cons hl hb _ ih =>
    rename_i l b t ls _
    show (Text.linesFrom [] (l ++ (b ++ t))).filter hasContent = _
    rw [linesFrom_append hl, filter_linesFrom_break hb, List.append_nil, List.reverse_reverse,
      List.filter_cons, List.filter_cons, ih]

/-- Whether a line has content is seen behind its indentation. -/
theorem hasContent_of_bodyOf {raw raw' : Text} (h : bodyOf raw = bodyOf raw') :
    hasContent raw = hasContent raw' := by
  unfold hasContent
  rw [List.find?_not_eq_head?_dropWhile, List.find?_not_eq_head?_dropWhile]
  exact congrArg (fun body => (List.head? body).any (· ≠ '#')) h

/-- The content lines of a new layout are those of the old one, each with its new width. -/
theorem Relaid.forall₂ {g : Nat → Nat} {ls ls' : List Text} (h : Relaid g ls ls') :
    List.Forall₂ (fun l l' => bodyOf l = bodyOf l' ∧ indentOf l' = g (indentOf l))
      (ls.filter hasContent) (ls'.filter hasContent) := by
  induction h with
  | nil => exact .nil
  | @indent l l' _ _ hbody hwidth _ ih =>
    have hsame := hasContent_of_bodyOf hbody
    cases hl : hasContent l with
    | true =>
      rw [List.filter_cons_of_pos hl, List.filter_cons_of_pos (hsame ▸ hl)]
      exact .cons ⟨hbody, hwidth⟩ ih
    | false =>
      rw [List.filter_cons_of_neg (by simp [hl]), List.filter_cons_of_neg (by simp [← hsame, hl])]
      exact ih
  | insert hl _ ih =>
    rw [List.filter_cons_of_neg (by simp [hl])]
    exact ih
  | delete hl _ ih =>
    rw [List.filter_cons_of_neg (by simp [hl])]
    exact ih

/-- A new layout that keeps the order of the widths keeps the shape. -/
theorem Relaid.sameShape {g : Nat → Nat} (hg : StrictMono g) {ls ls' : List Text}
    (h : Relaid g ls ls') : SameShape (ls.filter hasContent) (ls'.filter hasContent) := by
  have hpairs := h.forall₂
  refine ⟨?_, fun x hx y hy => ?_⟩
  · exact map_eq_map_iff.2 (hpairs.imp fun _ _ hl => hl.1)
  · obtain ⟨-, hzip⟩ := List.forall₂_iff_zip.1 hpairs
    rw [(hzip hx).2, (hzip hy).2]
    exact hg.lt_iff_lt.symm

/-- Two texts without a mark of byte order have the same tree, line numbers apart, and top nodes
that load to the same rules, or fail to load alike, if their content lines are the same behind their
indentation and are indented in the same order. So they do if the lines of one are those of the
other in a new layout: with other blank lines and comments, other indentations in the order of the
old ones, and other line breaks. -/
theorem layout_immaterial (source source' : Text) {t t' : Text} (hmark : byteOrderMark ∉ t)
    (hmark' : byteOrderMark ∉ t')
    (h : SameShape (contentOf t) (contentOf t') ∨
      ∃ g ls ls', StrictMono g ∧ Relaid g ls ls' ∧ Broken ls t ∧ Broken ls' t') :
    (parse source t).root.map Line.unnumbered = (parse source' t').root.map Line.unnumbered ∧
    List.Forall₂ Node.LoadsAlike (parse source t).nodes (parse source' t').nodes := by
  have hshape : SameShape (contentOf t) (contentOf t') := by
    rcases h with hshape | ⟨g, ls, ls', hg, hrelaid, ht, ht'⟩
    · exact hshape
    · rw [contentOf_of_broken ht, contentOf_of_broken ht']
      exact hrelaid.sameShape hg
  have hnodes := unnumbered_nodesOf hmark hmark' hshape
  constructor
  · show Node.mk _ (Node.mapAll _ (nodesOf t)) = Node.mk _ (Node.mapAll _ (nodesOf t'))
    rw [Node.mapAll_eq_map, Node.mapAll_eq_map, hnodes]
  · exact (map_eq_map_iff.1 hnodes).imp fun _ _ hn => Node.loadsAlike_of_unnumbered hn

/-- A comment and an empty line come in, all indentations are twice as wide and mix tabs with
spaces, and four kinds of breaks are used, of which the second and the third are one carriage return
with its line feed. -/
theorem layout_immaterial_mixed_breaks :
    let header : Text := ['o', 'r']
    let has : Text := ['h', 'a', 's', ' ', 'x']
    let less : Text := ['z', ' ', '<', ' ', '1']
    let more : Text := ['y', ' ', '+', '+', ' ', '#']
    let t : Text := header ++ '\n' :: ' ' :: has ++ '\n' :: ' ' :: header ++ '\n' :: ' ' :: ' ' ::
      less ++ '\n' :: '\t' :: more
    let t' : Text := '\t' :: '#' :: 'c' :: '\r' :: '\n' :: header ++ '\r' :: '\n' :: '\t' :: ' ' ::
      has ++ '\u2028' :: ' ' :: ' ' :: header ++ '\r' :: '\t' :: '\t' :: ' ' :: '\t' ::
      less ++ '\n' :: ' ' :: '\t' :: more ++ ['\n']
    byteOrderMark ∉ t ∧ byteOrderMark ∉ t' ∧
      (parse [] t).root.map Line.unnumbered = (parse [] t').root.map Line.unnumbered ∧
      ∃ n n', (parse [] t).nodes = [n] ∧ (parse [] t').nodes = [n'] ∧ n.LoadsAlike n' ∧
        (Rule.ofHeader ⟨[.outermost], n'⟩).rule
          = ⟨.any, [⟨['x'], .compare .unequal, 0⟩, ⟨['y'], .assign .add, 1⟩],
              [⟨.any, [⟨['z'], .compare .less, 1⟩], []⟩]⟩ := by
  intro header has less more t t'
  have hmark : byteOrderMark ∉ t := by decide
  have hmark' : byteOrderMark ∉ t' := by decide
  let ls : List Text := [header, ' ' :: has, ' ' :: header, ' ' :: ' ' :: less, '\t' :: more]
  let ls' : List Text := [['\t', '#', 'c'], header, [], '\t' :: ' ' :: has, ' ' :: ' ' :: header,
    '\t' :: '\t' :: ' ' :: '\t' :: less, ' ' :: '\t' :: more]
  have hfeed : IsBreak ['\n'] := .single (by decide)
  have hreturn : IsBreak ['\r'] := .single (by decide)
  have hseparator : IsBreak ['\u2028'] := .single (by decide)
  have ht : Broken ls t :=
    .cons (by decide) hfeed <| .cons (by decide) hfeed <| .cons (by decide) hfeed <|
      .cons (by decide) hfeed <| .last (by decide)
  have ht' : Broken ls' t' :=
    .cons (by decide) .pair <| .cons (by decide) hreturn <| .cons (by decide) hfeed <|
      .cons (by decide) hseparator <| .cons (by decide) hreturn <| .cons (by decide) hfeed <|
      .cons (by decide) hfeed .nil
  have hrelaid : Relaid (2 * ·) ls ls' :=
    .insert rfl <| .indent rfl rfl <| .insert rfl <| .indent rfl rfl <| .indent rfl rfl <|
      .indent rfl rfl <| .indent rfl rfl .nil
  have htwice : StrictMono (2 * · : Nat → Nat) := fun a b hab => by
    show 2 * a < 2 * b
    omega
  obtain ⟨hroot, hload⟩ :=
    layout_immaterial [] [] hmark hmark' (.inr ⟨_, ls, ls', htwice, hrelaid, ht, ht'⟩)
  refine ⟨hmark, hmark', hroot, _, _, rfl, rfl, ?_, rfl⟩
  exact (List.forall₂_cons.1 hload).1

end Outline

end Proviso
