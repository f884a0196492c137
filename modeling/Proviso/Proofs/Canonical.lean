/-
  Outlines in canonical form.

  The canonical form of a header is its tokens with the members of the rule below it. If all rules
  of an outline can be loaded, formatting writes the entries of the canonical trees
  (`ofOutline_eq`). As long as that text does not begin with a byte order mark, it is read as these
  trees (`nodesOf_canonText`), loaded as the same rules (`ofOutline_canonText`), and is its own
  canonical form (`canonText_canonText`).
-/
import Proviso.Proofs.Saving
import Proviso.Rule.Collection

namespace Proviso

open Outline (Draft Line Node Position)

/-! ## What is read can be written -/

namespace Outline

/-- The tokens of content lines can be written and are found again in one line. -/
theorem sound_content {t : Text} {e : Nat × Line} (h : e ∈ content t) :
    Sound e ∧ e.2.tokens ≠ [] := by
  rw [content, contentFrom_eq] at h
  obtain ⟨⟨raw, k⟩, hentry, rfl⟩ := List.mem_map.1 h
  obtain ⟨hmem, hcontent⟩ := List.mem_filter.1 hentry
  refine ⟨fun u hu => ?_, tokens_ne_nil_of_hasContent k hcontent⟩
  have hread : u ∈ Token.read (Text.dropStart Text.isBlank raw) := hu
  have hraw : raw.Unbroken := Text.not_break_of_mem_lines (List.fst_mem_of_mem_zipIdx hmem)
  have hsub : List.Sublist u raw :=
    ((List.sublist_flatten_of_mem hread).trans (Token.flatten_read_sublist _)).trans
      (List.dropWhile_sublist _)
  exact ⟨Token.writable_of_mem_read hread, hraw.sublist hsub⟩

/-- Every line of the node can be written and found again. -/
def Node.Storable (n : Node) : Prop := ∀ e ∈ n.entries 0, Sound e ∧ e.2.tokens ≠ []

theorem storable_of_mem_nodesOf {t : Text} {n : Node} (h : n ∈ nodesOf t) : n.Storable := by
  intro e he
  have hall : e ∈ Node.entriesAll 0 (nodesOf t) := by
    rw [Node.entriesAll_eq_flatMap]
    exact List.mem_flatMap.2 ⟨n, h, he⟩
  have hline : e.2 ∈ (Node.entriesAll 0 (nodesOf t)).map (·.2) := List.mem_map_of_mem hall
  rw [Node.entriesAll_lines 0 [], walkAll_nodesOf_lines] at hline
  obtain ⟨f, hf, heq⟩ := List.mem_map.1 hline
  have hsound := sound_content hf
  unfold Sound at hsound ⊢
  rw [heq] at hsound
  exact hsound

end Outline

/-- A clause that a line of sound tokens spells can be saved. -/
theorem Outline.Line.storable_of_clause? {l : Line} {c : Clause}
    (hl : ∀ t ∈ l.tokens, Outline.Token.Writable t ∧ t.Unbroken) (h : l.clause? = some c) :
    c.Storable := by
  rcases Line.name_of_clause? h with hname | hname
  · exact ⟨by rw [hname]; decide, by rw [hname]; exact Text.unbroken_nil, Line.fits_of_clause? h⟩
  · exact ⟨(hl _ hname).1, (hl _ hname).2, Line.fits_of_clause? h⟩

/-! ## The canonical form of a header -/

namespace Outline.Node

/-- The header with nothing but its tokens, and below it the members of its rule. -/
def canon (n : Node) : Node := ⟨.bare n.line.tokens, n.rule.members⟩

namespace Storable

variable {n : Node} (h : n.Storable)
include h

theorem header : (∀ t ∈ n.line.tokens, Token.Writable t ∧ t.Unbroken) ∧ n.line.tokens ≠ [] := by
  obtain ⟨l, ns⟩ := n
  exact h (0, l) List.mem_cons_self

/-- All clauses of the rule below the header can be saved. -/
theorem rule : ∀ c ∈ n.rule.allClauses, c.Storable := by
  obtain ⟨l, ns⟩ := n
  intro c hc
  have hvisited : c ∈ (visitedAll [] ns).filterMap (·.node.line.clause?) :=
    (visitedAll_perm [] ns).subset hc
  obtain ⟨q, hq, hclause⟩ := List.mem_filterMap.1 hvisited
  obtain ⟨e, he, hline⟩ := exists_entry_of_mem_visitedAll hq 1
  rw [← hline] at hclause
  exact Line.storable_of_clause? (h e (List.mem_cons_of_mem _ he)).1 hclause

theorem canon : n.canon.Storable := by
  intro e he
  rcases List.mem_cons.1 he with rfl | he
  · exact h.header
  · exact Rule.sound_members h.rule he

/-- The canonical form says the same rule. -/
theorem rule_canon : n.canon.rule = n.rule := Rule.rule_members h.rule rfl

theorem canon_canon : n.canon.canon = n.canon := by
  show Node.mk (.bare n.line.tokens) n.canon.rule.members = _
  rw [h.rule_canon]
  rfl

end Storable

theorem sound_canon {ns : List Node} (hns : ∀ n ∈ ns, n.Storable) {e : Nat × Line}
    (he : e ∈ entriesAll 0 (ns.map Node.canon)) : Sound e ∧ e.2.tokens ≠ [] := by
  rw [entriesAll_eq_flatMap] at he
  obtain ⟨c, hc, he⟩ := List.mem_flatMap.1 he
  obtain ⟨n, hn, rfl⟩ := List.mem_map.1 hc
  exact (hns n hn).canon e he

/-- Nothing but the tokens of lines gets into the canonical form. -/
theorem canon_erase (n : Node) : (n.map Line.erase).canon = n.canon := by
  unfold canon
  rw [rule_erase, line_map]
  rfl

end Outline.Node

/-! ## What formatting writes -/

namespace Collection

/-- Headers that are loaded without a fault are all loaded, each as the rule it says. -/
theorem ofNodes_eq {above : List Line} {ns : List Node}
    (h : ∀ n ∈ ns, (Rule.ofHeader ⟨above, n⟩).fault = none) :
    (ofNodes above ns).fault = none ∧ (ofNodes above ns).rules = ns.map Node.rule ∧
      (ofNodes above ns).reports = ns.flatMap fun n => (Rule.ofHeader ⟨above, n⟩).reports := by
  induction ns with
  | nil => exact ⟨rfl, rfl, rfl⟩
  | cons n ns ih =>
    rw [List.forall_mem_cons] at h
    obtain ⟨hfault, hrules, hreports⟩ := ih h.2
    have hrule : (Rule.ofHeader ⟨above, n⟩).rule = n.rule := (Rule.intake_ofHeader _).rule h.1
    unfold reports at hreports ⊢
    rw [ofNodes]
    dsimp only
    rw [h.1]
    dsimp only
    rw [hrule, hrules, List.filterMap_append, hreports]
    exact ⟨hfault, rfl, rfl⟩

theorem fault_eq_none {above : List Line} {ns : List Node}
    (h : (ofNodes above ns).fault = none) : ∀ n ∈ ns, (Rule.ofHeader ⟨above, n⟩).fault = none := by
  induction ns with
  | nil => exact fun n hn => absurd hn List.not_mem_nil
  | cons n ns ih =>
    rw [ofNodes] at h
    dsimp only at h
    cases hn : (Rule.ofHeader ⟨above, n⟩).fault with
    | some fault =>
      rw [hn] at h
      exact absurd h (by simp)
    | none =>
      rw [hn] at h
      exact List.forall_mem_cons.2 ⟨hn, ih h⟩

end Collection

namespace Formatting

/-- A header that can be loaded is written in canonical form. -/
theorem header_eq {above : List Line} {n : Node} (hn : n.Storable)
    (h : (Rule.ofHeader ⟨above, n⟩).fault = none) (d : Draft) :
    header ⟨above, n⟩ d
      = ⟨d.extend (n.canon.entries d.depth), (Rule.ofHeader ⟨above, n⟩).events, none⟩ := by
  have hrule : (Rule.ofHeader ⟨above, n⟩).rule = n.rule := (Rule.intake_ofHeader _).rule h
  unfold header
  dsimp only
  rw [Draft.write_tokens d fun t ht => (hn.header.1 t ht).1, h, hrule]
  dsimp only
  rw [(Rule.save_eq n.rule hn.rule).block, Saving.wrote, ← Draft.extend_append]
  rfl

/-- Headers are written in canonical form one after another, and what is reported is what is
reported when they are loaded. -/
theorem ofNodes_eq {above : List Line} {ns : List Node} (hns : ∀ n ∈ ns, n.Storable)
    (h : ∀ n ∈ ns, (Rule.ofHeader ⟨above, n⟩).fault = none) (d : Draft) :
    ofNodes above ns d
      = ⟨d.extend (Node.entriesAll d.depth (ns.map Node.canon)),
        (Collection.ofNodes above ns).events, none⟩ := by
  induction ns generalizing d with
  | nil => rw [ofNodes, List.map_nil, Node.entriesAll, Draft.extend_nil, Collection.ofNodes]
  | cons n ns ih =>
    rw [List.forall_mem_cons] at hns h
    rw [ofNodes, header_eq hns.1 h.1]
    dsimp only
    rw [ih hns.2 h.2, List.map_cons, Node.entriesAll, Draft.extend_append, Collection.ofNodes]
    dsimp only
    rw [h.1]
    rfl

end Formatting

namespace Outline

/-- The text of nodes in canonical form. -/
def canonText (ns : List Node) : Text :=
  Text.unlines ((Node.entriesAll 0 (ns.map Node.canon)).map rowText)

end Outline

/-- The text that formatting an outline writes. -/
theorem Formatting.ofOutline_eq {source t : Text}
    (h : (Collection.ofOutline (.parse source t)).fault = none) :
    (Formatting.ofOutline (.parse source t)).fault = none ∧
      (Formatting.ofOutline (.parse source t)).draft.depth = 0 ∧
      (Formatting.ofOutline (.parse source t)).draft.text
        = Outline.canonText (Outline.nodesOf t) := by
  have heq : Formatting.ofOutline (.parse source t) = _ :=
    ofNodes_eq (fun n hn => Outline.storable_of_mem_nodesOf hn) (Collection.fault_eq_none h) .empty
  rw [heq]
  exact ⟨rfl, rfl, rfl⟩

/-! ## Reading the canonical form -/

section Reread

variable {ns : List Node} (hns : ∀ n ∈ ns, n.Storable)
  (hmark : (Outline.canonText ns).head? ≠ some Outline.byteOrderMark)
include hns hmark

open Outline (canonText nodesOf)

/-- The canonical text is read as the canonical trees. -/
theorem Outline.nodesOf_canonText :
    (nodesOf (canonText ns)).map (Node.map Line.erase)
      = (ns.map Node.canon).map (Node.map Line.erase) :=
  nodesOf_unlines (fun _ he => Node.sound_canon hns he) hmark

/-- What depends on tokens alone is the same for the nodes that are read. -/
theorem Outline.map_nodesOf_canonText {α : Type} {f : Node → α}
    (herase : ∀ n : Node, f (n.map Line.erase) = f n) :
    (nodesOf (canonText ns)).map f = (ns.map Node.canon).map f := by
  have hf : ∀ ms : List Node, (ms.map (Node.map Line.erase)).map f = ms.map f := by
    intro ms
    rw [List.map_map]
    exact List.map_congr_left fun n _ => herase n
  rw [← hf, nodesOf_canonText hns hmark, hf]

theorem Outline.headers_canonText :
    (nodesOf (canonText ns)).map (·.line.tokens) = ns.map (·.line.tokens) := by
  have herase : ∀ n : Node, (n.map Line.erase).line.tokens = n.line.tokens := fun n => by
    rw [Node.line_map]
    rfl
  rw [map_nodesOf_canonText hns hmark herase, List.map_map]
  rfl

theorem Outline.rules_canonText :
    (nodesOf (canonText ns)).map Node.rule = ns.map Node.rule := by
  rw [map_nodesOf_canonText hns hmark Node.rule_erase, List.map_map]
  exact List.map_congr_left fun n hn => (hns n hn).rule_canon

theorem Outline.canonText_canonText : canonText (nodesOf (canonText ns)) = canonText ns := by
  have hcanon : (nodesOf (canonText ns)).map Node.canon = ns.map Node.canon := by
    rw [map_nodesOf_canonText hns hmark Node.canon_erase, List.map_map]
    exact List.map_congr_left fun n hn => (hns n hn).canon_canon
  unfold canonText at hcanon ⊢
  rw [hcanon]

/-- Every header of the canonical text is loaded without a fault and without a report. -/
theorem Rule.ofHeader_canonText {m : Node} (hm : m ∈ nodesOf (canonText ns)) (above : List Line) :
    (Rule.ofHeader ⟨above, m⟩).fault = none ∧ (Rule.ofHeader ⟨above, m⟩).reports = [] := by
  have hmem : m.map Line.erase ∈ (ns.map Node.canon).map (Node.map Line.erase) := by
    rw [← Outline.nodesOf_canonText hns hmark]
    exact List.mem_map_of_mem hm
  obtain ⟨c, hc, hsame⟩ := List.mem_map.1 hmem
  obtain ⟨n, hn, rfl⟩ := List.mem_map.1 hc
  obtain ⟨hfault, -, hreports⟩ :=
    Rule.ofHeader_of_erase_eq (hns n hn).rule (l := .bare n.line.tokens) rfl hsame.symm
  exact ⟨hfault, hreports⟩

theorem Collection.ofOutline_canonText (source : Text) :
    (Collection.ofOutline (.parse source (canonText ns))).fault = none ∧
      (Collection.ofOutline (.parse source (canonText ns))).rules = ns.map Node.rule ∧
      (Collection.ofOutline (.parse source (canonText ns))).reports = [] := by
  obtain ⟨hfault, hrules, hreports⟩ := Collection.ofNodes_eq
    fun m hm => (Rule.ofHeader_canonText hns hmark hm [.outermost]).1
  refine ⟨hfault, hrules.trans (Outline.rules_canonText hns hmark), hreports.trans ?_⟩
  exact List.flatMap_eq_nil_iff.2 fun m hm => (Rule.ofHeader_canonText hns hmark hm _).2

end Reread

end Proviso
