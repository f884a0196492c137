/-
  Drafts and the trees they are read as.

  `rowText` is the line that a draft gets for some tokens at some depth, and `entries` lists the
  lines of a tree with their depths. Reading a text of such lines gives the entries back, numbers
  and surrounding text apart (`content_unlines`), and the forest of the entries of a tree is that
  tree (`forest_entriesAll`); so a draft that was written along a tree is read as that tree
  (`nodesOf_unlines`).
-/
import Proviso.Outline.Writer
import Proviso.Proofs.Decimal
import Proviso.Proofs.Indentation

namespace Proviso.Outline

/-! ## Lines of a draft -/

/-- The token as which a word is read. -/
def Word.text : Word → Text
  | .token t => t
  | .integer i => Text.ofInt i

/-- The word can be written. -/
def Word.Writable : Word → Prop
  | .token t => Token.Writable t
  | .integer i => Numeral.fits i = true

theorem Word.write_of_writable {w : Word} (h : w.Writable) :
    w.write = .ok (Token.written w.text) := by
  cases w with
  | token t =>
    have ht : Token.write? t = some (Token.written t) := Token.write?_of_writable h
    simp only [Word.write, Word.text, ht]
  | integer i =>
    have hfits : Numeral.fits i = true := h
    rw [Word.text, Token.written_of_bare (Text.needsQuotes_ofInt i), Word.write, Numeral.write,
      if_pos hfits]
    rfl

theorem Word.mapM_write {words : List Word} (h : ∀ w ∈ words, w.Writable) :
    words.mapM Word.write = .ok (words.map fun w => Token.written w.text) := by
  induction words with
  | nil => rfl
  | cons w words ih =>
    rw [List.forall_mem_cons] at h
    rw [List.mapM_cons, Word.write_of_writable h.1, ih h.2]
    rfl

/-- The line of a draft for the tokens of `entry.2` at the depth `entry.1`. -/
def rowText (entry : Nat × Line) : Text :=
  (if entry.2.tokens.isEmpty then [] else List.replicate entry.1 '\t')
    ++ Token.lineOf entry.2.tokens

/-- A line that is nothing but its tokens. -/
def Line.bare (tokens : List Text) : Line := ⟨0, [], tokens⟩

/-- The line without its number and its text. -/
def Line.erase (l : Line) : Line := .bare l.tokens

/-- The draft with the lines of entries behind its own. -/
def Draft.extend (d : Draft) (entries : List (Nat × Line)) : Draft :=
  { d with lines := d.lines ++ entries.map rowText }

theorem Draft.extend_nil (d : Draft) : d.extend [] = d := by
  simp [Draft.extend]

theorem Draft.extend_append (d : Draft) (es fs : List (Nat × Line)) :
    d.extend (es ++ fs) = (d.extend es).extend fs := by
  simp [Draft.extend]

theorem Draft.write_of_writable (d : Draft) {words : List Word} (h : ∀ w ∈ words, w.Writable) :
    d.write words = .ok (d.extend [(d.depth, .bare (words.map Word.text))]) := by
  unfold Draft.write
  rw [Word.mapM_write h]
  cases words with
  | nil => rfl
  | cons w words =>
    show Except.ok _ = _
    simp [Draft.extend, rowText, Line.bare, Token.lineOf, List.map_map, Function.comp_def]

theorem Draft.write_tokens (d : Draft) {ts : List Text} (h : ∀ t ∈ ts, Token.Writable t) :
    d.write (ts.map .token) = .ok (d.extend [(d.depth, .bare ts)]) := by
  have hwords : ∀ w ∈ ts.map Word.token, w.Writable := by
    intro w hw
    obtain ⟨t, ht, rfl⟩ := List.mem_map.1 hw
    exact h t ht
  have htexts : (ts.map Word.token).map Word.text = ts := by
    rw [List.map_map]
    exact List.map_id ts
  rw [Draft.write_of_writable d hwords, htexts]

/-- Every token of the entry can be written and read back as part of one line. -/
def Sound (entry : Nat × Line) : Prop := ∀ t ∈ entry.2.tokens, Token.Writable t ∧ t.Unbroken

theorem unbroken_rowText {entry : Nat × Line} (h : Sound entry) : (rowText entry).Unbroken := by
  unfold rowText
  rw [Text.unbroken_append]
  refine ⟨?_, Token.unbroken_lineOf h⟩
  split
  · exact Text.unbroken_nil
  · intro c hc
    rw [List.eq_of_mem_replicate hc]
    decide

/-! ## Reading the lines of a draft -/

/-- An entry as it is read from the line with a number. -/
def readBack (entry : (Nat × Line) × Nat) : Nat × Line :=
  (entry.1.1, ⟨entry.2, Text.dropEnd Text.isBlank (Token.lineOf entry.1.2.tokens),
    entry.1.2.tokens⟩)

theorem content?_rowText (number : Nat) {entry : Nat × Line}
    (h : ∀ t ∈ entry.2.tokens, Token.Writable t) :
    content? number (rowText entry)
      = if entry.2.tokens.isEmpty then none else some (readBack (entry, number)) := by
  obtain ⟨depth, number', text, tokens⟩ := entry
  by_cases hne : tokens = []
  · subst hne
    rfl
  · obtain ⟨c, cs, hline, hblank, hhash⟩ := Token.exists_cons_lineOf h hne
    have hread : Token.read (c :: cs) = tokens := by
      rw [← hline]
      exact Token.read_lineOf h
    have htabs : ∀ d ∈ List.replicate depth '\t', Text.isBlank d = true := by
      intro d hd
      rw [List.eq_of_mem_replicate hd]
      decide
    have hempty : tokens.isEmpty = false := by simpa using hne
    have hrow : rowText (depth, ⟨number', text, tokens⟩)
        = List.replicate depth '\t' ++ c :: cs := by
      unfold rowText
      dsimp only at hline ⊢
      rw [hempty, if_neg (by decide), hline]
    have hdrop : Text.dropStart Text.isBlank (List.replicate depth '\t' ++ c :: cs) = c :: cs := by
      unfold Text.dropStart
      rw [List.dropWhile_append_of_pos htabs, List.dropWhile_cons_of_neg (by simp [hblank])]
    unfold content?
    rw [hrow, hdrop, hempty]
    dsimp only at hline ⊢
    rw [if_neg hhash, if_neg (by decide), hread]
    simp [readBack, hline]

theorem contentFrom_rowText (number : Nat) {entries : List (Nat × Line)}
    (h : ∀ e ∈ entries, ∀ t ∈ e.2.tokens, Token.Writable t) :
    contentFrom number (entries.map rowText)
      = ((entries.zipIdx number).filter fun e => !e.1.2.tokens.isEmpty).map readBack := by
  induction entries generalizing number with
  | nil => rfl
  | cons e entries ih =>
    rw [List.forall_mem_cons] at h
    rw [List.map_cons, contentFrom, content?_rowText number h.1, ih _ h.2, List.zipIdx_cons]
    cases he : e.2.tokens.isEmpty with
    | true => simp [he]
    | false => simp [he]

theorem dropMark_of_head {t : Text} (h : t.head? ≠ some byteOrderMark) : dropMark t = t := by
  cases t with
  | nil => rfl
  | cons c t =>
    rw [dropMark, if_neg]
    rintro rfl
    exact h rfl

/-- A text begins with the first character of the first token written to it. -/
theorem head?_unlines {l : Line} {t : Text} {ts : List Text} (h : Token.Writable t)
    (hl : l.tokens = t :: ts) (entries : List (Nat × Line)) :
    (Text.unlines (((0, l) :: entries).map rowText)).head? = (Token.written t).head? := by
  have hrow : rowText (0, l) = Token.lineOf (t :: ts) := by
    simp [rowText, hl]
  obtain ⟨c, cs, hw, -⟩ := Token.exists_cons_written h
  have hhead := Token.head?_lineOf h ts
  rw [hw, List.head?_cons] at hhead
  rw [List.map_cons, Text.unlines_cons, hrow, List.head?_append, hhead, hw]
  rfl

/-- The entries whose lines make up a text are what the text has for content, but for the numbers
and the texts of the lines. -/
theorem content_unlines {entries : List (Nat × Line)}
    (h : ∀ e ∈ entries, Sound e ∧ e.2.tokens ≠ [])
    (hmark : (Text.unlines (entries.map rowText)).head? ≠ some byteOrderMark) :
    (content (Text.unlines (entries.map rowText))).map (fun e => (e.1, e.2.erase))
      = entries.map fun e => (e.1, e.2.erase) := by
  have hlines : Text.lines (Text.unlines (entries.map rowText)) = entries.map rowText := by
    refine Text.lines_unlines fun l hl => ?_
    obtain ⟨e, he, rfl⟩ := List.mem_map.1 hl
    exact unbroken_rowText (h e he).1
  have hall : (entries.zipIdx 1).filter (fun e => !e.1.2.tokens.isEmpty) = entries.zipIdx 1 := by
    rw [List.filter_eq_self]
    rintro ⟨e, k⟩ he
    have hmem : e ∈ entries := List.fst_mem_of_mem_zipIdx he
    simpa using (h e hmem).2
  unfold content
  rw [dropMark_of_head hmark, hlines,
    contentFrom_rowText 1 fun e he t ht => ((h e he).1 t ht).1, hall, List.map_map]
  conv => rhs; rw [← List.zipIdx_map_fst 1 entries, List.map_map]
  rfl

/-! ## Trees and their entries -/

theorem adopt_map (f : Line → Line) (entry : Nat × Line) (trees : List (Nat × Node)) :
    adopt (entry.1, f entry.2) (trees.map fun tree => (tree.1, tree.2.map f))
      = (adopt entry trees).map fun tree => (tree.1, tree.2.map f) := by
  unfold adopt
  simp only [List.takeWhile_map, List.dropWhile_map, List.map_cons, List.map_map, Node.map,
    Node.mapAll_eq_map]
  rfl

/-- Indentation alone makes the forest, so it is the same whatever the lines are. -/
theorem forest_map (f : Line → Line) (entries : List (Nat × Line)) :
    forest (entries.map fun e => (e.1, f e.2))
      = (forest entries).map fun tree => (tree.1, tree.2.map f) := by
  unfold forest
  induction entries with
  | nil => rfl
  | cons e entries ih => rw [List.map_cons, List.foldr_cons, List.foldr_cons, ih, ← adopt_map]

namespace Node

mutual

/-- The lines of a node at a depth, each with its own depth, in the order of a file. -/
def entries (depth : Nat) : Node → List (Nat × Line)
  | ⟨l, ns⟩ => (depth, l) :: entriesAll (depth + 1) ns

/-- The lines of nodes at a depth, each with its own depth. -/
def entriesAll (depth : Nat) : List Node → List (Nat × Line)
  | [] => []
  | n :: ns => entries depth n ++ entriesAll depth ns

end

mutual

/-- The lines of the entries are those that a walk meets. -/
theorem entries_lines (depth : Nat) (above : List Line) : (n : Node) →
    (n.entries depth).map (·.2) = (n.walk above).map (·.node.line)
  | ⟨l, ns⟩ => by
    rw [entries, walk, List.map_cons, List.map_cons, entriesAll_lines (depth + 1) (above ++ [l]) ns]
    rfl

theorem entriesAll_lines (depth : Nat) (above : List Line) : (ns : List Node) →
    (entriesAll depth ns).map (·.2) = (walkAll above ns).map (·.node.line)
  | [] => rfl
  | n :: ns => by
    rw [entriesAll, walkAll, List.map_append, List.map_append, entries_lines depth above n,
      entriesAll_lines depth above ns]

end

theorem entriesAll_eq_flatMap (depth : Nat) (ns : List Node) :
    entriesAll depth ns = ns.flatMap (entries depth) := by
  induction ns with
  | nil => rfl
  | cons n ns ih => rw [entriesAll, ih, List.flatMap_cons]

theorem entriesAll_append (depth : Nat) (ns ms : List Node) :
    entriesAll depth (ns ++ ms) = entriesAll depth ns ++ entriesAll depth ms := by
  rw [entriesAll_eq_flatMap, entriesAll_eq_flatMap, entriesAll_eq_flatMap, List.flatMap_append]

end Node

/-- The trees begin with one that is indented no more than `depth`. -/
def Outside (depth : Nat) (trees : List (Nat × Node)) : Prop :=
  ∀ tree ∈ trees.head?, tree.1 ≤ depth

theorem outside_map_append {depth : Nat} {trees : List (Nat × Node)} (h : Outside depth trees)
    (ns : List Node) : Outside depth (ns.map (depth, ·) ++ trees) := by
  cases ns with
  | nil => exact h
  | cons n ns =>
    intro tree htree
    rw [List.map_cons, List.cons_append, List.head?_cons, Option.mem_some_iff] at htree
    rw [← htree]

/-- What begins with an element that fails a test ends the elements that pass it. -/
theorem takeWhile_dropWhile_append {α : Type} {p : α → Bool} {more : List α}
    (h : ∀ a ∈ more.head?, p a = false) (as : List α) :
    (as ++ more).takeWhile p = as.takeWhile p ∧
      (as ++ more).dropWhile p = as.dropWhile p ++ more := by
  induction as with
  | nil =>
    cases more with
    | nil => exact ⟨rfl, rfl⟩
    | cons a more =>
      have ha : p a = false := h a rfl
      exact ⟨List.takeWhile_cons_of_neg (by simp [ha]), List.dropWhile_cons_of_neg (by simp [ha])⟩
  | cons a as ih =>
    rw [List.cons_append, List.takeWhile_cons, List.takeWhile_cons, List.dropWhile_cons,
      List.dropWhile_cons, ih.1, ih.2]
    cases p a with
    | true => exact ⟨rfl, rfl⟩
    | false => exact ⟨rfl, rfl⟩

/-- A line adopts nothing of what begins with a tree that is not indented more. -/
theorem adopt_append (entry : Nat × Line) (trees : List (Nat × Node)) {more : List (Nat × Node)}
    (h : Outside entry.1 more) : adopt entry (trees ++ more) = adopt entry trees ++ more := by
  have hmore : ∀ tree ∈ more.head?, decide (entry.1 < tree.1) = false := fun tree htree =>
    decide_eq_false (Nat.not_lt.2 (h tree htree))
  obtain ⟨htake, hdrop⟩ := takeWhile_dropWhile_append hmore trees
  unfold adopt
  rw [htake, hdrop, List.cons_append]

theorem adopt_deeper (depth : Nat) (l : Line) (ns : List Node) {trees : List (Nat × Node)}
    (h : Outside depth trees) :
    adopt (depth, l) (ns.map (depth + 1, ·) ++ trees) = (depth, ⟨l, ns⟩) :: trees := by
  have hdeeper : ∀ tree ∈ ns.map (depth + 1, ·), decide (depth < tree.1) = true := by
    intro tree htree
    obtain ⟨n, -, rfl⟩ := List.mem_map.1 htree
    exact decide_eq_true (Nat.lt_succ_self depth)
  rw [adopt_append _ _ h]
  unfold adopt
  dsimp only
  rw [List.takeWhile_eq_self_iff.2 hdeeper, List.dropWhile_eq_nil_iff.2 hdeeper, List.map_map]
  simp [Function.comp_def]

mutual

/-- The entries of a node are put together to that node. -/
theorem foldr_entries (depth : Nat) {trees : List (Nat × Node)} (h : Outside depth trees) :
    (n : Node) → (n.entries depth).foldr adopt trees = (depth, n) :: trees
  | ⟨l, ns⟩ => by
    have hnext : Outside (depth + 1) trees := fun tree htree => Nat.le_succ_of_le (h tree htree)
    rw [Node.entries, List.foldr_cons, foldr_entriesAll (depth + 1) hnext ns, adopt_deeper _ _ _ h]

/-- The entries of nodes are put together to these nodes, side by side. -/
theorem foldr_entriesAll (depth : Nat) {trees : List (Nat × Node)} (h : Outside depth trees) :
    (ns : List Node) → (Node.entriesAll depth ns).foldr adopt trees = ns.map (depth, ·) ++ trees
  | [] => rfl
  | n :: ns => by
    rw [Node.entriesAll, List.foldr_append, foldr_entriesAll depth h ns,
      foldr_entries depth (outside_map_append h ns) n]
    rfl

end

theorem forest_entriesAll (depth : Nat) (ns : List Node) :
    forest (Node.entriesAll depth ns) = ns.map (depth, ·) := by
  have hnone : Outside depth [] := fun _ h => absurd h (by simp)
  rw [forest, foldr_entriesAll depth hnone ns, List.append_nil]

/-- Nodes written line by line are read back, but for the numbers and the texts of the lines. -/
theorem nodesOf_unlines {ns : List Node}
    (h : ∀ e ∈ Node.entriesAll 0 ns, Sound e ∧ e.2.tokens ≠ [])
    (hmark : (Text.unlines ((Node.entriesAll 0 ns).map rowText)).head? ≠ some byteOrderMark) :
    (nodesOf (Text.unlines ((Node.entriesAll 0 ns).map rowText))).map (Node.map Line.erase)
      = ns.map (Node.map Line.erase) := by
  have hforest := congrArg forest (content_unlines h hmark)
  rw [forest_map, forest_map, forest_entriesAll] at hforest
  have hnodes := congrArg (List.map Prod.snd) hforest
  rw [List.map_map, List.map_map, List.map_map] at hnodes
  rw [nodesOf_eq, List.map_map]
  exact hnodes

end Proviso.Outline
