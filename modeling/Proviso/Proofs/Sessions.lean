/-
  Sessions of writing and what is read of them.

  A session is a sequence of calls on a draft, of which some may fail. A failed call changes
  nothing (`call_eq`), so a session leaves the lines of the writes that succeeded, each at the depth
  that the calls before it add up to (`lines_run`). Read again, these lines give one node for each
  write that was not empty, below the nearest earlier one that was made at a smaller depth
  (`session_read_back`): the reader compares indentations as the writer counts blocks.
-/
import Proviso.Proofs.Drafts
import Proviso.Rule.Saving

namespace Proviso.Outline

open Node (walkAll walkAll_lines)

/-! ## Calls and their faults -/

/-- Why a word has no written form, if it has none. -/
def Word.fault? : Word → Option Draft.Fault
  | .token t =>
    if Token.needsQuotes t ∧ '"' ∈ t ∧ '\x60' ∈ t then some (.unquotable t) else none
  | .integer i =>
    if Numeral.maxDigits < (Text.ofNat i.natAbs).length then some (.numeral .tooLongToWrite)
    else none

/-- The word has no line break in it, as no integer has. -/
def Word.Unbroken : Word → Prop
  | .token t => t.Unbroken
  | .integer _ => True

instance : DecidablePred Word.Unbroken
  | .token t => inferInstanceAs (Decidable t.Unbroken)
  | .integer _ => inferInstanceAs (Decidable True)

theorem Word.writable_of_fault? {w : Word} (h : w.fault? = none) : w.Writable := by
  cases w with
  | token t =>
    have hsome : (Token.write? t).isSome = true := by
      unfold fault? at h
      unfold Token.write?
      by_cases hn : Token.needsQuotes t = true
      · by_cases h1 : '"' ∈ t
        · have h2 : '\x60' ∉ t := fun h2 => by simp [hn, h1, h2] at h
          simp [hn, h1, h2]
        · simp [hn, h1]
      · simp [hn]
    exact hsome
  | integer i =>
    have hle : (Text.ofNat i.natAbs).length ≤ Numeral.maxDigits := by
      refine Nat.le_of_not_lt fun hlt => ?_
      rw [fault?, if_pos hlt] at h
      exact absurd h (by simp)
    exact decide_eq_true hle

theorem Word.write_of_fault? {w : Word} {fault : Draft.Fault} (h : w.fault? = some fault) :
    w.write = .error fault := by
  cases w with
  | token t =>
    rw [fault?, Option.ite_none_right_eq_some] at h
    obtain ⟨⟨hn, h1, h2⟩, hfault⟩ := h
    have hnone : Token.write? t = none := by simp [Token.write?, hn, h1, h2]
    rw [Word.write, hnone, ← Option.some.inj hfault]
  | integer i =>
    rw [fault?, Option.ite_none_right_eq_some] at h
    obtain ⟨hlt, hfault⟩ := h
    have hfits : Numeral.fits i = false := decide_eq_false (Nat.not_le_of_lt hlt)
    rw [Word.write, Numeral.write, hfits, ← Option.some.inj hfault]
    rfl

/-- The fault of a line is that of its first word without a written form. -/
theorem Word.mapM_write_of_fault? {words : List Word} {fault : Draft.Fault}
    (h : words.findSome? Word.fault? = some fault) : words.mapM Word.write = .error fault := by
  induction words with
  | nil => exact absurd h (by simp)
  | cons w words ih =>
    rw [List.findSome?_cons] at h
    rw [List.mapM_cons]
    cases hw : w.fault? with
    | some f =>
      rw [hw] at h
      rw [Word.write_of_fault? hw, Option.some.inj h]
      rfl
    | none =>
      rw [hw] at h
      rw [Word.write_of_writable (Word.writable_of_fault? hw), ih h]
      rfl

namespace Draft

/-- One call in a session of writing. -/
inductive Call where
  | write (words : List Word)
  | openBlock
  | closeBlock
  deriving DecidableEq, Repr

/-- The words of a call that writes. -/
def Call.words : Call → List Word
  | .write words => words
  | .openBlock => []
  | .closeBlock => []

/-- What a call makes of a draft. -/
def Call.on : Call → Draft → Except Fault Draft
  | .write words, d => d.write words
  | .openBlock, d => .ok d.openBlock
  | .closeBlock, d => d.closeBlock

/-- The draft after a call, and the fault if the call failed. -/
def call (d : Draft) (c : Call) : Saving := Saving.attempt d c.on

/-- The draft after calls, of which some may have failed. -/
def run (d : Draft) (calls : List Call) : Draft := calls.foldl (fun d c => (d.call c).draft) d

/-- Why a call fails at a depth, if it does. -/
def Call.fault? (depth : Nat) : Call → Option Fault
  | .write words => words.findSome? Word.fault?
  | .openBlock => none
  | .closeBlock => if depth = 0 then some .notOpen else none

/-- The line that a call writes at a depth, unless the call fails. -/
def Call.row? (depth : Nat) : Call → Option (Nat × Line)
  | .write words =>
    if (words.findSome? Word.fault?).isSome then none
    else some (depth, .bare (words.map Word.text))
  | .openBlock => none
  | .closeBlock => none

/-- The depth behind a call that was made at a depth. -/
def Call.depthAfter (depth : Nat) : Call → Nat
  | .write _ => depth
  | .openBlock => depth + 1
  | .closeBlock => depth - 1

/-- The lines that calls write from a depth on, each with its own depth. -/
def Call.rows (depth : Nat) : List Call → List (Nat × Line)
  | [] => []
  | c :: calls => (c.row? depth).toList ++ rows (c.depthAfter depth) calls

/-- A call fails exactly for the reasons that there are, and then leaves the draft as it is;
otherwise it adds its line, if any, and goes to its depth. -/
theorem call_eq (d : Draft) (c : Call) :
    d.call c =
      match c.fault? d.depth with
      | some fault => ⟨d, some fault⟩
      | none => ⟨⟨d.lines ++ (c.row? d.depth).toList.map rowText, c.depthAfter d.depth⟩, none⟩ := by
  unfold call Saving.attempt
  cases c with
  | write words =>
    cases hfault : words.findSome? Word.fault? with
    | some fault =>
      have hwrite : (Call.write words).on d = .error fault := by
        rw [Call.on, Draft.write, Word.mapM_write_of_fault? hfault]
        rfl
      rw [hwrite, Call.fault?, hfault]
    | none =>
      have hwords : ∀ w ∈ words, w.Writable := fun w hw =>
        Word.writable_of_fault? (List.findSome?_eq_none_iff.1 hfault w hw)
      have hwrite : (Call.write words).on d
          = .ok (d.extend [(d.depth, .bare (words.map Word.text))]) :=
        Draft.write_of_writable d hwords
      rw [hwrite, Call.fault?, hfault, Call.row?, hfault]
      rfl
  | openBlock =>
    show _ = Saving.mk ⟨d.lines ++ [], d.depth + 1⟩ none
    rw [List.append_nil]
    rfl
  | closeBlock =>
    obtain ⟨lines, depth⟩ := d
    cases depth with
    | zero => rfl
    | succ n =>
      show _ = Saving.mk ⟨lines ++ [], n⟩ none
      rw [List.append_nil]
      rfl

theorem row?_of_fault? {depth : Nat} {c : Call} {fault : Fault} (h : c.fault? depth = some fault) :
    c.row? depth = none ∧ c.depthAfter depth = depth := by
  cases c with
  | write words =>
    have hwords : words.findSome? Word.fault? = some fault := h
    exact ⟨by rw [Call.row?, hwords]; rfl, rfl⟩
  | openBlock => exact absurd h (by simp [Call.fault?])
  | closeBlock =>
    rw [Call.fault?, Option.ite_none_right_eq_some] at h
    exact ⟨rfl, by rw [Call.depthAfter, h.1]⟩

/-- Failed or not, a call adds the line it writes and goes to its depth. -/
theorem draft_call (d : Draft) (c : Call) :
    (d.call c).draft
      = ⟨d.lines ++ (c.row? d.depth).toList.map rowText, c.depthAfter d.depth⟩ := by
  rw [call_eq]
  cases hfault : c.fault? d.depth with
  | some fault =>
    obtain ⟨hrow, hdepth⟩ := row?_of_fault? hfault
    rw [hrow, hdepth, Option.toList_none, List.map_nil, List.append_nil]
  | none => rfl

/-- A session adds the lines of its writes, and depends on a draft through its depth only. -/
theorem lines_run (d : Draft) (calls : List Call) :
    (d.run calls).lines = d.lines ++ (Call.rows d.depth calls).map rowText := by
  induction calls generalizing d with
  | nil => rw [Call.rows, List.map_nil, List.append_nil]; rfl
  | cons c calls ih =>
    have hstep : d.run (c :: calls) = (d.call c).draft.run calls := rfl
    rw [hstep, ih, draft_call, Call.rows, List.map_append, List.append_assoc]

/-- Every line of a session is that of one of its writes, all words of which can be written. -/
theorem mem_rows {depth : Nat} {calls : List Call} {e : Nat × Line}
    (h : e ∈ Call.rows depth calls) :
    ∃ c ∈ calls, (∀ w ∈ c.words, w.Writable) ∧ e.2 = .bare (c.words.map Word.text) := by
  induction calls generalizing depth with
  | nil => exact absurd h List.not_mem_nil
  | cons c calls ih =>
    rw [Call.rows, List.mem_append, Option.mem_toList] at h
    rcases h with hrow | hrest
    · cases c with
      | write words =>
        have hrow' : (Call.write words).row? depth = some e := hrow
        rw [Call.row?, Option.ite_none_left_eq_some] at hrow'
        obtain ⟨hnone, heq⟩ := hrow'
        rw [Option.not_isSome_iff_eq_none, List.findSome?_eq_none_iff] at hnone
        exact ⟨_, List.mem_cons_self, fun w hw => Word.writable_of_fault? (hnone w hw),
          by rw [← Option.some.inj heq, Call.words]⟩
      | openBlock => exact absurd hrow (by simp [Call.row?])
      | closeBlock => exact absurd hrow (by simp [Call.row?])
    · obtain ⟨c', hmem, hc'⟩ := ih hrest
      exact ⟨c', List.mem_cons_of_mem _ hmem, hc'⟩

end Draft

/-! ## Reading a session -/

/-- The tokens of a line that was written without line breaks can be written and read back. -/
theorem sound_rows {depth : Nat} {calls : List Draft.Call}
    (h : ∀ c ∈ calls, ∀ w ∈ c.words, w.Unbroken) :
    ∀ e ∈ Draft.Call.rows depth calls, Sound e := by
  intro e he t ht
  obtain ⟨c, hc, hwritable, hline⟩ := Draft.mem_rows he
  rw [hline] at ht
  obtain ⟨w, hw, rfl⟩ := List.mem_map.1 ht
  cases w with
  | token t => exact ⟨hwritable _ hw, h c hc _ hw⟩
  | integer i => exact Token.sound_of_bare (Text.needsQuotes_ofInt i)

/-- The content of a text that rows make up is the rows that are not empty, with their numbers
among all rows. -/
theorem content_rows {rows : List (Nat × Line)} (h : ∀ e ∈ rows, Sound e)
    (hmark : (Text.unlines (rows.map rowText)).head? ≠ some byteOrderMark) :
    content (Text.unlines (rows.map rowText))
      = ((rows.zipIdx 1).filter fun e => !e.1.2.tokens.isEmpty).map readBack := by
  have hlines : Text.lines (Text.unlines (rows.map rowText)) = rows.map rowText := by
    refine Text.lines_unlines fun l hl => ?_
    obtain ⟨e, he, rfl⟩ := List.mem_map.1 hl
    exact unbroken_rowText (h e he)
  unfold content
  rw [dropMark_of_head hmark, hlines, contentFrom_rowText 1 fun e he t ht => (h e he t ht).1]

/-- The depth of the row with the number of `l`. -/
def depthIn (rows : List (Nat × Line)) (l : Line) : Nat :=
  (rows.getD (l.number.toNat - 1) (0, l)).1

theorem depthIn_readBack {rows : List (Nat × Line)} {e : (Nat × Line) × Nat}
    (h : e ∈ rows.zipIdx 1) : depthIn rows (readBack e).2 = e.1.1 := by
  obtain ⟨row, k⟩ := e
  obtain ⟨-, hget⟩ := List.mk_mem_zipIdx_iff_le_and_getElem?_sub.1 h
  show (rows.getD (((k : Nat) : Int).toNat - 1) _).1 = row.1
  rw [Int.toNat_natCast, List.getD_eq_getElem?_getD, hget]
  rfl

/-- Where the widths of content lines are known, the nodes of a text stand below the nearest earlier
ones that are less wide. -/
theorem isChild_nearestOuter {w : Line → Nat} (source : Text) {t : Text}
    (hw : ∀ e ∈ content t, e.1 = w e.2) {earlier later : List Position} {p : Position}
    (h : (parse source t).walk = earlier ++ p :: later) :
    IsChild ((nearestOuter w earlier p).getD (.top (parse source t).root)) p := by
  have hlayered := layered_nodesOf hw
  rcases placed_walkAll w [.outermost] (nodesOf t) hlayered earlier p later h with
    ⟨htop, hle⟩ | ⟨before, q, between, rfl, hchild, hlt, hle⟩
  · rw [nearestOuter_eq_none w hle]
    have htop' : TopOf ([] ++ [.outermost]) (nodesOf t) p := htop
    exact htop'.isChild
  · rw [nearestOuter_of_split w hlt hle]
    exact hchild

/-- A call that fails, for one of the reasons that there are, changes nothing. The text of a session
is read as one node for each write that succeeded and was not empty, in order, with the tokens of
the write and with its number among all that succeeded; and each node stands directly below the
nearest earlier one that was written at a smaller depth, or at the top if there is none. -/
theorem session_read_back (source : Text) (calls : List Draft.Call)
    (hbreaks : ∀ c ∈ calls, ∀ w ∈ c.words, w.Unbroken)
    (hmark : (Draft.empty.run calls).text.head? ≠ some byteOrderMark) :
    let rows := Draft.Call.rows 0 calls
    let o := parse source (Draft.empty.run calls).text
    (∀ (d : Draft) (c : Draft.Call), (d.call c).fault = c.fault? d.depth ∧
      ((d.call c).fault ≠ none →
        (d.call c).draft.text = d.text ∧ (d.call c).draft.depth = d.depth)) ∧
    o.walk.map (fun p => (p.node.line.number, p.node.line.tokens))
      = ((rows.zipIdx 1).filter fun e => !e.1.2.tokens.isEmpty).map
          (fun e => ((e.2 : Int), e.1.2.tokens)) ∧
    ∀ earlier p later, o.walk = earlier ++ p :: later →
      IsChild ((nearestOuter (depthIn rows) earlier p).getD (.top o.root)) p := by
  intro rows o
  have htext : (Draft.empty.run calls).text = Text.unlines (rows.map rowText) := by
    rw [Draft.text, Draft.lines_run]
    rfl
  have hcontent : content (Draft.empty.run calls).text
      = ((rows.zipIdx 1).filter fun e => !e.1.2.tokens.isEmpty).map readBack := by
    rw [htext] at hmark ⊢
    exact content_rows (sound_rows hbreaks) hmark
  have hwidths : ∀ e ∈ content (Draft.empty.run calls).text, e.1 = depthIn rows e.2 := by
    intro e he
    rw [hcontent] at he
    obtain ⟨row, hrow, rfl⟩ := List.mem_map.1 he
    exact (depthIn_readBack (List.mem_filter.1 hrow).1).symm
  refine ⟨fun d c => ?_, ?_, fun earlier p later => isChild_nearestOuter source hwidths⟩
  · rw [Draft.call_eq]
    cases c.fault? d.depth with
    | some fault => exact ⟨rfl, fun _ => ⟨rfl, rfl⟩⟩
    | none => exact ⟨rfl, fun h => absurd rfl h⟩
  · have hlines : o.walk.map (·.node.line) = (content (Draft.empty.run calls).text).map (·.2) :=
      lines_walk_parse source _
    have hboth : o.walk.map (fun p => (p.node.line.number, p.node.line.tokens))
        = (o.walk.map (·.node.line)).map fun l => (l.number, l.tokens) := by
      rw [List.map_map]
      rfl
    rw [hboth, hlines, hcontent, List.map_map, List.map_map]
    rfl

/-- Two calls that fail at the beginning leave no trace, a level that no line was written at is
skipped, an empty line has a number but no node, and a line that is less deep than the first one has
nothing above it. -/
theorem session_read_back_skipped_level :
    let calls : List Draft.Call :=
      [.closeBlock, .write [.token ['b'], .token ['"', '`']], .openBlock, .openBlock,
        .write [.token ['a', ' ', 'b'], .integer (-3)], .write [], .openBlock,
        .write [.token ['#']], .closeBlock, .closeBlock, .write [.token ['d']], .openBlock,
        .write [.token []]]
    let o := parse [] (Draft.empty.run calls).text
    let c : Node := ⟨⟨3, ['"', '#', '"'], [['#']]⟩, []⟩
    let a : Node :=
      ⟨⟨1, ['"', 'a', ' ', 'b', '"', ' ', '-', '3'], [['a', ' ', 'b'], ['-', '3']]⟩, [c]⟩
    let e : Node := ⟨⟨5, ['"', '"'], [[]]⟩, []⟩
    let d : Node := ⟨⟨4, ['d'], [['d']]⟩, [e]⟩
    (∀ c ∈ calls, ∀ w ∈ c.words, w.Unbroken) ∧
      (Draft.empty.run calls).text.head? ≠ some byteOrderMark ∧
      (Draft.empty.run (calls.take 2)) = Draft.empty ∧
      o.walk = [⟨[.outermost], a⟩, ⟨[.outermost, a.line], c⟩, ⟨[.outermost], d⟩]
        ++ ⟨[.outermost, d.line], e⟩ :: [] ∧
      IsChild ⟨[.outermost], d⟩ ⟨[.outermost, d.line], e⟩ := by
  intro calls o c a e d
  have hbreaks : ∀ c ∈ calls, ∀ w ∈ c.words, w.Unbroken := by decide
  have hmark : (Draft.empty.run calls).text.head? ≠ some byteOrderMark := by decide
  have hwalk : o.walk = [⟨[.outermost], a⟩, ⟨[.outermost, a.line], c⟩, ⟨[.outermost], d⟩]
      ++ ⟨[.outermost, d.line], e⟩ :: [] := rfl
  obtain ⟨-, -, hchild⟩ := session_read_back [] calls hbreaks hmark
  exact ⟨hbreaks, hmark, rfl, hwalk, hchild _ _ _ hwalk⟩

end Proviso.Outline
