/-
  The written form of a token, by itself.

  Writing and reading are inverse to each other on lines of tokens: whatever has a written form is
  found again in a line of such forms, every token of a line has one, and the texts that have none
  are those that are a token of no line (`read_write_tokens`). A file that holds the written form
  of one token and nothing else is read as that token alone unless the token holds a line break,
  or begins with a byte order mark and is written without quotes (`read_alone_iff`): the reader of
  a file breaks lines and drops a mark before it looks for tokens.
-/
import Proviso.Proofs.Formatting
import Proviso.Proofs.Sessions

namespace Proviso.Outline

/-! ## Lines of tokens -/

/-- The written forms of some tokens, or the fault of the first one that has none. -/
def Token.writeAll (ts : List Text) : Except Draft.Fault (List Text) :=
  (ts.map Word.token).mapM Word.write

namespace Token

theorem write_eq_error_iff {t : Text} :
    (Word.token t).write = .error (.unquotable t) ↔ ¬ Writable t := by
  cases h : write? t with
  | none => simp [Word.write, Writable, h]
  | some w => simp [Word.write, Writable, h]

/-- The texts without a written form: they need quotes and hold both of them. -/
theorem not_writable_iff {t : Text} :
    ¬ Writable t ↔ needsQuotes t = true ∧ '"' ∈ t ∧ '\x60' ∈ t := by
  constructor
  · intro h
    refine Decidable.byContradiction fun hnot => h ?_
    exact Word.writable_of_fault? (w := .token t) (if_neg hnot)
  · intro h
    exact write_eq_error_iff.1 (Word.write_of_fault? (if_pos h))

theorem writeAll_eq_ok_iff {ts ws : List Text} :
    writeAll ts = .ok ws ↔ (∀ t ∈ ts, Writable t) ∧ ws = ts.map written := by
  have hwrite (h : ∀ t ∈ ts, Writable t) : writeAll ts = .ok (ts.map written) := by
    have hwords : ∀ w ∈ ts.map Word.token, w.Writable := by
      intro w hw
      obtain ⟨t, ht, rfl⟩ := List.mem_map.1 hw
      exact h t ht
    rw [writeAll, Word.mapM_write hwords, List.map_map]
    rfl
  constructor
  · intro h
    cases hfault : (ts.map Word.token).findSome? Word.fault? with
    | some fault =>
      rw [writeAll, Word.mapM_write_of_fault? hfault] at h
      exact absurd h (by simp)
    | none =>
      have hall : ∀ t ∈ ts, Writable t := fun t ht =>
        Word.writable_of_fault? (List.findSome?_eq_none_iff.1 hfault _ (List.mem_map_of_mem ht))
      rw [hwrite hall] at h
      exact ⟨hall, (Except.ok.inj h).symm⟩
  · rintro ⟨hall, rfl⟩
    exact hwrite hall

/-- Tokens that have written forms are found again in the line of these forms. The tokens of a line
have written forms, so the line of these forms has the same tokens. A text without a written form
is a token of no line, and every other text is a token of some line. -/
theorem read_write_tokens :
    (∀ ts ws, writeAll ts = .ok ws → read (Text.join [' '] ws) = ts) ∧
    (∀ line, ∃ ws, writeAll (read line) = .ok ws ∧ read (Text.join [' '] ws) = read line) ∧
    ∀ t, (Word.token t).write = .error (.unquotable t) ↔ ∀ line, t ∉ read line := by
  have hinverse : ∀ ts ws, writeAll ts = .ok ws → read (Text.join [' '] ws) = ts := by
    intro ts ws h
    obtain ⟨hall, rfl⟩ := writeAll_eq_ok_iff.1 h
    exact read_lineOf hall
  refine ⟨hinverse, fun line => ?_, fun t => ?_⟩
  · have hall : ∀ t ∈ read line, Writable t := fun t ht => writable_of_mem_read ht
    have hwrite := writeAll_eq_ok_iff.2 ⟨hall, rfl⟩
    exact ⟨_, hwrite, hinverse _ _ hwrite⟩
  · rw [write_eq_error_iff]
    constructor
    · intro h line hmem
      exact h (writable_of_mem_read hmem)
    · intro h hwritable
      have hread : read (lineOf [t]) = [t] := read_lineOf (by simpa using hwritable)
      exact h (lineOf [t]) (by simp [hread])

/-- An empty token, a comment, a keyword, a quote inside a token and a token of two words are all
found again; a token that needs quotes and holds both of them is found in no line. -/
theorem read_write_tokens_odd :
    let ts : List Text := [[], ['#', 'x'], ['o', 'r'], ['a', '"', '\x60'], ['\x60', 'x'],
      ['a', ' ', '"', 'b']]
    let ws : List Text := [['"', '"'], ['"', '#', 'x', '"'], ['o', 'r'], ['a', '"', '\x60'],
      ['"', '\x60', 'x', '"'], ['\x60', 'a', ' ', '"', 'b', '\x60']]
    writeAll ts = .ok ws ∧ read (Text.join [' '] ws) = ts ∧
      (Word.token ['"', '\x60']).write = .error (.unquotable ['"', '\x60']) ∧
      ∀ line, ['"', '\x60'] ∉ read line := by
  intro ts ws
  have hwrite : writeAll ts = .ok ws := rfl
  have hnone : (Word.token ['"', '\x60']).write = .error (.unquotable ['"', '\x60']) := rfl
  exact ⟨hwrite, read_write_tokens.1 _ _ hwrite, hnone, (read_write_tokens.2.2 _).1 hnone⟩

end Token

/-! ## A file with one token -/

/-- The text is read as one node that has nothing below it and `t` for its only token. -/
def ReadsAlone (source text t : Text) : Prop :=
  ∃ n, (parse source text).nodes = [n] ∧ n.children = [] ∧ n.line.tokens = [t]

/-- The token begins with a byte order mark and is written as it is. -/
def Token.bareMark (t : Text) : Bool := t.head? = some byteOrderMark && !needsQuotes t

theorem unlines_singleton_lineOf (t : Text) :
    Text.unlines ((Node.entriesAll 0 [⟨.bare [t], []⟩]).map rowText)
      = Token.written t ++ ['\n'] := by
  show Text.unlines [rowText (0, .bare [t])] = _
  simp [Text.unlines, rowText, Line.bare, Token.lineOf, Text.join]

/-- A token without a line break is read alone if no byte order mark is lost. -/
theorem readsAlone_of_unbroken {t : Text} (source : Text) (h : Token.Writable t) (ht : t.Unbroken)
    (hmark : Token.bareMark t = false) : ReadsAlone source (Token.written t ++ ['\n']) t := by
  have hsound : ∀ e ∈ Node.entriesAll 0 [⟨.bare [t], []⟩], Sound e ∧ e.2.tokens ≠ [] := by
    show ∀ e ∈ [(0, Line.bare [t])], Sound e ∧ e.2.tokens ≠ []
    rw [List.forall_mem_singleton]
    exact ⟨List.forall_mem_singleton.2 ⟨h, ht⟩, List.cons_ne_nil _ _⟩
  have hhead : (Text.unlines ((Node.entriesAll 0 [⟨.bare [t], []⟩]).map rowText)).head?
      ≠ some byteOrderMark := by
    show (Text.unlines (((0, Line.bare [t]) :: []).map rowText)).head? ≠ _
    rw [head?_unlines h rfl, Ne, head?_written h]
    unfold Token.bareMark at hmark
    simp [hmark]
  have hnodes := nodesOf_unlines hsound hhead
  rw [unlines_singleton_lineOf] at hnodes
  obtain ⟨⟨l, ns⟩, hread, hsame⟩ := List.map_eq_singleton_iff.1 hnodes
  obtain ⟨hline, hbelow⟩ := Node.mk.inj hsame
  rw [Node.mapAll_eq_map] at hbelow
  exact ⟨⟨l, ns⟩, hread, List.map_eq_nil_iff.1 hbelow, congrArg Line.tokens hline⟩

/-- The only token of a text is the token of one of its content lines. -/
theorem exists_content_of_readsAlone {source text t : Text} (h : ReadsAlone source text t) :
    ∃ e, content text = [e] ∧ e.2.tokens = [t] := by
  obtain ⟨⟨l, ns⟩, hnodes, hbelow, htokens⟩ := h
  have hns : ns = [] := hbelow
  have hlines := walkAll_nodesOf_lines text
  have hread : nodesOf text = [⟨l, ns⟩] := hnodes
  rw [hread, hns] at hlines
  obtain ⟨e, he, hline⟩ := List.map_eq_singleton_iff.1 hlines.symm
  exact ⟨e, he, by rw [hline]; exact htokens⟩

/-- A token that is read alone holds no line break, since no line does. -/
theorem unbroken_of_readsAlone {source text t : Text} (h : ReadsAlone source text t) :
    t.Unbroken := by
  obtain ⟨e, he, htokens⟩ := exists_content_of_readsAlone h
  have hsound := (sound_content (t := text) (e := e) (by simp [he])).1
  exact (hsound t (by simp [htokens])).2

/-- A token that is read alone holds no more marks than the text behind its first mark. -/
theorem count_le_of_readsAlone {source text t : Text} (h : ReadsAlone source text t) :
    t.count byteOrderMark ≤ (dropMark text).count byteOrderMark := by
  obtain ⟨e, he, htokens⟩ := exists_content_of_readsAlone h
  have hle := marksIn_content_le text
  rw [he, List.map_singleton, marksIn_cons, htokens] at hle
  simpa [marksIn] using hle

/-- The written form of a mark in front is dropped by the reader. -/
theorem not_readsAlone_of_bareMark {t : Text} (source : Text) (hmark : Token.bareMark t = true) :
    ¬ ReadsAlone source (Token.written t ++ ['\n']) t := by
  intro h
  unfold Token.bareMark at hmark
  rw [Bool.and_eq_true, decide_eq_true_iff, Bool.not_eq_true'] at hmark
  obtain ⟨s, rfl⟩ := List.head?_eq_some_iff.1 hmark.1
  have hle := count_le_of_readsAlone h
  have hdrop : dropMark (byteOrderMark :: s ++ ['\n']) = s ++ ['\n'] := by simp [dropMark]
  rw [Token.written_of_bare hmark.2, hdrop, List.count_cons_self, List.count_append] at hle
  have hnone : ['\n'].count byteOrderMark = 0 := by decide
  omega

/-- A token has no written form, or is read alone from a file that holds its written form, if and
only if it needs quotes and holds both of them, or it holds no line break and does not begin with a
byte order mark that is written as it is. -/
theorem read_alone_iff (source t : Text) :
    ((Word.token t).write = .error (.unquotable t) ∨
        ∃ w, (Word.token t).write = .ok w ∧ ReadsAlone source (w ++ ['\n']) t) ↔
      (Token.needsQuotes t = true ∧ '"' ∈ t ∧ '\x60' ∈ t) ∨
        (t.Unbroken ∧ Token.bareMark t = false) := by
  rw [← Token.not_writable_iff, Token.write_eq_error_iff]
  refine or_congr_right' fun hnot => ?_
  have hwritable : Token.Writable t := Decidable.not_not.1 hnot
  have hwrite : (Word.token t).write = .ok (Token.written t) := Word.write_of_writable hwritable
  constructor
  · rintro ⟨w, hw, hread⟩
    rw [hwrite, Except.ok.injEq] at hw
    subst hw
    refine ⟨unbroken_of_readsAlone hread, ?_⟩
    exact Bool.eq_false_iff.2 fun hmark => not_readsAlone_of_bareMark source hmark hread
  · rintro ⟨hunbroken, hmark⟩
    exact ⟨_, hwrite, readsAlone_of_unbroken source hwritable hunbroken hmark⟩

/-- A token of two lines is written between quotes and read as two nodes with a token each, and a
token that begins with a byte order mark is written as it is and read without the mark. -/
theorem not_read_alone_of_break_of_mark :
    let broken : Text := ['a', '\n', 'b']
    let marked : Text := [byteOrderMark, 'a']
    (Word.token broken).write = .ok ['"', 'a', '\n', 'b', '"'] ∧
      (parse [] ['"', 'a', '\n', 'b', '"', '\n']).nodes.map (·.line.tokens)
        = [[['a']], [['b', '"']]] ∧
      ¬ ReadsAlone [] ['"', 'a', '\n', 'b', '"', '\n'] broken ∧
      (Word.token marked).write = .ok marked ∧
      (parse [] (marked ++ ['\n'])).nodes.map (·.line.tokens) = [[['a']]] ∧
      ¬ ReadsAlone [] (marked ++ ['\n']) marked := by
  intro broken marked
  have hbroken : (parse [] ['"', 'a', '\n', 'b', '"', '\n']).nodes.map (·.line.tokens)
      = [[['a']], [['b', '"']]] := by decide
  have hmarked : (parse [] (marked ++ ['\n'])).nodes.map (·.line.tokens) = [[['a']]] := by decide
  refine ⟨rfl, hbroken, ?_, rfl, hmarked, ?_⟩
  · rintro ⟨n, hnodes, -⟩
    rw [hnodes] at hbroken
    exact absurd hbroken (by simp)
  · rintro ⟨n, hnodes, -, htokens⟩
    rw [hnodes, List.map_singleton, htokens] at hmarked
    exact absurd hmarked (by decide)

end Proviso.Outline
