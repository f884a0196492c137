/-
  What a check says, and how it ends.

  Whatever stands in a file, no line of it and no message about it holds a line break: text is
  escaped where it is quoted (`unbroken_quoted`) and is part of one line where it is not
  (`unbroken_text`). So a check prints the very lines that its report is made of (`outcome_check`),
  and the beginning of a line tells what it is about (`filter_diagnosticLine`,
  `filter_mixingLine`). A check fails if a line was not recognized, or if rules that mix comparisons
  and assignments count as errors and there is one (`fails_iff`). The whole run is `run_check`.
-/
import Proviso.Proofs.Files
import Proviso.Proofs.Printing

namespace Proviso

open Outline (Complaint Diagnostic Line Node Position Report)

variable {v : Settings.Validation}

/-! ## Texts without line breaks -/

namespace Text

theorem unbroken_singleton {c : Char} : Unbroken [c] ↔ isLineBreak c = false :=
  List.forall_mem_singleton

theorem Unbroken.append {s t : Text} (hs : Unbroken s) (ht : Unbroken t) : Unbroken (s ++ t) :=
  unbroken_append.2 ⟨hs, ht⟩

/-- No line break is shown as it is. -/
theorem isPrintable_of_isLineBreak {c : Char} (h : isLineBreak c = true) :
    isPrintable c = false := by
  have hhidden : (!isPrintable c) = true :=
    of_isLineBreak (p := fun c => !isPrintable c) h (by decide +kernel)
  rwa [Bool.not_eq_true'] at hhidden

theorem isLineBreak_hexDigit : ∀ n < 16, isLineBreak (hexDigit n) = false := by decide

theorem unbroken_ofHex (width n : Nat) : Unbroken (ofHex width n) := by
  induction width generalizing n with
  | zero => exact unbroken_nil
  | succ width ih =>
    rw [ofHex, unbroken_append, unbroken_singleton]
    exact ⟨ih (n / 16), isLineBreak_hexDigit _ (Nat.mod_lt n (by decide))⟩

theorem unbroken_escape {quote : Char} (hquote : isLineBreak quote = false) (c : Char) :
    Unbroken (escape quote c) := by
  unfold escape
  split
  · next h =>
    rcases h with rfl | rfl
    · exact unbroken_cons.2 ⟨by decide, unbroken_singleton.2 hquote⟩
    · decide
  iterate 3
    split
    · decide
  split
  · next h =>
    rw [unbroken_singleton, Bool.eq_false_iff]
    intro hbreak
    rw [isPrintable_of_isLineBreak hbreak] at h
    exact absurd h (by decide)
  iterate 2
    split
    · exact unbroken_append.2 ⟨by decide, unbroken_ofHex _ _⟩
  · exact unbroken_append.2 ⟨by decide, unbroken_ofHex _ _⟩

theorem isLineBreak_quoteFor (t : Text) : isLineBreak (quoteFor t) = false := by
  unfold quoteFor
  split <;> decide

theorem unbroken_quoted (t : Text) : Unbroken t.quoted := by
  have hquote := isLineBreak_quoteFor t
  unfold quoted
  rw [unbroken_append, unbroken_cons, unbroken_singleton]
  refine ⟨⟨hquote, fun c hc => ?_⟩, hquote⟩
  obtain ⟨d, -, hd⟩ := List.mem_flatMap.1 hc
  exact unbroken_escape hquote d c hd

theorem unbroken_ofInt (i : Int) : Unbroken (ofInt i) :=
  Outline.Token.unbroken_of_bare (needsQuotes_ofInt i)

theorem unbroken_ofNat (n : Nat) : Unbroken (ofNat n) := unbroken_ofInt n

end Text

namespace Outline

theorem Line.unbroken_message {l : Line} {c : Complaint} (h : c ∈ l.complaints) :
    c.message.Unbroken := by
  have hunrecognized : Complaint.unrecognized.message.Unbroken := by decide
  unfold Line.complaints at h
  split at h
  · exact absurd h List.not_mem_nil
  split at h
  · split at h
    · rw [List.mem_singleton.1 h]
      exact hunrecognized
    · rw [List.mem_pair] at h
      rcases h with rfl | rfl
      · exact Text.unbroken_append.2 ⟨by decide, Text.unbroken_quoted _⟩
      · exact hunrecognized
  · rw [List.mem_singleton.1 h]
    exact hunrecognized

/-- The text of a line in an outline is part of one line. -/
theorem unbroken_text {source t : Text} {p : Position} (h : p ∈ (parse source t).walk) :
    p.node.line.text.Unbroken := by
  have hmem : p.node.line ∈ (walk (parse source t)).map (·.node.line) := List.mem_map_of_mem h
  have hlines : (walk (parse source t)).map (·.node.line) = (content t).map (·.2) :=
    lines_walk_parse source t
  rw [hlines, content, contentFrom_eq, List.map_map] at hmem
  obtain ⟨⟨raw, k⟩, hentry, hline⟩ := List.mem_map.1 hmem
  have hraw : raw.Unbroken :=
    Text.not_break_of_mem_lines (List.fst_mem_of_mem_zipIdx (List.mem_of_mem_filter hentry))
  rw [← hline]
  refine hraw.sublist ?_
  show List.Sublist (Text.trim Text.isBlank raw) raw
  unfold Text.trim Text.dropEnd Text.dropStart
  have hend := (List.dropWhile_sublist (l := (raw.dropWhile Text.isBlank).reverse)
    Text.isBlank).reverse
  rw [List.reverse_reverse] at hend
  exact hend.trans (List.dropWhile_sublist _)

/-- Every top node is met on the walk. -/
theorem mem_walk_of_mem_nodes {o : Outline} {n : Node} (h : n ∈ o.nodes) :
    ⟨[.outermost], n⟩ ∈ o.walk := by
  obtain ⟨source, ns⟩ := o
  unfold walk
  induction ns with
  | nil => exact absurd h List.not_mem_nil
  | cons m ns ih =>
    rw [Node.walkAll, List.mem_append]
    rcases List.mem_cons.1 h with rfl | h
    · obtain ⟨l, below⟩ := n
      exact .inl List.mem_cons_self
    · exact .inr (ih h)

end Outline

/-! ## Rules that mix comparisons and assignments -/

namespace Rule

/-- Somewhere in the rule there is a comparison, and somewhere there is a clause that is none. -/
def Mixes (r : Rule) : Prop :=
  (∃ c ∈ r.allClauses, c.operator.isComparison = true) ∧
    ∃ c ∈ r.allClauses, c.operator.isComparison = false

theorem isMixed_iff (r : Rule) : r.isMixed = true ↔ r.Mixes := by
  unfold isMixed Mixes
  rw [Bool.and_eq_true, List.any_eq_true, List.any_eq_true]
  simp only [Bool.not_eq_true']

instance : DecidablePred Mixes := fun r => decidable_of_iff _ r.isMixed_iff

end Rule

namespace Command.Check

/-- The line about a diagnostic. -/
def diagnosticLine (d : Diagnostic) : Text :=
  "  [E] L".toList ++ Text.ofInt d.line ++ ": ".toList ++ d.message ++ [' '] ++ d.text

/-- The line about a rule that mixes comparisons and assignments, below its header. -/
def mixingLine (set : Node × Rule) : Text :=
  "  [W] L".toList ++ Text.ofInt set.1.line.number ++ ": ".toList ++ set.1.line.text
    ++ ": mixes comparison and assignment operators".toList

/-- The headers of rules that mix comparisons and assignments, with these rules. -/
def mixing (ns : List Node) (rs : List Rule) : List (Node × Rule) :=
  (ns.zip rs).filter fun set => set.2.Mixes

theorem map_warnings (ns : List Node) (rs : List Rule) :
    (warnings ns rs).map warningLine = (mixing ns rs).map mixingLine := by
  induction ns generalizing rs with
  | nil => rfl
  | cons n ns ih =>
    cases rs with
    | nil => rfl
    | cons r rs =>
      have hrest : (warnings ns rs).map warningLine
          = ((ns.zip rs).filter fun set => set.2.Mixes).map mixingLine := ih rs
      unfold mixing
      rw [warnings, List.zip_cons_cons, List.filter_cons]
      dsimp only
      by_cases hr : r.isMixed = true
      · rw [if_pos hr, if_pos (decide_eq_true (r.isMixed_iff.1 hr)), List.map_cons, List.map_cons,
          hrest]
        rfl
      · rw [if_neg hr, if_neg (by simpa [r.isMixed_iff] using hr), hrest]

theorem length_warnings (ns : List Node) (rs : List Rule) :
    (warnings ns rs).length = (mixing ns rs).length := by
  have hlength := congrArg List.length (map_warnings ns rs)
  rwa [List.length_map, List.length_map] at hlength

/-- There is a warning exactly if there is a rule that mixes comparisons and assignments. -/
theorem mixing_pos_iff {ns : List Node} {rs : List Rule} (h : rs = ns.map Node.rule) :
    0 < (mixing ns rs).length ↔ ∃ r ∈ rs, r.Mixes := by
  rw [List.length_pos_iff_exists_mem]
  constructor
  · rintro ⟨⟨n, r⟩, hset⟩
    obtain ⟨hmem, hmixes⟩ := List.mem_filter.1 hset
    exact ⟨r, (List.of_mem_zip hmem).2, of_decide_eq_true hmixes⟩
  · rintro ⟨r, hr, hmixes⟩
    rw [h] at hr ⊢
    obtain ⟨n, hn, rfl⟩ := List.mem_map.1 hr
    refine ⟨(n, n.rule), List.mem_filter.2 ⟨?_, decide_eq_true hmixes⟩⟩
    rw [← List.map_prod_left_eq_zip]
    exact List.mem_map_of_mem hn

/-! ## The verdict -/

/-- A line that is looked at has been reported as not recognized, or there is a rule that mixes
comparisons and assignments and such rules count as errors. -/
def Failed (strict : Bool) (o : Outline) (c : Collection) : Prop :=
  (∃ p ∈ o.visited, Report.about p .unrecognized ∈ c.reports) ∨
    strict = true ∧ ∃ r ∈ c.rules, r.Mixes

section Verdict

variable {o : Outline} (h : (Collection.ofOutline o).fault = none)
include h

/-- Every line about which there is a report is reported as not recognized. -/
theorem reports_pos_iff : 0 < (Collection.ofOutline o).reports.length ↔
    ∃ p ∈ o.visited, Report.about p .unrecognized ∈ (Collection.ofOutline o).reports := by
  rw [List.length_pos_iff_exists_mem]
  refine ⟨?_, fun ⟨p, _, hp⟩ => ⟨_, hp⟩⟩
  rw [(Collection.ofOutline_eq h).2.2]
  rintro ⟨r, hr⟩
  obtain ⟨p, hp, hreport⟩ := List.mem_flatMap.1 hr
  obtain ⟨c, hc, -⟩ := List.mem_map.1 hreport
  have husable : p.node.line.isUsable = false := by
    rw [Bool.eq_false_iff]
    intro husable
    rw [Line.complaints, if_pos husable] at hc
    exact absurd hc List.not_mem_nil
  have hunrecognized : Complaint.unrecognized ∈ p.node.line.complaints := by
    have hmem : Complaint.unrecognized ∈ p.node.line.complaints.filter (· = .unrecognized) := by
      rw [Line.unrecognized_complaints, husable]
      exact List.mem_singleton_self _
    exact List.mem_of_mem_filter hmem
  exact ⟨p, hp, List.mem_flatMap.2 ⟨p, hp, List.mem_map_of_mem hunrecognized⟩⟩

theorem fails_iff (strict : Bool) :
    fails strict (Collection.ofOutline o).reports.length
        (warnings o.nodes (Collection.ofOutline o).rules).length = true
      ↔ Failed strict o (Collection.ofOutline o) := by
  unfold fails Failed
  rw [Bool.or_eq_true, Bool.and_eq_true, decide_eq_true_eq, decide_eq_true_eq, reports_pos_iff h,
    length_warnings, mixing_pos_iff (Collection.ofOutline_eq h).2.1]

end Verdict

/-! ## The report -/

/-- The first line of a report. -/
def parsedLine (sets : Nat) : Text :=
  "Parsed: ".toList ++ Text.ofNat sets ++ " condition set(s)".toList

/-- The line with the numbers of errors and warnings. -/
def countLine (errors warnings : Nat) : Text :=
  "Check: ".toList ++ Text.ofNat errors ++ " error(s), ".toList ++ Text.ofNat warnings
    ++ " warning(s)".toList

/-- The end of a report: one more line if the check fails. -/
def lastLines (fails : Bool) : List Text :=
  if fails then ["FAIL: Fix errors before using this file.".toList] else []

/-- The lines of a report about diagnostics and about rules under their headers. -/
def report (sets : Nat) (ds : List Diagnostic) (ms : List (Node × Rule)) (fails : Bool) :
    List Text :=
  [parsedLine sets] ++ ds.map diagnosticLine ++ ms.map mixingLine
    ++ [[], countLine ds.length ms.length] ++ lastLines fails

theorem lines_eq (strict : Bool) (source : Text) (sets : Nat) (reports : List Report)
    (ns : List Node) (rs : List Rule) :
    lines strict sets reports (warnings ns rs)
      = report sets (reports.map (Report.diagnostic source)) (mixing ns rs)
          (fails strict reports.length (warnings ns rs).length) := by
  have hdiagnostics : reports.map errorLine
      = (reports.map (Report.diagnostic source)).map diagnosticLine := by
    rw [List.map_map]
    rfl
  unfold lines report
  rw [hdiagnostics, map_warnings, length_warnings, List.length_map]
  rfl

section Report

variable {sets : Nat} {ds : List Diagnostic} {ms : List (Node × Rule)} {fails : Bool}

theorem unbroken_report (hds : ∀ d ∈ ds, d.message.Unbroken ∧ d.text.Unbroken)
    (hms : ∀ m ∈ ms, m.1.line.text.Unbroken) : ∀ l ∈ report sets ds ms fails, l.Unbroken := by
  have hcolon : Text.Unbroken ": ".toList := by decide
  have hspace : Text.Unbroken [' '] := by decide
  intro l hl
  simp only [report, List.mem_append, List.mem_cons, List.mem_map, List.not_mem_nil,
    or_false] at hl
  rcases hl with (((rfl | ⟨d, hd, rfl⟩) | ⟨m, hm, rfl⟩) | rfl | rfl) | hl
  · have hend : Text.Unbroken " condition set(s)".toList := by decide
    unfold parsedLine
    exact (Text.Unbroken.append (by decide) (Text.unbroken_ofNat sets)).append hend
  · obtain ⟨hmessage, htext⟩ := hds d hd
    have hstart : Text.Unbroken "  [E] L".toList := by decide
    have hplace := (hstart.append (Text.unbroken_ofInt d.line)).append hcolon
    exact ((hplace.append hmessage).append hspace).append htext
  · have hstart : Text.Unbroken "  [W] L".toList := by decide
    have hplace := (hstart.append (Text.unbroken_ofInt m.1.line.number)).append hcolon
    exact (hplace.append (hms m hm)).append (by decide)
  · exact Text.unbroken_nil
  · have hstart : Text.Unbroken "Check: ".toList := by decide
    have hmiddle : Text.Unbroken " error(s), ".toList := by decide
    have herrors := (hstart.append (Text.unbroken_ofNat ds.length)).append hmiddle
    exact (herrors.append (Text.unbroken_ofNat ms.length)).append (by decide)
  · revert l
    cases fails <;> decide

/-- No line but those about diagnostics and rules begins with a space. -/
theorem filter_report {mark : Text} (hmark : mark.head? = some ' ') :
    (report sets ds ms fails).filter (Text.beginsWith mark)
      = (ds.map diagnosticLine).filter (Text.beginsWith mark)
        ++ (ms.map mixingLine).filter (Text.beginsWith mark) := by
  obtain ⟨rest, rfl⟩ := List.head?_eq_some_iff.1 hmark
  have hlast : (lastLines fails).filter (Text.beginsWith (' ' :: rest)) = [] := by
    cases fails <;> rfl
  unfold report
  rw [List.filter_append, List.filter_append, List.filter_append, List.filter_append, hlast,
    List.append_nil]
  exact List.append_nil _

theorem filter_diagnosticLine :
    (report sets ds ms fails).filter (Text.beginsWith "  [E] L".toList)
      = ds.map diagnosticLine := by
  have hds : (ds.map diagnosticLine).filter (Text.beginsWith "  [E] L".toList)
      = ds.map diagnosticLine := by
    rw [List.filter_eq_self]
    intro l hl
    obtain ⟨d, -, rfl⟩ := List.mem_map.1 hl
    rfl
  have hms : (ms.map mixingLine).filter (Text.beginsWith "  [E] L".toList) = [] := by
    rw [List.filter_eq_nil_iff]
    intro l hl
    obtain ⟨m, -, rfl⟩ := List.mem_map.1 hl
    exact Bool.false_ne_true
  rw [filter_report rfl, hds, hms, List.append_nil]

theorem filter_mixingLine :
    (report sets ds ms fails).filter (Text.beginsWith "  [W] L".toList) = ms.map mixingLine := by
  have hds : (ds.map diagnosticLine).filter (Text.beginsWith "  [W] L".toList) = [] := by
    rw [List.filter_eq_nil_iff]
    intro l hl
    obtain ⟨d, -, rfl⟩ := List.mem_map.1 hl
    exact Bool.false_ne_true
  have hms : (ms.map mixingLine).filter (Text.beginsWith "  [W] L".toList)
      = ms.map mixingLine := by
    rw [List.filter_eq_self]
    intro l hl
    obtain ⟨m, -, rfl⟩ := List.mem_map.1 hl
    rfl
  rw [filter_report rfl, hds, hms, List.nil_append]

end Report

/-- No line of the report about an outline holds a line break. -/
theorem unbroken_report_of_parse {source t : Text}
    (h : (Collection.ofOutline (.parse source t)).fault = none) (rs : List Rule) (sets : Nat)
    (fails : Bool) :
    let o := Outline.parse source t
    ∀ l ∈ report sets ((Collection.ofOutline o).reports.map (Report.diagnostic source))
      (mixing o.nodes rs) fails, l.Unbroken := by
  intro o
  refine unbroken_report (fun d hd => ?_) (fun m hm => ?_)
  · obtain ⟨r, hr, rfl⟩ := List.mem_map.1 hd
    rw [(Collection.ofOutline_eq h).2.2] at hr
    obtain ⟨p, hp, hreport⟩ := List.mem_flatMap.1 hr
    obtain ⟨c, hc, rfl⟩ := List.mem_map.1 hreport
    exact ⟨Line.unbroken_message hc, Outline.unbroken_text (o.visited_sublist_walk.subset hp)⟩
  · obtain ⟨n, r⟩ := m
    have hn : n ∈ o.nodes := (List.of_mem_zip (List.mem_of_mem_filter hm)).1
    exact Outline.unbroken_text (Outline.mem_walk_of_mem_nodes hn)

end Command.Check

namespace Command

open Check (Failed)

/-- A check of a file whose rules can be loaded prints its report and ends as the report says. -/
theorem Prints.check {w : World v} {s : Settings} {file : Text} {o : Outline}
    (hread : Outline.File.read w.disk file = .ok o)
    (hload : (Collection.ofOutline o).fault = none) :
    let c := Collection.ofOutline o
    let ws := Check.warnings o.nodes c.rules
    Prints (Run.check w s file)
      (Text.unlines (Check.lines s.strict c.rules.length c.reports ws))
      (if Check.fails s.strict c.reports.length ws.length then .error (.exit 1) else .ok ()) := by
  intro c ws
  have hfollow : Prints (Run.follow s.level o.source c.events c.fault) [] (.ok ()) := by
    rw [hload]
    exact (Quiet.judgement.follow _ _ _ none).prints
  unfold Run.check
  refine (readOutline hread).after (hfollow.after ?_)
  rw [← List.append_nil (Text.unlines _)]
  refine (print _).andThen ?_
  cases Check.fails s.strict c.reports.length ws.length with
  | true => exact exit 1
  | false => exact pure ()

/-- The exit code of a check and the lines that it prints. -/
theorem outcome_check {w : World v} {words : List Text} {i : Invocation} {file : Text}
    {s : Settings} {o : Outline} (hparse : parse words = .ok (some i))
    (haction : i.action = .check file) (hsettings : i.Settles w s)
    (hread : Outline.File.read w.disk file = .ok o)
    (hload : (Collection.ofOutline o).fault = none) :
    let c := Collection.ofOutline o
    let fails := Check.fails s.strict c.reports.length (Check.warnings o.nodes c.rules).length
    (run w words).ending = .ok (if fails then 1 else 0) ∧
      (run w words).output.out.lines
        = Check.report c.rules.length (c.reports.map (Report.diagnostic o.source))
            (Check.mixing o.nodes c.rules) fails := by
  intro c fails
  have hperform : Prints (Run.perform { w with shared := (s.configure w.shared).1 } s i.action)
      (Text.unlines (Check.lines s.strict c.rules.length c.reports
        (Check.warnings o.nodes c.rules)))
      (if fails then .error (.exit 1) else .ok ()) := by
    rw [haction]
    exact Prints.check hread hload
  obtain ⟨hout, hending⟩ := run_of_prints (Prints.main hparse hsettings hperform)
  have hopened : opened w.disk file = .ok o := congrArg (Except.mapError _) hread
  obtain ⟨source, t, rfl⟩ := exists_parse_of_opened hopened
  constructor
  · rw [hending]
    cases fails <;> rfl
  · rw [hout, Check.lines_eq _ source]
    exact Text.lines_unlines (Check.unbroken_report_of_parse hload c.rules c.rules.length fails)

/-- A check of a file whose rules can be loaded ends with the exit code 1 if a line that is looked
at has been reported as not recognized, or if a rule mixes comparisons and assignments and that
counts as an error, and with the exit code 0 otherwise. What it prints has one line for each
diagnostic and one for each rule that mixes, each told by its beginning, and no other lines but the
first, an empty one, the one with the numbers of both and, if the check fails, the last. -/
theorem run_check (w : World v) {words : List Text} {i : Invocation} {file : Text} {s : Settings}
    {o : Outline} (hparse : parse words = .ok (some i)) (haction : i.action = .check file)
    (hsettings : i.Settles w s) (hread : Outline.File.read w.disk file = .ok o)
    (hload : (Collection.ofOutline o).fault = none) :
    let c := Collection.ofOutline o
    let diagnostics := c.reports.map (Report.diagnostic o.source)
    let mixing := Check.mixing o.nodes c.rules
    let printed := (run w words).output.out.lines
    ((run w words).ending = .ok 1 ↔ Failed s.strict o c) ∧
    ((run w words).ending = .ok 0 ↔ ¬ Failed s.strict o c) ∧
    (∃ fails, (fails = true ↔ Failed s.strict o c) ∧
      printed = [Check.parsedLine c.rules.length] ++ diagnostics.map Check.diagnosticLine
        ++ mixing.map Check.mixingLine
        ++ [[], Check.countLine diagnostics.length mixing.length] ++ Check.lastLines fails) ∧
    printed.filter (Text.beginsWith "  [E] L".toList) = diagnostics.map Check.diagnosticLine ∧
    printed.filter (Text.beginsWith "  [W] L".toList) = mixing.map Check.mixingLine := by
  intro c diagnostics mixing printed
  have hfails := Check.fails_iff hload s.strict
  obtain ⟨hending, hprinted⟩ := outcome_check hparse haction hsettings hread hload
  refine ⟨?_, ?_, ⟨_, hfails, hprinted⟩, ?_, ?_⟩
  · rw [hending, ← hfails]
    cases Check.fails s.strict c.reports.length _ <;> simp
  · rw [hending, ← hfails]
    cases Check.fails s.strict c.reports.length _ <;> simp
  · rw [← Check.filter_diagnosticLine]
    exact congrArg _ hprinted
  · rw [← Check.filter_mixingLine]
    exact congrArg _ hprinted

/-- A header that looks like a warning, a line that ends in another break, a token that is shown
escaped, and a line of a group that a separator cuts short. -/
theorem run_check_odd_characters :
    let t : Text :=
      "c \"  [W] L1\"\r\n\tx ++\n\ty ! \u00AD\u2028\tz < 3\n\tand\n\t\tq\u001Dnever\n".toList
    let home : List Text := ["home".toList]
    let file : Text := "a.txt".toList
    let w : World .lenient :=
      ⟨Disk.ofEntries home [(home ++ [file], .file (Utf8.encode t))], .none, .ofSeed 0⟩
    let words : List Text := ["check".toList, file]
    let i : Invocation := ⟨.no, .no, .check file⟩
    let o := Outline.parse file t
    let printed := (run w words).output.out.lines
    (parse words = .ok (some i) ∧ i.Settles w .default ∧
      Outline.File.read w.disk file = .ok o ∧ (Collection.ofOutline o).fault = none) ∧
    (run w words).ending = .ok 1 ∧
    (printed.filter (Text.beginsWith "  [E] L".toList)).length = 3 ∧
    printed.filter (Text.beginsWith "  [W] L".toList)
      = ["  [W] L1: c \"  [W] L1\": mixes comparison and assignment operators".toList] := by
  intro t home file w words i o printed
  have hparse : parse words = .ok (some i) := by rfl
  have hsettings : i.Settles w .default := ⟨by decide, by rfl⟩
  have hfile : w.disk.read (Disk.normalize file) = .ok (Utf8.encode t) := by rfl
  have hread : Outline.File.read w.disk file = .ok o := Outline.File.read_of_encode hfile
  have hload : (Collection.ofOutline o).fault = none := by decide +kernel
  obtain ⟨hending, -, -, herrors, hwarnings⟩ := run_check w hparse rfl hsettings hread hload
  have hreports : 0 < (Collection.ofOutline o).reports.length := by decide +kernel
  refine ⟨⟨hparse, hsettings, hread, hload⟩, ?_, ?_, ?_⟩
  · exact hending.2 (.inl ((Check.reports_pos_iff hload).1 hreports))
  · rw [herrors]
    decide +kernel
  · rw [hwarnings]
    decide +kernel

end Command

end Proviso
