/-
  The grammar of rules.

  `Phrase` lists the lines that a rule can hold, `Says` is what lines say one after another, and
  `Pruned` is what is left of lines when nothing is kept but what says something. Loading that is
  not interrupted accepts the phrases and nothing else: it makes of the lines what they say, and of
  the pruned lines the same without a report (`load_by_grammar`).
-/
import Proviso.Proofs.Literals
import Proviso.Proofs.Saving

namespace Proviso

open Outline (Line Node Position)
open Numeral (Literal)

/-! ## Lines -/

namespace Entry

/-- The keywords that stand before a name, each with the operator and the operand it stands for. -/
def keywords : List (Text × Operator × Int) :=
  [(['n', 'o', 't'], .compare .equal, 0), (['h', 'a', 's'], .compare .unequal, 0),
    (['s', 'e', 't'], .assign .replace, 1), (['c', 'l', 'e', 'a', 'r'], .assign .replace, 0)]

/-- The suffixes that stand behind a name, each with the operator and the operand it stands for. -/
def suffixes : List (Text × Operator × Int) :=
  [(['+', '+'], .assign .add, 1), (['-', '-'], .assign .subtract, 1)]

end Entry

/-- The lines that a rule can hold, and what each of them is to it. -/
inductive Phrase : List Text → Entry → Prop where
  | never : Phrase [['n', 'e', 'v', 'e', 'r']] (.clause .never)
  | group (m : Mode) : Phrase [m.word] (.group m)
  | keyword {word name : Text} {op : Operator} {operand : Int}
      (h : (word, op, operand) ∈ Entry.keywords) :
      Phrase [word, name] (.clause ⟨name, op, operand⟩)
  | suffix {name word : Text} {op : Operator} {operand : Int}
      (hname : ∀ said, (name, said) ∉ Entry.keywords) (h : (word, op, operand) ∈ Entry.suffixes) :
      Phrase [name, word] (.clause ⟨name, op, operand⟩)
  | operation {name numeral : Text} (op : Operator) {literal : Literal} {operand : Int}
      (hliteral : literal.Spelled numeral) (hfinite : literal.number.trunc? = some operand) :
      Phrase [name, op.spelling, numeral] (.clause ⟨name, op, operand⟩)

theorem Entry.keyword?_eq_some_iff {t : Text} {said : Operator × Int} :
    keyword? t = some said ↔ (t, said) ∈ keywords := by
  constructor
  · intro h
    unfold keyword? at h
    iterate 4
      split at h
      · rename_i heq
        rw [heq, ← Option.some.inj h]
        decide
    exact absurd h (by simp)
  · intro h
    simp only [keywords, List.mem_cons, List.not_mem_nil, or_false, Prod.mk.injEq] at h
    rcases h with ⟨rfl, rfl⟩ | ⟨rfl, rfl⟩ | ⟨rfl, rfl⟩ | ⟨rfl, rfl⟩ <;> rfl

theorem Entry.suffix?_eq_some_iff {t : Text} {said : Operator × Int} :
    suffix? t = some said ↔ (t, said) ∈ suffixes := by
  constructor
  · intro h
    unfold suffix? at h
    iterate 2
      split at h
      · rename_i heq
        rw [heq, ← Option.some.inj h]
        decide
    exact absurd h (by simp)
  · intro h
    simp only [suffixes, List.mem_cons, List.not_mem_nil, or_false, Prod.mk.injEq] at h
    rcases h with ⟨rfl, rfl⟩ | ⟨rfl, rfl⟩ <;> rfl

theorem Operator.ofSpelling?_eq_some_iff {t : Text} {op : Operator} :
    ofSpelling? t = some op ↔ t = op.spelling := by
  constructor
  · intro h
    have hspelling := List.find?_some h
    exact (beq_iff_eq.1 hspelling).symm
  · rintro rfl
    exact ofSpelling?_spelling op

theorem Mode.ofWord?_eq_some_iff {t : Text} {m : Mode} : ofWord? t = some m ↔ t = m.word := by
  constructor
  · intro h
    unfold ofWord? at h
    split at h
    · rename_i heq
      rw [← Option.some.inj h, heq]
    · split at h
      · rename_i heq
        rw [← Option.some.inj h, heq]
      · exact absurd h (by simp)
  · rintro rfl
    exact ofWord?_word m

theorem Entry.ofTwo?_eq_some_iff {first second : Text} {c : Clause} :
    ofTwo? first second = some c ↔ Phrase [first, second] (.clause c) := by
  constructor
  · intro h
    unfold ofTwo? at h
    split at h
    · rename_i op operand hkeyword
      rw [← Option.some.inj h]
      exact .keyword (keyword?_eq_some_iff.1 hkeyword)
    · rename_i hkeyword
      obtain ⟨⟨op, operand⟩, hsuffix, rfl⟩ := Option.map_eq_some_iff.1 h
      refine .suffix (fun said hsaid => ?_) (suffix?_eq_some_iff.1 hsuffix)
      rw [keyword?_eq_some_iff.2 hsaid] at hkeyword
      exact absurd hkeyword (by simp)
  · intro h
    unfold ofTwo?
    cases h with
    | keyword h => rw [keyword?_eq_some_iff.2 h]
    | suffix hname h =>
      have hnone : keyword? first = none := by
        refine Option.eq_none_iff_forall_not_mem.2 fun said hsaid => ?_
        exact hname said (keyword?_eq_some_iff.1 hsaid)
      rw [hnone, suffix?_eq_some_iff.2 h]
      rfl

theorem Entry.ofThree?_eq_some_iff {name op : Text} {number : Number} {c : Clause} :
    ofThree? name op number = some c ↔
      c.name = name ∧ op = c.operator.spelling ∧ number.trunc? = some c.operand := by
  unfold ofThree?
  constructor
  · intro h
    split at h
    · rename_i operand operator htrunc hop
      rw [← Option.some.inj h]
      exact ⟨rfl, Operator.ofSpelling?_eq_some_iff.1 hop, htrunc⟩
    · exact absurd h (by simp)
  · rintro ⟨rfl, rfl, htrunc⟩
    rw [htrunc, Operator.ofSpelling?_spelling]

/-- A literal that is not too long has the number it denotes for its value. -/
theorem Numeral.Literal.value_eq_ok_iff {literal : Literal} {number : Number} :
    literal.value = .ok number ↔
      ¬ (literal.isInteger ∧ maxDigits < literal.whole.length) ∧ literal.number = number := by
  rw [value_eq]
  split
  · rename_i hlong
    simp [hlong]
  · rename_i hlong
    rw [Except.ok.injEq]
    exact ⟨fun h => ⟨hlong, h⟩, fun h => h.2⟩

namespace Outline.Line

/-- A line opens a group if it is a phrase for one. -/
theorem group?_eq_some_iff {l : Line} {m : Mode} :
    l.group? = some m ↔ Phrase l.tokens (.group m) := by
  constructor
  · intro h
    unfold group? at h
    split at h
    · rename_i word hw
      rw [hw, Mode.ofWord?_eq_some_iff.1 h]
      exact .group m
    · exact absurd h (by simp)
  · intro h
    unfold group?
    generalize l.tokens = tokens at h
    cases h
    exact Mode.ofWord?_word m

/-- A line that does not interrupt loading is a clause if it is a phrase for one. -/
theorem clause?_eq_some_iff {l : Line} {c : Clause} (hlong : l.overlong? = none) :
    l.clause? = some c ↔ Phrase l.tokens (.clause c) := by
  constructor
  · intro h
    unfold clause? at h
    split at h
    · rename_i word hw
      rw [Option.ite_none_right_eq_some] at h
      rw [hw, h.1, ← Option.some.inj h.2]
      exact .never
    · rename_i first second hw
      rw [hw]
      exact Entry.ofTwo?_eq_some_iff.1 h
    · rename_i name op numeral hw
      rw [hw]
      split at h
      · rename_i number hnumber
        obtain ⟨literal, hread, hvalue⟩ := Option.map_eq_some_iff.1 hnumber
        obtain ⟨-, hdenotes⟩ := Literal.value_eq_ok_iff.1 hvalue
        obtain ⟨hname, hop, htrunc⟩ := Entry.ofThree?_eq_some_iff.1 h
        rw [← hdenotes] at htrunc
        rw [← hname, hop]
        exact .operation c.operator (Literal.read?_eq_some_iff.1 hread) htrunc
      · exact absurd h (by simp)
    · exact absurd h (by simp)
  · intro h
    unfold overlong? at hlong
    unfold clause?
    generalize l.tokens = tokens at h hlong
    cases h with
    | never => rfl
    | keyword h => exact Entry.ofTwo?_eq_some_iff.2 (.keyword h)
    | suffix hname h => exact Entry.ofTwo?_eq_some_iff.2 (.suffix hname h)
    | operation op hliteral hfinite =>
      rename_i name numeral literal operand
      have hread := Literal.read?_eq_some_iff.2 hliteral
      dsimp only at hlong ⊢
      rw [hread, Option.bind_some] at hlong
      have hvalue : literal.value = .ok literal.number := by
        refine Literal.value_eq_ok_iff.2 ⟨fun h => ?_, rfl⟩
        rw [if_pos h] at hlong
        exact absurd hlong (by simp)
      rw [hread, Option.map_some, hvalue]
      exact Entry.ofThree?_eq_some_iff.2 ⟨rfl, rfl, hfinite⟩

theorem of_clause_phrase {l : Line} {c : Clause} (hlong : l.overlong? = none)
    (h : Phrase l.tokens (.clause c)) : l.clause? = some c ∧ l.group? = none := by
  have hc := (clause?_eq_some_iff hlong).2 h
  exact ⟨hc, group?_of_clause? hc⟩

theorem of_group_phrase {l : Line} {m : Mode} (h : Phrase l.tokens (.group m)) :
    l.clause? = none ∧ l.group? = some m := by
  have hg := group?_eq_some_iff.2 h
  refine ⟨Option.eq_none_iff_forall_not_mem.2 fun c hc => ?_, hg⟩
  rw [group?_of_clause? hc] at hg
  exact absurd hg (by simp)

theorem of_no_phrase {l : Line} (hlong : l.overlong? = none) (h : ∀ e, ¬ Phrase l.tokens e) :
    l.clause? = none ∧ l.group? = none := by
  refine ⟨Option.eq_none_iff_forall_not_mem.2 fun c hc => ?_,
    Option.eq_none_iff_forall_not_mem.2 fun m hm => ?_⟩
  · exact h _ ((clause?_eq_some_iff hlong).1 hc)
  · exact h _ (group?_eq_some_iff.1 hm)

end Outline.Line

/-! ## Lines one after another -/

/-- What lines say one after another: the clauses and the groups, each in order. A line that is no
phrase says nothing, and neither does what is below it or below a clause. -/
inductive Says : List Node → List Clause → List Rule → Prop where
  | nil : Says [] [] []
  | clause {l : Line} {below ns : List Node} {c : Clause} {cs : List Clause} {gs : List Rule}
      (hl : Phrase l.tokens (.clause c)) (hns : Says ns cs gs) :
      Says (⟨l, below⟩ :: ns) (c :: cs) gs
  | group {l : Line} {below ns : List Node} {m : Mode} {cs cs' : List Clause} {gs gs' : List Rule}
      (hl : Phrase l.tokens (.group m)) (hbelow : Says below cs' gs') (hns : Says ns cs gs) :
      Says (⟨l, below⟩ :: ns) cs (⟨m, cs', gs'⟩ :: gs)
  | rejected {l : Line} {below ns : List Node} {cs : List Clause} {gs : List Rule}
      (hl : ∀ e, ¬ Phrase l.tokens e) (hns : Says ns cs gs) : Says (⟨l, below⟩ :: ns) cs gs

/-- The second lines are the first without the lines that are no phrases, with all that is below
them, and without the lines below clauses. -/
inductive Pruned : List Node → List Node → Prop where
  | nil : Pruned [] []
  | clause {l : Line} {below ns ms : List Node} {c : Clause} (hl : Phrase l.tokens (.clause c))
      (hns : Pruned ns ms) : Pruned (⟨l, below⟩ :: ns) (⟨l, []⟩ :: ms)
  | group {l : Line} {below below' ns ms : List Node} {m : Mode}
      (hl : Phrase l.tokens (.group m)) (hbelow : Pruned below below') (hns : Pruned ns ms) :
      Pruned (⟨l, below⟩ :: ns) (⟨l, below'⟩ :: ms)
  | rejected {l : Line} {below ns ms : List Node} (hl : ∀ e, ¬ Phrase l.tokens e)
      (hns : Pruned ns ms) : Pruned (⟨l, below⟩ :: ns) ms

/-- A phrase is a clause or opens a group. -/
theorem phrase_cases (tokens : List Text) :
    (∃ c, Phrase tokens (.clause c)) ∨ (∃ m, Phrase tokens (.group m)) ∨
      ∀ e, ¬ Phrase tokens e := by
  by_cases h : ∃ e, Phrase tokens e
  · obtain ⟨e, he⟩ := h
    cases e with
    | clause c => exact Or.inl ⟨c, he⟩
    | group m => exact Or.inr (Or.inl ⟨m, he⟩)
    | rejected complaints => cases he
  · exact Or.inr (Or.inr (not_exists.1 h))

/-- Lines say something. -/
theorem exists_said : (ns : List Node) → ∃ cs gs, Says ns cs gs
  | [] => ⟨[], [], .nil⟩
  | ⟨l, below⟩ :: ns => by
    obtain ⟨cs, gs, hns⟩ := exists_said ns
    rcases phrase_cases l.tokens with ⟨c, hl⟩ | ⟨m, hl⟩ | hl
    · exact ⟨c :: cs, gs, .clause hl hns⟩
    · obtain ⟨cs', gs', hbelow⟩ := exists_said below
      exact ⟨cs, ⟨m, cs', gs'⟩ :: gs, .group hl hbelow hns⟩
    · exact ⟨cs, gs, .rejected hl hns⟩

/-- Lines can be pruned. -/
theorem exists_pruned : (ns : List Node) → ∃ ms, Pruned ns ms
  | [] => ⟨[], .nil⟩
  | ⟨l, below⟩ :: ns => by
    obtain ⟨ms, hns⟩ := exists_pruned ns
    rcases phrase_cases l.tokens with ⟨c, hl⟩ | ⟨m, hl⟩ | hl
    · exact ⟨⟨l, []⟩ :: ms, .clause hl hns⟩
    · obtain ⟨ms', hbelow⟩ := exists_pruned below
      exact ⟨⟨l, ms'⟩ :: ms, .group hl hbelow hns⟩
    · exact ⟨ms, .rejected hl hns⟩

/-! ## Loading -/

/-- No line among those that loading looks at interrupts it. -/
def Uninterrupted (above : List Line) (ns : List Node) : Prop :=
  ∀ q ∈ Node.visitedAll above ns, q.node.line.overlong? = none

theorem uninterrupted_cons {above : List Line} {l : Line} {below ns : List Node} :
    Uninterrupted above (⟨l, below⟩ :: ns) ↔
      l.overlong? = none ∧ (l.group?.isSome = true → Uninterrupted (above ++ [l]) below) ∧
        Uninterrupted above ns := by
  unfold Uninterrupted
  rw [Node.visitedAll, Node.visited, List.cons_append, List.forall_mem_cons, List.forall_mem_append]
  cases l.group?.isSome with
  | true => simp [Node.line]
  | false => simp [Node.line]

theorem filterMap_clause?_cons (l : Line) (below ns : List Node) :
    (⟨l, below⟩ :: ns : List Node).filterMap (·.line.clause?)
      = l.clause?.toList ++ ns.filterMap (·.line.clause?) := by
  have hline : (⟨l, below⟩ : Node).line.clause? = l.clause? := rfl
  rw [List.filterMap_cons, hline]
  cases l.clause? with
  | none => rfl
  | some c => rfl

/-- What lines say is what loading takes in. -/
theorem Says.eq {above : List Line} {ns : List Node} {cs : List Clause} {gs : List Rule}
    (hsaid : Says ns cs gs) (h : Uninterrupted above ns) :
    cs = ns.filterMap (·.line.clause?) ∧ gs = Node.groupsOf ns := by
  induction hsaid generalizing above with
  | nil => exact ⟨rfl, rfl⟩
  | clause hl _ ih =>
    obtain ⟨hlong, -, hns⟩ := uninterrupted_cons.1 h
    obtain ⟨rfl, rfl⟩ := ih hns
    obtain ⟨hc, hg⟩ := Line.of_clause_phrase hlong hl
    rw [filterMap_clause?_cons, Node.groupsOf, Node.group?, hc, hg]
    exact ⟨rfl, rfl⟩
  | group hl _ _ ihbelow ih =>
    obtain ⟨hc, hg⟩ := Line.of_group_phrase hl
    obtain ⟨-, hbelow, hns⟩ := uninterrupted_cons.1 h
    obtain ⟨rfl, rfl⟩ := ih hns
    obtain ⟨rfl, rfl⟩ := ihbelow (hbelow (Option.isSome_of_eq_some hg))
    rw [filterMap_clause?_cons, Node.groupsOf, Node.group?, hc, hg]
    exact ⟨rfl, rfl⟩
  | rejected hl _ ih =>
    obtain ⟨hlong, -, hns⟩ := uninterrupted_cons.1 h
    obtain ⟨rfl, rfl⟩ := ih hns
    obtain ⟨hc, hg⟩ := Line.of_no_phrase hlong hl
    rw [filterMap_clause?_cons, Node.groupsOf, Node.group?, hc, hg]
    exact ⟨rfl, rfl⟩

/-- Pruned lines say the same to loading, and all that it looks at among them can be used. -/
theorem Pruned.same {above : List Line} {ns ms : List Node} (hpruned : Pruned ns ms)
    (h : Uninterrupted above ns) :
    ms.filterMap (·.line.clause?) = ns.filterMap (·.line.clause?) ∧
      Node.groupsOf ms = Node.groupsOf ns ∧
      ∀ q ∈ Node.visitedAll above ms, q.node.line.isUsable = true := by
  induction hpruned generalizing above with
  | nil => exact ⟨rfl, rfl, fun _ hq => absurd hq List.not_mem_nil⟩
  | clause hl _ ih =>
    obtain ⟨hlong, -, hns⟩ := uninterrupted_cons.1 h
    obtain ⟨hclauses, hgroups, husable⟩ := ih hns
    obtain ⟨hc, hg⟩ := Line.of_clause_phrase hlong hl
    refine ⟨?_, ?_, ?_⟩
    · rw [filterMap_clause?_cons, filterMap_clause?_cons, hclauses]
    · rw [Node.groupsOf, Node.groupsOf, Node.group?, Node.group?, hg, hgroups]
      rfl
    · rw [Node.visitedAll, Node.visited, hg, List.forall_mem_append]
      refine ⟨?_, husable⟩
      simp [Node.line, Line.isUsable, hc]
  | group hl _ _ ihbelow ih =>
    obtain ⟨hc, hg⟩ := Line.of_group_phrase hl
    obtain ⟨-, hbelow, hns⟩ := uninterrupted_cons.1 h
    obtain ⟨hclauses, hgroups, husable⟩ := ih hns
    obtain ⟨hclauses', hgroups', husable'⟩ := ihbelow (hbelow (Option.isSome_of_eq_some hg))
    refine ⟨?_, ?_, ?_⟩
    · rw [filterMap_clause?_cons, filterMap_clause?_cons, hclauses]
    · rw [Node.groupsOf, Node.groupsOf, Node.group?, Node.group?, hgroups, hclauses', hgroups']
    · rw [Node.visitedAll, Node.visited, hg, List.forall_mem_append, Option.isSome_some, if_pos rfl,
        List.forall_mem_cons]
      refine ⟨⟨?_, husable'⟩, husable⟩
      simp [Node.line, Line.isUsable, hg]
  | rejected hl _ ih =>
    obtain ⟨hlong, -, hns⟩ := uninterrupted_cons.1 h
    obtain ⟨hclauses, hgroups, husable⟩ := ih hns
    obtain ⟨hc, hg⟩ := Line.of_no_phrase hlong hl
    refine ⟨?_, ?_, husable⟩
    · rw [filterMap_clause?_cons, hc, hclauses]
      rfl
    · rw [Node.groupsOf, Node.group?, hg, hgroups]
      rfl

theorem Mode.ofHeader_eq_any_iff {l : Line} :
    Mode.ofHeader (l.token 0) = .any ↔ l.tokens.head? = some ['o', 'r'] := by
  have htoken : l.token 0 = l.tokens.headD [] := by
    unfold Line.token Line.token?
    rw [if_pos (Int.le_refl 0)]
    cases l.tokens with
    | nil => rfl
    | cons t ts => rfl
  rw [htoken, ofHeader]
  cases l.tokens with
  | nil => decide
  | cons t ts =>
    show (if t = word .any then any else all) = any ↔ some t = some ['o', 'r']
    split
    · rename_i heq
      simp [heq, word]
    · rename_i hne
      simpa [word] using hne

/-- Loading that is not interrupted makes of a header and the lines below it a rule that is `any`
exactly if the first token of the header is `or`, and that has for members what the lines say. The
lines can be pruned, and loading the header with the pruned lines below it is not interrupted, makes
the same rule, and reports nothing. -/
theorem load_by_grammar (p : Position) (h : (Rule.ofHeader p).fault = none) :
    ((Rule.ofHeader p).rule.mode = .any ↔ p.node.line.tokens.head? = some ['o', 'r']) ∧
    (∀ cs gs, Says p.node.children cs gs ↔
      cs = (Rule.ofHeader p).rule.clauses ∧ gs = (Rule.ofHeader p).rule.groups) ∧
    (∃ ms, Pruned p.node.children ms) ∧
    ∀ ms, Pruned p.node.children ms →
      let again := Rule.ofHeader ⟨p.above, ⟨p.node.line, ms⟩⟩
      again.fault = none ∧ again.rule = (Rule.ofHeader p).rule ∧ again.reports = [] := by
  have hintake := Rule.intake_ofHeader p
  have hrule : (Rule.ofHeader p).rule = p.node.rule := hintake.rule h
  have huninterrupted : Uninterrupted (p.above ++ [p.node.line]) p.node.children := by
    have hnone := hintake.fault.symm.trans h
    exact List.findSome?_eq_none_iff.1 hnone
  refine ⟨?_, fun cs gs => ⟨fun hsaid => ?_, ?_⟩, exists_pruned _, fun ms hpruned => ?_⟩
  · rw [hrule]
    exact Mode.ofHeader_eq_any_iff
  · rw [hrule]
    exact hsaid.eq huninterrupted
  · rw [hrule]
    rintro ⟨rfl, rfl⟩
    obtain ⟨cs, gs, hsaid⟩ := exists_said p.node.children
    obtain ⟨rfl, rfl⟩ := hsaid.eq huninterrupted
    exact hsaid
  · obtain ⟨hclauses, hgroups, husable⟩ := hpruned.same huninterrupted
    obtain ⟨hfault, hagain, hreports⟩ :=
      Rule.ofHeader_of_isUsable (p := ⟨p.above, ⟨p.node.line, ms⟩⟩) husable
    refine ⟨hfault, ?_, hreports⟩
    rw [hagain, hrule]
    show Rule.mk _ (ms.filterMap (·.line.clause?)) (Node.groupsOf ms) = _
    rw [hclauses, hgroups]
    rfl

/-- A keyword can be a name, a number that is too large for its format is no number, a line of two
names says nothing, and what stands below a clause or below a line that says nothing is not looked
at. -/
theorem load_by_grammar_mixed_lines :
    let line : List Text → Line := Line.bare
    let never : Node := ⟨line [Entry.neverWord], []⟩
    let not : Node := ⟨line [['n', 'o', 't'], ['n', 'o', 't']], []⟩
    let huge : Node := ⟨line [['x'], ['=', '='], ['1', 'e', '4', '0', '0']], []⟩
    let names : Node := ⟨line [['o', 'r'], ['x']], [never]⟩
    let half : Line := line [['x'], ['<'], ['-', '.', '5', 'e', '1']]
    let group : Line := line [['a', 'n', 'd']]
    let children : List Node := [not, huge, ⟨group, [names, ⟨half, [never]⟩]⟩, names, never]
    let ms : List Node := [not, ⟨group, [⟨half, []⟩]⟩, never]
    let p : Position := ⟨[.outermost], ⟨line [['o', 'r'], ['o', 'r']], children⟩⟩
    (Rule.ofHeader p).fault = none ∧ (Rule.ofHeader p).rule.mode = .any ∧
      Says children [⟨['n', 'o', 't'], .compare .equal, 0⟩, .never]
        [⟨.all, [⟨['x'], .compare .less, -5⟩], []⟩] ∧
      (Rule.ofHeader p).reports.length = 3 ∧ Pruned children ms ∧
      (Rule.ofHeader ⟨[.outermost], ⟨p.node.line, ms⟩⟩).reports = [] := by
  intro line never not huge names half group children ms p
  have hfault : (Rule.ofHeader p).fault = none := by decide
  obtain ⟨hmode, hsaid, -, hpruned⟩ := load_by_grammar p hfault
  have hclause : ∀ (l : Line) (c : Clause), l.overlong? = none → l.clause? = some c →
      Phrase l.tokens (.clause c) := fun _ _ hlong => (Line.clause?_eq_some_iff hlong).1
  have hnone : ∀ l : Line, l.overlong? = none → l.isUsable = false → ∀ e, ¬ Phrase l.tokens e := by
    intro l hlong husable e he
    cases e with
    | clause c => simp [Line.isUsable, (Line.of_clause_phrase hlong he).1] at husable
    | group m => simp [Line.isUsable, (Line.of_group_phrase he).2] at husable
    | rejected complaints =>
      generalize l.tokens = tokens at he
      cases he
  have hms : Pruned children ms := by
    refine .clause (hclause not.line _ (by decide) rfl) ?_
    refine .rejected (hnone huge.line (by decide) (by decide)) ?_
    refine .group (.group .all) ?_ ?_
    · refine .rejected (hnone names.line (by decide) (by decide)) ?_
      exact .clause (hclause half _ (by decide) rfl) .nil
    · refine .rejected (hnone names.line (by decide) (by decide)) ?_
      exact .clause .never .nil
  exact ⟨hfault, hmode.2 rfl, (hsaid _ _).2 ⟨rfl, rfl⟩, rfl, hms, (hpruned ms hms).2.2⟩

end Proviso
