/-
  What items assign.

  An item assigns a value to a name if its last equals sign has something in front of it and an
  integer behind it (`Assigns`); any other item has a fault (`HasFault`), and no item is both. Items
  one after another come to a ledger unless one of them has a fault, and then to the first fault
  (`ledger_eq_error_iff`); in the ledger the last item for a name counts (`get?_ledger_iff`). So any
  mapping of names that are not empty can be given, in any order, and a mistake is refused in the
  words for it (`readItems_exact`).
-/
import Proviso.Command.Run
import Proviso.Ledger.Lookup
import Proviso.Proofs.Arguments
import Proviso.Proofs.Spellings

namespace Proviso

/-! ## The last mark of a text -/

namespace Text

theorem cutLast?_eq_none_iff {mark : Char} {t : Text} : cutLast? mark t = none ↔ mark ∉ t := by
  induction t with
  | nil => simp [cutLast?]
  | cons c t ih =>
    rw [cutLast?, List.mem_cons, not_or]
    cases hcut : cutLast? mark t with
    | some parts =>
      rw [hcut] at ih
      have ht : ¬ mark ∉ t := fun h => nomatch ih.2 h
      simp [ht]
    | none =>
      rw [hcut] at ih
      have ht : mark ∉ t := ih.1 rfl
      simp [ht, eq_comm]

theorem cutLast?_append {mark : Char} {rest : Text} (h : mark ∉ rest) (before : Text) :
    cutLast? mark (before ++ mark :: rest) = some (before, rest) := by
  induction before with
  | nil => rw [List.nil_append, cutLast?, cutLast?_eq_none_iff.2 h, if_pos rfl]
  | cons c before ih => rw [List.cons_append, cutLast?, ih]

/-- The parts are those in front of and behind the last mark. -/
theorem cutLast?_eq_some_iff {mark : Char} {t before rest : Text} :
    cutLast? mark t = some (before, rest) ↔ t = before ++ mark :: rest ∧ mark ∉ rest := by
  constructor
  · intro h
    induction t generalizing before with
    | nil => exact nomatch h
    | cons c t ih =>
      rw [cutLast?] at h
      cases hcut : cutLast? mark t with
      | some parts =>
        obtain ⟨before', rest'⟩ := parts
        rw [hcut] at h
        obtain ⟨rfl, rfl⟩ : c :: before' = before ∧ rest' = rest := by simpa using h
        obtain ⟨rfl, hrest⟩ := ih hcut
        exact ⟨rfl, hrest⟩
      | none =>
        rw [hcut] at h
        obtain ⟨rfl, rfl, rfl⟩ : c = mark ∧ [] = before ∧ t = rest := by simpa using h
        exact ⟨rfl, cutLast?_eq_none_iff.1 hcut⟩
  · rintro ⟨rfl, h⟩
    exact cutLast?_append h before

end Text

namespace Command

namespace Assignment

open Numeral (ArgumentText)

/-! ## One item -/

/-- The item assigns the value to the name: they stand in front of and behind its last equals
sign. -/
inductive Assigns : Text → Text → Int → Prop where
  | mk {name value : Text} {i : Int} (hname : name ≠ []) (hmark : '=' ∉ value)
      (hvalue : ArgumentText i value) : Assigns (name ++ '=' :: value) name i

/-- What is wrong with an item: it has no equals sign, nothing in front of the last one, or no
integer behind it. -/
inductive HasFault : Text → Fault → Prop where
  | noMark {item : Text} (h : '=' ∉ item) : HasFault item (.incomplete item)
  | noName {value : Text} (h : '=' ∉ value) : HasFault ('=' :: value) (.incomplete ('=' :: value))
  | notInteger {name value : Text} (hname : name ≠ []) (hmark : '=' ∉ value)
      (hvalue : ∀ i, ¬ ArgumentText i value) :
      HasFault (name ++ '=' :: value) (.notInteger name value)

/-- The item in which a name is given a value. -/
def item (e : Text × Int) : Text := e.1 ++ '=' :: Text.ofInt e.2

theorem read_cut {name value : Text} (hname : name ≠ []) (hmark : '=' ∉ value) :
    read (name ++ '=' :: value)
      = match Numeral.argument? value with
        | some i => .ok (name, i)
        | none => .error (.notInteger name value) := by
  obtain ⟨c, cs, rfl⟩ := List.exists_cons_of_ne_nil hname
  cases hvalue : Numeral.argument? value with
  | some i => simp only [read, Text.cutLast?_append hmark, hvalue]
  | none => simp only [read, Text.cutLast?_append hmark, hvalue]

theorem read_of_assigns {item name : Text} {i : Int} (h : Assigns item name i) :
    read item = .ok (name, i) := by
  cases h with
  | mk hname hmark hvalue =>
    rw [read_cut hname hmark, Numeral.argument?_eq_some_iff.2 hvalue]

theorem read_of_hasFault {item : Text} {fault : Fault} (h : HasFault item fault) :
    read item = .error fault := by
  cases h with
  | noMark h =>
    unfold read
    rw [Text.cutLast?_eq_none_iff.2 h]
  | noName h =>
    unfold read
    rw [← List.nil_append ('=' :: _), Text.cutLast?_append h]
  | notInteger hname hmark hvalue =>
    have hnone : Numeral.argument? _ = none :=
      Option.eq_none_iff_forall_ne_some.2 fun i hi => hvalue i (Numeral.argument?_eq_some_iff.1 hi)
    rw [read_cut hname hmark, hnone]

/-- Every item assigns something or has a fault. -/
theorem assigns_or_hasFault (item : Text) :
    (∃ name i, Assigns item name i) ∨ ∃ fault, HasFault item fault := by
  cases hcut : Text.cutLast? '=' item with
  | none => exact .inr ⟨_, .noMark (Text.cutLast?_eq_none_iff.1 hcut)⟩
  | some parts =>
    obtain ⟨name, value⟩ := parts
    obtain ⟨rfl, hmark⟩ := Text.cutLast?_eq_some_iff.1 hcut
    by_cases hname : name = []
    · rw [hname]
      exact .inr ⟨_, .noName hmark⟩
    · cases hvalue : Numeral.argument? value with
      | some i => exact .inl ⟨name, i, .mk hname hmark (Numeral.argument?_eq_some_iff.1 hvalue)⟩
      | none =>
        refine .inr ⟨_, .notInteger hname hmark fun i hi => ?_⟩
        rw [Numeral.argument?_eq_some_iff.2 hi] at hvalue
        exact nomatch hvalue

theorem read_eq_ok_iff {item name : Text} {i : Int} :
    read item = .ok (name, i) ↔ Assigns item name i := by
  refine ⟨fun h => ?_, read_of_assigns⟩
  rcases assigns_or_hasFault item with ⟨name', i', hassigns⟩ | ⟨fault, hfault⟩
  · obtain ⟨rfl, rfl⟩ : name' = name ∧ i' = i := by
      simpa using (read_of_assigns hassigns).symm.trans h
    exact hassigns
  · exact nomatch (read_of_hasFault hfault).symm.trans h

theorem read_eq_error_iff {item : Text} {fault : Fault} :
    read item = .error fault ↔ HasFault item fault := by
  refine ⟨fun h => ?_, read_of_hasFault⟩
  rcases assigns_or_hasFault item with ⟨name, i, hassigns⟩ | ⟨fault', hfault⟩
  · exact nomatch (read_of_assigns hassigns).symm.trans h
  · rw [← Except.error.inj ((read_of_hasFault hfault).symm.trans h)]
    exact hfault

theorem not_hasFault_iff {item : Text} :
    (∀ fault, ¬ HasFault item fault) ↔ ∃ name i, Assigns item name i := by
  constructor
  · intro h
    exact (assigns_or_hasFault item).resolve_right fun ⟨fault, hfault⟩ => h fault hfault
  · rintro ⟨name, i, hassigns⟩ fault hfault
    exact nomatch (read_of_assigns hassigns).symm.trans (read_of_hasFault hfault)

/-- The decimal text of an integer holds no equals sign, so a name may. -/
theorem assigns_item {e : Text × Int} (hname : e.1 ≠ []) (hfits : Numeral.fits e.2 = true) :
    Assigns (item e) e.1 e.2 := by
  have hmark : ∀ c ∈ Text.ofInt e.2, c ≠ '=' := Text.forall_mem_ofInt (by decide) (by decide) e.2
  exact .mk hname (fun h => hmark _ h rfl)
    (Numeral.argument?_eq_some_iff.1 (Numeral.argument?_ofInt hfits))

/-! ## Items one after another -/

/-- The last of the items for a name assigns the value to it. -/
def LastAssigns (items : List Text) (name : Text) (i : Int) : Prop :=
  ∃ before item after, items = before ++ item :: after ∧ Assigns item name i ∧
    ∀ later ∈ after, ∀ j, ¬ Assigns later name j

/-- The fault is that of the first item that has one. -/
def FirstFault (items : List Text) (fault : Fault) : Prop :=
  ∃ before item after, items = before ++ item :: after ∧
    (∀ earlier ∈ before, ∀ fault', ¬ HasFault earlier fault') ∧ HasFault item fault

theorem lastAssigns_cons {it : Text} {items : List Text} {name : Text} {i : Int} :
    LastAssigns (it :: items) name i ↔
      LastAssigns items name i ∨
        (∀ later ∈ items, ∀ j, ¬ Assigns later name j) ∧ Assigns it name i := by
  constructor
  · rintro ⟨before, it', after, heq, hassigns, hlater⟩
    cases before with
    | nil =>
      obtain ⟨rfl, rfl⟩ := List.cons.inj heq
      exact .inr ⟨hlater, hassigns⟩
    | cons first before => exact .inl ⟨before, it', after, (List.cons.inj heq).2, hassigns, hlater⟩
  · rintro (⟨before, it', after, rfl, hrest⟩ | ⟨hlater, hassigns⟩)
    · exact ⟨it :: before, it', after, rfl, hrest⟩
    · exact ⟨[], it, items, rfl, hassigns, hlater⟩

theorem firstFault_cons {it : Text} {items : List Text} {fault : Fault} :
    FirstFault (it :: items) fault ↔
      HasFault it fault ∨ (∀ fault', ¬ HasFault it fault') ∧ FirstFault items fault := by
  constructor
  · rintro ⟨before, it', after, heq, hearlier, hfault⟩
    cases before with
    | nil =>
      obtain ⟨rfl, -⟩ := List.cons.inj heq
      exact .inl hfault
    | cons first before =>
      obtain ⟨rfl, hitems⟩ := List.cons.inj heq
      rw [List.forall_mem_cons] at hearlier
      exact .inr ⟨hearlier.1, before, it', after, hitems, hearlier.2, hfault⟩
  · rintro (hfault | ⟨hfirst, before, it', after, rfl, hearlier, hfault⟩)
    · exact ⟨[], it, items, rfl, fun _ h => absurd h List.not_mem_nil, hfault⟩
    · exact ⟨it :: before, it', after, rfl, List.forall_mem_cons.2 ⟨hfirst, hearlier⟩, hfault⟩

/-- Where some item is for a name, there is a last one. -/
theorem exists_lastAssigns {items : List Text} {name it : Text} {i : Int} (hmem : it ∈ items)
    (h : Assigns it name i) : ∃ j, LastAssigns items name j := by
  induction items generalizing it i with
  | nil => exact absurd hmem List.not_mem_nil
  | cons first items ih =>
    by_cases hlater : ∃ later ∈ items, ∃ j, Assigns later name j
    · obtain ⟨later, hin, j, hj⟩ := hlater
      obtain ⟨k, hk⟩ := ih hin hj
      exact ⟨k, lastAssigns_cons.2 (.inl hk)⟩
    · have hnone : ∀ later ∈ items, ∀ j, ¬ Assigns later name j := fun later hin j hj =>
        hlater ⟨later, hin, j, hj⟩
      rcases List.mem_cons.1 hmem with rfl | hin
      · exact ⟨i, lastAssigns_cons.2 (.inr ⟨hnone, h⟩)⟩
      · exact absurd h (hnone it hin i)

/-- Where some item has a fault, there is a first one. -/
theorem exists_firstFault {items : List Text} {it : Text} {fault : Fault} (hmem : it ∈ items)
    (h : HasFault it fault) : ∃ fault', FirstFault items fault' := by
  induction items with
  | nil => exact absurd hmem List.not_mem_nil
  | cons first items ih =>
    by_cases hfirst : ∃ fault', HasFault first fault'
    · obtain ⟨fault', hfault'⟩ := hfirst
      exact ⟨fault', firstFault_cons.2 (.inl hfault')⟩
    · rcases List.mem_cons.1 hmem with rfl | hin
      · exact absurd ⟨fault, h⟩ hfirst
      · obtain ⟨fault', hfault'⟩ := ih hin
        exact ⟨fault', firstFault_cons.2 (.inr ⟨fun f hf => hfirst ⟨f, hf⟩, hfault'⟩)⟩

/-- Assigning stops at the first fault. -/
theorem assign_eq_error_iff {items : List Text} {l : Ledger} {fault : Fault} :
    assign items l = .error fault ↔ FirstFault items fault := by
  induction items generalizing l with
  | nil =>
    constructor
    · exact fun h => nomatch h
    · rintro ⟨before, it, after, heq, -⟩
      exact absurd heq.symm (by simp)
  | cons it items ih =>
    rw [firstFault_cons, assign]
    rcases assigns_or_hasFault it with ⟨name, i, hassigns⟩ | ⟨fault', hfault⟩
    · have hnone : ∀ fault, ¬ HasFault it fault := not_hasFault_iff.2 ⟨name, i, hassigns⟩
      rw [read_of_assigns hassigns]
      exact ih.trans ⟨fun h => .inr ⟨hnone, h⟩, fun h => (h.resolve_left (hnone fault)).2⟩
    · rw [read_of_hasFault hfault]
      constructor
      · intro h
        rw [← Except.error.inj h]
        exact .inl hfault
      · rintro (h | h)
        · exact congrArg _ (Except.error.inj ((read_of_hasFault hfault).symm.trans
            (read_of_hasFault h)))
        · exact absurd hfault (h.1 fault')

/-- Items without a fault are all assigned. -/
theorem exists_assign {items : List Text} (h : ∀ it ∈ items, ∀ fault, ¬ HasFault it fault)
    (l : Ledger) : ∃ m, assign items l = .ok m := by
  cases hassign : assign items l with
  | ok m => exact ⟨m, rfl⟩
  | error fault =>
    obtain ⟨before, it, after, rfl, -, hfault⟩ := assign_eq_error_iff.1 hassign
    exact absurd hfault (h it (List.mem_append_right _ List.mem_cons_self) fault)

/-- The last item for a name counts; a name without items keeps its value. -/
theorem get?_assign {items : List Text} {l m : Ledger} (h : assign items l = .ok m) (name : Text)
    (i : Int) :
    m.get? name = some i ↔
      LastAssigns items name i ∨
        (∀ it ∈ items, ∀ j, ¬ Assigns it name j) ∧ l.get? name = some i := by
  induction items generalizing l with
  | nil =>
    have hnone : ¬ LastAssigns [] name i := by
      rintro ⟨before, it, after, heq, -⟩
      exact absurd heq.symm (by simp)
    rw [← Except.ok.inj h]
    simp [hnone]
  | cons it items ih =>
    rw [assign] at h
    cases hread : read it with
    | error fault =>
      rw [hread] at h
      exact nomatch h
    | ok parts =>
      obtain ⟨name', i'⟩ := parts
      rw [hread] at h
      have hassigns : ∀ {n j}, Assigns it n j ↔ name' = n ∧ i' = j := by
        intro n j
        rw [← read_eq_ok_iff, hread]
        simp
      rw [ih h, lastAssigns_cons, Ledger.get?_set, List.forall_mem_cons]
      simp only [hassigns]
      by_cases hname : name = name'
      · simp [hname]
      · simp [hname, Ne.symm hname]

theorem ledger_eq_error_iff {items : List Text} {fault : Fault} :
    ledger items = .error fault ↔ FirstFault items fault := assign_eq_error_iff

theorem get?_ledger_iff {items : List Text} {m : Ledger} (h : ledger items = .ok m) (name : Text)
    (i : Int) : m.get? name = some i ↔ LastAssigns items name i := by
  rw [get?_assign h]
  simp

/-- The items for the entries of a ledger, in any order, give that ledger. -/
theorem ledger_map_item {l : Ledger} {es : List (Text × Int)} (hes : ∀ e, e ∈ es ↔ e ∈ l.entries)
    (h : ∀ e ∈ es, e.1 ≠ [] ∧ Numeral.fits e.2 = true) : ledger (es.map item) = .ok l := by
  have hitem : ∀ e ∈ es, Assigns (item e) e.1 e.2 := fun e he => assigns_item (h e he).1 (h e he).2
  have hsound : ∀ it ∈ es.map item, ∀ fault, ¬ HasFault it fault := by
    intro it hit
    obtain ⟨e, he, rfl⟩ := List.mem_map.1 hit
    exact not_hasFault_iff.2 ⟨_, _, hitem e he⟩
  obtain ⟨m, hm⟩ := exists_assign hsound .empty
  -- Whatever an item assigns to a name is what the ledger has for it.
  have hvalue : ∀ {it name i}, it ∈ es.map item → Assigns it name i → l.get? name = some i := by
    intro it name i hit hassigns
    obtain ⟨e, he, rfl⟩ := List.mem_map.1 hit
    obtain rfl : e = (name, i) :=
      Except.ok.inj ((read_of_assigns (hitem e he)).symm.trans (read_of_assigns hassigns))
    exact (Ledger.mem_iff_find? l.sorted name i).1 ((hes _).1 he)
  have hsame : m = l := by
    refine Ledger.ext_get? fun name => Option.ext fun i => ?_
    rw [get?_ledger_iff hm]
    constructor
    · rintro ⟨before, it, after, heq, hassigns, -⟩
      exact hvalue (heq ▸ List.mem_append_right _ List.mem_cons_self) hassigns
    · intro hget
      have hmem : (name, i) ∈ es := (hes _).2 ((Ledger.mem_iff_find? l.sorted name i).2 hget)
      obtain ⟨j, hlast⟩ := exists_lastAssigns (List.mem_map_of_mem hmem) (hitem _ hmem)
      obtain ⟨before, it, after, heq, hassigns, -⟩ := id hlast
      have hj := hvalue (heq ▸ List.mem_append_right _ List.mem_cons_self) hassigns
      rwa [Option.some.inj (hget.symm.trans hj)]
  rw [← hsame]
  exact hm

end Assignment

/-! ## The items of a command line -/

open Command.Assignment (FirstFault HasFault LastAssigns)

/-- Reading the items gives the ledger and nothing else happens. -/
def Accepts (items : List Text) (l : Ledger) : Prop :=
  ∀ o : Output, (Run.readItems (items.map some)).run o = (.ok l, o)

/-- Reading the items ends the run as a mistake in the command line, which is told. -/
def Rejects (items : List Text) (message : Text) : Prop :=
  ∀ o : Output, (Run.readItems (items.map some)).run o
    = (.error (.exit 2),
        { o with err := o.err ++ "conditionset: error: ".toList ++ message ++ ['\n'] })

theorem run_readItems (items : List Text) :
    Run.readItems (items.map some) =
      match Assignment.ledger items with
      | .ok l => pure l
      | .error fault => Run.refuseUsage program fault.message := by
  have hall : ((items.map some).takeWhile Option.isSome).filterMap id = items := by
    rw [List.takeWhile_eq_self_iff.2 (by simp), List.filterMap_map]
    exact List.filterMap_some
  cases hledger : Assignment.ledger items with
  | ok l => simp only [Run.readItems, hall, hledger, List.length_map, Nat.lt_irrefl, if_false]
  | error fault => simp only [Run.readItems, hall, hledger]

theorem accepts_of_ledger {items : List Text} {l : Ledger} (h : Assignment.ledger items = .ok l) :
    Accepts items l := by
  intro o
  rw [run_readItems, h]
  rfl

theorem rejects_of_ledger {items : List Text} {fault : Assignment.Fault}
    (h : Assignment.ledger items = .error fault) : Rejects items fault.message := by
  intro o
  rw [run_readItems, h]
  show (_, { o with err := o.err ++ program ++ ": error: ".toList ++ fault.message ++ ['\n'] }) = _
  rw [List.append_assoc o.err program]
  rfl

/-- Every mapping of names that are not empty to integers within the bound on digits is what the
items for its entries give, in any order. Any items are rejected exactly if one of them has a fault,
and then for the fault of the first that has one; otherwise they give the ledger in which the last
item for a name counts. -/
theorem readItems_exact :
    (∀ (l : Ledger) (es : List (Text × Int)), (∀ e, e ∈ es ↔ e ∈ l.entries) →
      (∀ e ∈ es, e.1 ≠ [] ∧ Numeral.fits e.2 = true) → Accepts (es.map Assignment.item) l) ∧
    ∀ items : List Text,
      ((∃ message, Rejects items message) ↔ ∃ it ∈ items, ∃ fault, HasFault it fault) ∧
      (∀ fault, FirstFault items fault → Rejects items fault.message) ∧
      ((∀ it ∈ items, ∀ fault, ¬ HasFault it fault) →
        ∃ l, Accepts items l ∧ ∀ name i, l.get? name = some i ↔ LastAssigns items name i) := by
  refine ⟨fun l es hes h => accepts_of_ledger (Assignment.ledger_map_item hes h), fun items => ?_⟩
  have hfirst : ∀ fault, FirstFault items fault → Rejects items fault.message :=
    fun fault h => rejects_of_ledger (Assignment.ledger_eq_error_iff.2 h)
  have hsound : (∀ it ∈ items, ∀ fault, ¬ HasFault it fault) →
      ∃ l, Accepts items l ∧ ∀ name i, l.get? name = some i ↔ LastAssigns items name i := by
    intro h
    obtain ⟨l, hl⟩ := Assignment.exists_assign h .empty
    exact ⟨l, accepts_of_ledger hl, Assignment.get?_ledger_iff hl⟩
  refine ⟨⟨?_, ?_⟩, hfirst, hsound⟩
  · rintro ⟨message, hrejects⟩
    cases hledger : Assignment.ledger items with
    | ok l =>
      have haccepts := accepts_of_ledger hledger ⟨[], [], none⟩
      exact nomatch (hrejects _).symm.trans haccepts
    | error fault =>
      obtain ⟨before, it, after, rfl, -, hfault⟩ := Assignment.ledger_eq_error_iff.1 hledger
      exact ⟨it, List.mem_append_right _ List.mem_cons_self, fault, hfault⟩
  · rintro ⟨it, hit, fault, hfault⟩
    obtain ⟨fault', hfault'⟩ := Assignment.exists_firstFault hit hfault
    exact ⟨_, hfirst fault' hfault'⟩

/-- Names with equals signs and blanks, their entries in another order than the names; and items of
which one is repeated, one is in digits of two scripts and the last two have faults. -/
theorem readItems_exact_odd_names :
    let l := Ledger.ofList [(" b ".toList, 7), ("a=".toList, -12), ("=".toList, 0)]
    let es : List (Text × Int) := [("a=".toList, -12), (" b ".toList, 7), ("=".toList, 0)]
    let sound : List Text := ["x=1".toList, "x==2".toList, "x= +1_\u0663 ".toList]
    let faulty : List Text := sound ++ ["y=\u00B2".toList, "=3".toList]
    ((∀ e, e ∈ es ↔ e ∈ l.entries) ∧ (∀ e ∈ es, e.1 ≠ [] ∧ Numeral.fits e.2 = true) ∧
      Accepts (es.map Assignment.item) l) ∧
    ((∀ it ∈ sound, ∀ fault, ¬ HasFault it fault) ∧
      ∃ l, Accepts sound l ∧ l.get? "x".toList = some 13 ∧ l.get? "x=".toList = some 2) ∧
    Rejects faulty "--set value for 'y' must be an integer, got '\u00B2'".toList := by
  intro l es sound faulty
  obtain ⟨hmappings, hitems⟩ := readItems_exact
  have hentries : ∀ e, e ∈ es ↔ e ∈ l.entries := by
    have hperm : es.Perm l.entries := by decide
    exact fun e => hperm.mem_iff
  have hone : Assignment.Assigns "x=1".toList "x".toList 1 := Assignment.read_eq_ok_iff.1 (by rfl)
  have htwo : Assignment.Assigns "x==2".toList "x=".toList 2 := Assignment.read_eq_ok_iff.1 (by rfl)
  have hlast : Assignment.Assigns "x= +1_\u0663 ".toList "x".toList 13 :=
    Assignment.read_eq_ok_iff.1 (by rfl)
  have hsound : ∀ it ∈ sound, ∀ fault, ¬ HasFault it fault := by
    simp only [sound, List.forall_mem_cons, Assignment.not_hasFault_iff]
    exact ⟨⟨_, _, hone⟩, ⟨_, _, htwo⟩, ⟨_, _, hlast⟩, fun _ h => absurd h List.not_mem_nil⟩
  obtain ⟨m, haccepts, hget⟩ := (hitems sound).2.2 hsound
  refine ⟨⟨hentries, by decide, hmappings l es hentries (by decide)⟩,
    ⟨hsound, m, haccepts, (hget _ _).2 ?_, (hget _ _).2 ?_⟩, ?_⟩
  · exact ⟨["x=1".toList, "x==2".toList], _, [], rfl, hlast, fun _ h => absurd h List.not_mem_nil⟩
  · refine ⟨["x=1".toList], _, ["x= +1_\u0663 ".toList], rfl, htwo, ?_⟩
    intro later hlater j hj
    rw [List.mem_singleton.1 hlater] at hj
    have hnames := (Assignment.read_of_assigns hlast).symm.trans (Assignment.read_of_assigns hj)
    have hne : "x".toList ≠ "x=".toList := by decide
    exact absurd (congrArg Prod.fst (Except.ok.inj hnames)) hne
  · have hmessage : (Assignment.Fault.notInteger "y".toList "\u00B2".toList).message
        = "--set value for 'y' must be an integer, got '\u00B2'".toList := by decide +kernel
    rw [← hmessage]
    refine (hitems faulty).2.1 _ ?_
    exact ⟨sound, "y=\u00B2".toList, ["=3".toList], rfl, hsound,
      Assignment.read_eq_error_iff.1 (by rfl)⟩

end Command

end Proviso
