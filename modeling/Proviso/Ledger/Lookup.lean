/-
  What a ledger answers.

  A ledger is seen through `get?`. The lemmas say what each operation does to that view; the
  main one, `ext_get?`, says that nothing else can be seen: two ledgers that give the same
  answers are equal, since the order of the names leaves one way to list the entries.
-/
import Proviso.Ledger

namespace Proviso

theorem Text.precedes_irrefl (t : Text) : ¬ t.precedes t := by
  induction t with
  | nil => simp [precedes]
  | cons c t ih => rw [precedes_cons]; simpa using ih

namespace Ledger

/-! ### Entries -/

theorem find?_enter (name other : Text) (value : Int) (es : List (Text × Int)) :
    find? other (enter name value es) = if other = name then some value else find? other es := by
  induction es with
  | nil => simp [enter, find?]
  | cons e es ih =>
    unfold enter
    split
    · rename_i h
      by_cases hn : other = name
      · simp [find?, hn]
      · simp [find?, hn, h ▸ hn]
    · rename_i h
      split
      · simp [find?]
      · by_cases he : other = e.1
        · have hn : other ≠ name := fun k => h (k ▸ he)
          simp [find?, he, he ▸ hn]
        · simp [find?, he, ih]

theorem find?_filter (name other : Text) (es : List (Text × Int)) :
    find? other (es.filter fun e => e.1 ≠ name)
      = if other = name then none else find? other es := by
  induction es with
  | nil => simp [find?]
  | cons e es ih =>
    by_cases h : e.1 = name
    · by_cases hn : other = name
      · simpa [h, hn] using ih
      · have he : other ≠ e.1 := fun k => hn (k.trans h)
        simpa [h, hn, find?, he] using ih
    · by_cases he : other = e.1
      · simp [h, find?, he]
      · simpa [h, find?, he] using ih

theorem find?_eq_none_of_lt {name : Text} {es : List (Text × Int)}
    (h : ∀ e ∈ es, name.precedes e.1) : find? name es = none := by
  induction es with
  | nil => rfl
  | cons e es ih =>
    have he : name ≠ e.1 := fun k => Text.precedes_irrefl name (k ▸ h e List.mem_cons_self)
    simpa [find?, he] using ih fun d hd => h d (List.mem_cons_of_mem _ hd)

theorem mem_of_find? {name : Text} {value : Int} {es : List (Text × Int)}
    (h : find? name es = some value) : (name, value) ∈ es := by
  induction es with
  | nil => simp [find?] at h
  | cons e es ih =>
    by_cases he : name = e.1
    · have hv : e.2 = value := by simpa [find?, he] using h
      exact List.mem_cons.2 (.inl (by rw [he, ← hv]))
    · exact List.mem_cons_of_mem _ (ih (by simpa [find?, he] using h))

theorem mem_iff_find? {es : List (Text × Int)}
    (hes : es.Pairwise fun a b => a.1.precedes b.1) (name : Text) (value : Int) :
    (name, value) ∈ es ↔ find? name es = some value := by
  refine ⟨fun h => ?_, mem_of_find?⟩
  induction es with
  | nil => exact absurd h List.not_mem_nil
  | cons e es ih =>
    have hsorted := List.pairwise_cons.1 hes
    rcases List.mem_cons.1 h with rfl | hmem
    · simp [find?]
    · have hne : name ≠ e.1 := fun heq =>
        Text.precedes_irrefl name (heq ▸ hsorted.1 (name, value) hmem)
      rw [find?, if_neg hne]
      exact ih hsorted.2 hmem

/-- The first of the entries is the same in both lists: each of the two names is found in the
other list, so neither can precede the other. -/
theorem head_eq_of_find? {d e : Text × Int} {ds es : List (Text × Int)}
    (hd : ∀ x ∈ ds, d.1.precedes x.1) (he : ∀ x ∈ es, e.1.precedes x.1)
    (h : ∀ name, find? name (d :: ds) = find? name (e :: es)) : d = e := by
  have hname : d.1 = e.1 := by
    apply Decidable.byContradiction
    intro hne
    have hmd : (d.1, d.2) ∈ e :: es := mem_of_find? ((h d.1).symm.trans (by simp [find?]))
    have hme : (e.1, e.2) ∈ d :: ds := mem_of_find? ((h e.1).trans (by simp [find?]))
    rcases List.mem_cons.1 hmd with k | hmd
    · exact hne (congrArg Prod.fst k)
    rcases List.mem_cons.1 hme with k | hme
    · exact hne (congrArg Prod.fst k).symm
    exact Text.precedes_irrefl _ (Text.precedes_trans (he _ hmd) (hd _ hme))
  have hvalue : some d.2 = some e.2 := by simpa [find?, hname] using h d.1
  exact Prod.ext hname (Option.some.inj hvalue)

theorem entries_ext {ds es : List (Text × Int)}
    (hds : ds.Pairwise fun a b => a.1.precedes b.1)
    (hes : es.Pairwise fun a b => a.1.precedes b.1)
    (h : ∀ name, find? name ds = find? name es) : ds = es := by
  induction ds generalizing es with
  | nil =>
    cases es with
    | nil => rfl
    | cons e es => simpa [find?] using h e.1
  | cons d ds ih =>
    cases es with
    | nil => simpa [find?] using h d.1
    | cons e es =>
      have kd := List.pairwise_cons.1 hds
      have ke := List.pairwise_cons.1 hes
      have hhead := head_eq_of_find? kd.1 ke.1 h
      subst hhead
      refine congrArg _ (ih kd.2 ke.2 fun name => ?_)
      by_cases hn : name = d.1
      · rw [hn, find?_eq_none_of_lt kd.1, find?_eq_none_of_lt ke.1]
      · simpa [find?, hn] using h name

/-! ### Ledgers -/

@[simp]
theorem get?_empty (name : Text) : empty.get? name = none := rfl

@[simp]
theorem get?_set (l : Ledger) (name other : Text) (value : Int) :
    (l.set name value).get? other = if other = name then some value else l.get? other :=
  find?_enter ..

@[simp]
theorem get?_erase (l : Ledger) (name other : Text) :
    (l.erase name).get? other = if other = name then none else l.get? other :=
  find?_filter ..

@[simp]
theorem get?_update (l : Ledger) (c : Clause) (name : Text) :
    (l.update c).get? name
      = if name = c.name then some (c.evaluate (l.read name)) else l.get? name := by
  by_cases h : name = c.name <;> simp [update, h]

/-- Two ledgers that answer alike are equal. -/
@[ext]
theorem ext_get? {l m : Ledger} (h : ∀ name, l.get? name = m.get? name) : l = m := by
  have := entries_ext l.sorted m.sorted h
  cases l
  cases m
  simpa using this

end Ledger

end Proviso
