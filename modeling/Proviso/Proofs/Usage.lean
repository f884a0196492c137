/-
  Who refuses a command line.

  What is wrong with a command line is said in the name of the program, or of the program with the
  command whose words are wrong. A grammar refuses in the name of its own program whatever it takes
  up (`Grammar.speaksFor_parse`), and so does the whole (`speaksFor_parse`).
-/
import Proviso.Command.Invocation

namespace Proviso.Command

/-- Whatever is refused is refused in the name of a program with a property. -/
def SpeaksFor {α : Type} (P : Text → Prop) (x : Except Stop α) : Prop :=
  ∀ program message, x = .error (.usage program message) → P program

namespace SpeaksFor

variable {α β : Type} {P Q : Text → Prop}

theorem ok (a : α) : SpeaksFor P (.ok a) := fun _ _ h => nomatch h

theorem help (program : Text) : SpeaksFor P (.error (.help program) : Except Stop α) :=
  fun _ _ h => nomatch h

theorem usage {p : Text} (h : P p) (message : Text) :
    SpeaksFor P (.error (.usage p message) : Except Stop α) := by
  rintro program message' heq
  obtain ⟨rfl, -⟩ := Stop.usage.inj (Except.error.inj heq)
  exact h

theorem of_error {x : Except Stop α} {stop : Stop} (hx : SpeaksFor P x) (h : x = .error stop) :
    SpeaksFor P (.error stop : Except Stop β) :=
  fun program message hstop => hx program message (h.trans (congrArg _ (Except.error.inj hstop)))

theorem bind {x : Except Stop α} {f : α → Except Stop β} (hx : SpeaksFor P x)
    (hf : ∀ a, SpeaksFor P (f a)) : SpeaksFor P (x >>= f) := by
  cases x with
  | ok a => exact hf a
  | error stop => exact hx.of_error rfl

theorem mono {x : Except Stop α} (hx : SpeaksFor P x) (h : ∀ p, P p → Q p) : SpeaksFor Q x :=
  fun program message heq => h program (hx program message heq)

end SpeaksFor

namespace Grammar

variable {σ : Type} (g : Grammar σ)

theorem speaksFor_refuse {α : Type} (message : Text) :
    SpeaksFor (· = g.program) (g.refuse message : Except Stop α) :=
  SpeaksFor.usage (P := (· = g.program)) rfl message

theorem speaksFor_helpWith {α : Type} (f : Flag σ) (short : Bool) (attached : Text) :
    SpeaksFor (· = g.program) (g.helpWith (α := α) f short attached) := by
  induction attached generalizing short with
  | nil => exact g.speaksFor_refuse _
  | cons c cs ih =>
    unfold helpWith
    dsimp only
    split
    · exact g.speaksFor_refuse _
    · split
      · exact .help _
      · exact ih short

theorem speaksFor_takeFlag (f : Flag σ) (name : Text) (attached : Option Text)
    (rest : List (Word σ)) (value : σ) :
    SpeaksFor (· = g.program) (g.takeFlag f name attached rest value) := by
  unfold takeFlag
  split
  · exact .help _
  · exact g.speaksFor_helpWith _ _ _
  · split
    · exact .ok _
    · exact g.speaksFor_refuse _
  · split
    · split
      · exact .ok _
      · exact g.speaksFor_refuse _
    · exact g.speaksFor_refuse _

theorem speaksFor_markWord (word : Text) : SpeaksFor (· = g.program) (g.markWord word) := by
  unfold markWord
  split
  · exact .ok _
  · split
    · exact .ok _
    · split
      · exact .ok _
      · dsimp only
        split
        · exact .ok _
        · split
          · exact .ok _
          · exact .ok _
          · exact g.speaksFor_refuse _

theorem speaksFor_markWords (words : List Text) :
    SpeaksFor (· = g.program) (g.markWords words) := by
  induction words with
  | nil => exact .ok _
  | cons word rest ih =>
    unfold markWords
    split
    · exact .ok _
    · split
      · rename_i stop hstop
        exact (g.speaksFor_markWord word).of_error hstop
      · cases hrest : g.markWords rest with
        | ok marked => exact .ok _
        | error stop => exact ih.of_error hrest

theorem speaksFor_takeOperand (words : List (Word σ)) (value : σ) :
    SpeaksFor (· = g.program) (g.takeOperand words value) := by
  unfold takeOperand
  dsimp only
  split
  · split
    · split
      · split
        · exact .ok _
        · exact g.speaksFor_refuse _
      · exact .ok _
    · split
      · exact .ok _
      · exact g.speaksFor_refuse _
  · exact .ok _

theorem speaksFor_takeWords (fuel : Nat) (words : List (Word σ)) (open_ : Bool) (value : σ)
    (leftOver : List Text) :
    SpeaksFor (· = g.program) (g.takeWords fuel words open_ value leftOver) := by
  induction fuel generalizing words open_ value leftOver with
  | zero => exact .ok _
  | succ fuel ih =>
    unfold takeWords
    dsimp only
    split
    · rename_i stop hstop
      split at hstop
      · exact (g.speaksFor_takeOperand words value).of_error hstop
      · exact nomatch hstop
    · exact ih _ _ _ _
    · split
      · split
        · exact g.speaksFor_refuse _
        · exact .ok _
      · split
        · rename_i stop hstop
          exact (g.speaksFor_takeFlag _ _ _ _ _).of_error hstop
        · exact ih _ _ _ _
      · exact ih _ _ _ _

/-- A grammar refuses command lines in the name of its program. -/
theorem speaksFor_parse (words : List Text) (value : σ) :
    SpeaksFor (· = g.program) (g.parse words value) := by
  unfold parse
  split
  · rename_i stop hstop
    exact (g.speaksFor_markWords words).of_error hstop
  · exact g.speaksFor_takeWords _ _ _ _ _

end Grammar

/-- The name of the program, by itself or with a command. -/
def IsProgram (t : Text) : Prop := t = program ∨ ∃ n : Name, t = program ++ [' '] ++ n.spelling

theorem speaksFor_refuseLeftOver (words : List Text) :
    SpeaksFor IsProgram (refuseLeftOver words) := by
  unfold refuseLeftOver
  split
  · exact .ok _
  · exact .usage (.inl rfl) _

/-- A command line is refused in the name of the program or of a command. -/
theorem speaksFor_parse (words : List Text) : SpeaksFor IsProgram (parse words) := by
  unfold parse
  refine ((globalGrammar.speaksFor_parse words _).mono fun _ => .inl).bind fun front => ?_
  have hend : ∀ action : Option Action, SpeaksFor IsProgram
      (refuseLeftOver (if action.isSome then [] else front.leftOver) >>= fun _ =>
        .ok (action.map fun a => Invocation.mk front.value.config front.value.level a)) :=
    fun action => (speaksFor_refuseLeftOver _).bind fun _ => .ok _
  dsimp only
  split
  · exact hend none
  · split
    · exact hend none
    · rename_i n _
      refine (((localGrammar n).speaksFor_parse _ _).mono fun _ h => .inr ⟨n, h⟩).bind
        fun back => ?_
      exact (speaksFor_refuseLeftOver _).bind fun _ => hend (some (n.action back.value))

end Proviso.Command
