/-
  Sources of random numbers.

  A source is whatever answers a request for a number below a bound, together with the state
  that the next request meets. Rules are tested against a source; the Mersenne Twister is
  the source for real use, a script of fixed answers the one for trying things out.
-/
import Proviso.Random.Twister

namespace Proviso

/-- What draws numbers, with states of type `σ`. -/
structure Source (σ : Type) where
  /-- The number drawn for a bound, and the state afterwards. -/
  draw : Nat → σ → Int × σ

namespace Source

/-- Draws by the Mersenne Twister. -/
def twister : Source Twister where
  draw bound t :=
    match t.below bound with
    | some (n, t) => (n, t)
    -- Of the bounds that rules draw below, none is without a result.
    | none => (0, t)

/-- Answers from a list, whatever the bound, and with 0 when the list is used up. -/
def script : Source (List Int) where
  draw _ answers := (answers.headD 0, answers.tail)

/-- A source that keeps its answers, the last one first. -/
def recorded {σ : Type} (source : Source σ) : Source (σ × List Int) where
  draw bound s :=
    let (n, next) := source.draw bound s.1
    (n, next, n :: s.2)

end Source

/-! ### The twister behind an interface -/

namespace Twister

/-- A request for a number out of an empty range. -/
inductive Fault where
  | emptyRange
  deriving DecidableEq, Repr

/-- The wording of a fault. -/
def Fault.message : Fault → Text
  | .emptyRange => "empty range for randrange()".toList

/-- What a user asks of a generator. -/
inductive Call where
  /-- A number below an upper bound. -/
  | int (upper : Int)
  /-- To start again from a seed. -/
  | seed (value : Int)
  /-- To start again without a seed, from words that the system comes up with, at least one. -/
  | reseed (word : UInt32) (words : List UInt32)
  deriving DecidableEq, Repr

/-- What a user gets from a generator. -/
inductive Reply where
  | number (value : Nat)
  | refused (fault : Fault)
  | done
  deriving DecidableEq, Repr

/-- The reply to a call and the generator after it; a bound that is not positive is refused and
changes nothing. -/
def serve (t : Twister) : Call → Option (Reply × Twister)
  | .int upper =>
    if 0 < upper then (t.below upper.toNat).map fun (n, t) => (.number n, t)
    else some (.refused .emptyRange, t)
  | .seed value => some (.done, .ofSeed value)
  | .reseed w ws => some (.done, .ofKey (w :: ws))

/-- The replies to calls, one after another, and the generator after them. -/
def serveAll (t : Twister) : List Call → Option (List Reply × Twister)
  | [] => some ([], t)
  | c :: cs =>
    (t.serve c).bind fun (reply, t) => (t.serveAll cs).map fun (replies, t) => (reply :: replies, t)

end Twister

end Proviso
