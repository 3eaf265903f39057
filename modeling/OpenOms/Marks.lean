import Mathlib.Algebra.Order.Field.Rat
import Mathlib.Logic.Function.Basic

/-!
Live marks: the quotes the feeds deliver, the store that holds the latest
accepted mark of an instrument and the update mirrored on the price lane. Times
are nanoseconds.
-/
namespace OmsMarks

structure Quote where
  instrumentId : Int
  bid : ℚ
  ask : ℚ
  tsRecv : Int
  sourceCode : String
  deriving DecidableEq, Repr

structure Mark where
  bid : ℚ
  ask : ℚ
  ts : Int
  deriving DecidableEq, Repr

def Mark.mid (self : Mark) : ℚ := (self.bid + self.ask) / 2

def MarkStore := Int → Option Mark

def MarkStore.new : MarkStore := fun _ => none

def MarkStore.set (self : MarkStore) (instrumentId : Int) (bid ask : ℚ) (now : Int) : MarkStore :=
  Function.update self instrumentId (some ⟨bid, ask, now⟩)

def MarkStore.get (self : MarkStore) (instrumentId : Int) : Option Mark := self instrumentId

structure MarkUpdate where
  instrumentId : Int
  bid : ℚ
  ask : ℚ
  deriving DecidableEq, Repr

def MarkUpdate.ofQuote (q : Quote) : MarkUpdate := ⟨q.instrumentId, q.bid, q.ask⟩

end OmsMarks
