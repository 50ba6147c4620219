import Mathlib.Data.Rat.Defs
import WeGoAll.Base.Libraries

/-!
# Base — TimeHandler

The clock of a host, with the two estimators it hands out.  The estimators compute with `double`,
which enters as the parameter `Doubles`; the raw reading `now()` of the clock is passed in.
-/

namespace Wga

/-- The `double` arithmetic of the machine. -/
structure Doubles where
  Double : Type
  /-- `double(n)` of an `int64_t`. -/
  ofInt : Int → Double
  /-- The literal with these digits, the last `e` of them behind the point. -/
  decimal : (digits e : Nat) → Double
  add : Double → Double → Double
  sub : Double → Double → Double
  mul : Double → Double → Double
  div : Double → Double → Double
  sqrt : Double → Double
  lt : Double → Double → Bool
  /-- `int64_t(d)`, which truncates. -/
  toInt64 : Double → Int
  toInt64_ofInt : ∀ n : Int, n.natAbs ≤ 2 ^ 53 → toInt64 (ofInt n) = n
  mul_zero : ∀ n : Int, 0 ≤ n → mul (ofInt n) (ofInt 0) = ofInt 0

namespace Doubles

/-- `std::min`. -/
def min (F : Doubles) (a b : F.Double) : F.Double := if F.lt b a then b else a

/-- Exact arithmetic, which is that of the machine where no result is rounded. -/
def exact : Doubles where
  Double := ℚ
  ofInt n := n
  decimal digits e := mkRat digits (10 ^ e)
  add := (· + ·)
  sub := (· - ·)
  mul := (· * ·)
  div := (· / ·)
  sqrt d := mkRat d.num.toNat.sqrt d.den.sqrt
  lt a b := a < b
  toInt64 d := d.num.tdiv d.den
  toInt64_ofInt n _ := by simp
  mul_zero n _ := by simp

end Doubles

/-! ### `SlidingWindowEstimator` -/

/-- The estimator of mean and variance over the last `MAX_COUNT` samples. -/
structure SlidingWindowEstimator (F : Doubles) where
  mean : F.Double
  variance : F.Double
  samples : List F.Double

namespace SlidingWindowEstimator

variable {F : Doubles}

def MAX_COUNT : Nat := 3600

def new : SlidingWindowEstimator F := ⟨F.ofInt 0, F.ofInt 0, []⟩

/-- `addSample`: the oldest samples are dropped, then mean and variance are computed afresh. -/
def addSample (newSample : F.Double) (self : SlidingWindowEstimator F) :
    SlidingWindowEstimator F :=
  let samples := self.samples ++ [newSample]
  let samples := samples.drop (samples.length - MAX_COUNT)
  let mean := F.div (samples.foldl F.add (F.ofInt 0)) (F.ofInt samples.length)
  let variance := samples.foldl (fun variance sample =>
    F.add variance (F.mul (F.sub sample mean) (F.sub sample mean))) (F.ofInt 0)
  ⟨mean, F.div variance (F.ofInt samples.length), samples⟩

def getMean (self : SlidingWindowEstimator F) : F.Double := self.mean

end SlidingWindowEstimator

/-! ### `AdamOptimizer` -/

/-- The optimizer, one dimension of Adam. -/
structure AdamOptimizer (F : Doubles) where
  learningRate : F.Double
  averageGradient : F.Double
  averageSquaredGradient : F.Double
  currentValue : F.Double

namespace AdamOptimizer

variable {F : Doubles}

def BETA1 : F.Double := F.decimal 9 1
def ONE_MINUS_BETA1 : F.Double := F.sub (F.ofInt 1) BETA1
def BETA2 : F.Double := F.decimal 99 2
def ONE_MINUS_BETA2 : F.Double := F.sub (F.ofInt 1) BETA2
def EPSILON : F.Double := F.decimal 1 10

def new (initialValue learningRate : F.Double) : AdamOptimizer F :=
  ⟨learningRate, F.ofInt 0, F.ofInt 0, initialValue⟩

/-- `update`: one step against the gradient. -/
def update (gradient : F.Double) (self : AdamOptimizer F) : AdamOptimizer F :=
  let averageGradient :=
    F.add (F.mul BETA1 self.averageGradient) (F.mul ONE_MINUS_BETA1 gradient)
  let averageSquaredGradient :=
    F.add (F.mul BETA2 self.averageSquaredGradient)
      (F.mul ONE_MINUS_BETA2 (F.mul gradient gradient))
  let change := F.mul self.learningRate
    (F.div averageGradient (F.add (F.sqrt averageSquaredGradient) EPSILON))
  { self with
    averageGradient := averageGradient
    averageSquaredGradient := averageSquaredGradient
    currentValue := F.sub self.currentValue change }

/-- `updateWithLabel`: the gradient is the distance from the label. -/
def updateWithLabel (label : F.Double) (self : AdamOptimizer F) : AdamOptimizer F :=
  self.update (F.sub self.currentValue label)

def getCurrentValue (self : AdamOptimizer F) : F.Double := self.currentValue

end AdamOptimizer

/-! ### `TimeHandler` -/

/-- The clock: what is taken off `now()`, and the two estimators of the drift. -/
structure TimeHandler (F : Doubles) where
  noiseShift : Int
  timeShift : Int
  offsetEstimator : SlidingWindowEstimator F
  offsetOptimizer : AdamOptimizer F

namespace TimeHandler

variable {F : Doubles}

def new : TimeHandler F := ⟨0, 0, .new, .new (F.ofInt 0) (F.decimal 1 1)⟩

/-- `addNoise`; `random` is what `rand()` returns. -/
def addNoise (random : Nat) (self : TimeHandler F) : TimeHandler F :=
  { self with noiseShift := -1 * ((random % 30 : Nat) * 1000000) }

/-- `currentTimeMicros`: the reading of the clock less both shifts. -/
def currentTimeMicros (now : Int) (self : TimeHandler F) : Int :=
  now - (self.timeShift + self.noiseShift)

def getTimeShift (self : TimeHandler F) : Int := self.timeShift

def setTimeShift (timeShift : Int) (self : TimeHandler F) : TimeHandler F :=
  { self with timeShift := timeShift }

/-- A time stamp of `ClockSynchronizer`: `currentTimeMicros() + getTimeShift()`. -/
def stamp (now : Int) (self : TimeHandler F) : Int :=
  self.currentTimeMicros now + self.getTimeShift

/-- **A stamp does not depend on the time shift.** -/
theorem stamp_eq (now : Int) (self : TimeHandler F) : self.stamp now = now - self.noiseShift := by
  simp only [stamp, currentTimeMicros, getTimeShift]
  omega

@[simp] theorem setTimeShift_noiseShift (timeShift : Int) (self : TimeHandler F) :
    (self.setTimeShift timeShift).noiseShift = self.noiseShift := rfl

end TimeHandler

end Wga
