/-
  The numbers in which moments are kept.

  Sums, products, means and deviations are running arithmetic over the numbers that cells read
  as. The recurrences are stated for any kind of number with the four operations; the engine
  runs them on doubles.
-/
import ColumnQuery.Value.Order

namespace ColumnQuery

/-- Numbers to keep moments in, and how a cell reads as one. -/
class Quantity (N : Type) extends Add N, Sub N, Mul N, Div N where
  ofNat : Nat → N
  ofValue : Value → N
  isZero : N → Bool

instance : Quantity Float where
  ofNat := Number.ofNat
  ofValue := Value.toFloat
  isZero x := x == 0.0

namespace Quantity

def zero [Quantity N] : N := ofNat 0

def one [Quantity N] : N := ofNat 1

/-- The running mean of observations and their sum of squared deviations from it. -/
structure Moments (N : Type) where
  mean : N
  dev : N

namespace Moments

variable {N : Type} [Quantity N]

def empty : Moments N := ⟨zero, zero⟩

/-- Takes in an observation; `n` counts it. -/
def add (m : Moments N) (n : Nat) (v : N) : Moments N :=
  let delta := v - m.mean
  let mean := m.mean + delta / ofNat n
  ⟨mean, m.dev + delta * (v - mean)⟩

/-- Gives an observation back; `n` counts those that stay. -/
def remove (m : Moments N) (n : Nat) (v : N) : Moments N :=
  if n = 0 then empty
  else
    let delta := v - m.mean
    let mean := m.mean - delta / ofNat n
    ⟨mean, m.dev - delta * (v - mean)⟩

end Moments

/-- The running means, deviations and co-deviation of pairs. -/
structure CoMoments (N : Type) where
  meanX : N
  meanY : N
  devX : N
  devY : N
  comoment : N

namespace CoMoments

variable {N : Type} [Quantity N]

def empty : CoMoments N := ⟨zero, zero, zero, zero, zero⟩

/-- Takes in a pair; `n` counts it. -/
def add (m : CoMoments N) (n : Nat) (x y : N) : CoMoments N :=
  let dx := x - m.meanX
  let dy := y - m.meanY
  let meanX := m.meanX + dx / ofNat n
  let meanY := m.meanY + dy / ofNat n
  ⟨meanX, meanY, m.devX + dx * (x - meanX), m.devY + dy * (y - meanY),
    m.comoment + dx * (y - meanY)⟩

/-- Gives a pair back; `n` counts those that stay. -/
def remove (m : CoMoments N) (n : Nat) (x y : N) : CoMoments N :=
  if n = 0 then empty
  else
    let meanX := m.meanX - (x - m.meanX) / ofNat n
    let meanY := m.meanY - (y - m.meanY) / ofNat n
    ⟨meanX, meanY, m.devX - (x - meanX) * (x - m.meanX), m.devY - (y - meanY) * (y - m.meanY),
      m.comoment - (x - meanX) * (y - m.meanY)⟩

end CoMoments

end Quantity

end ColumnQuery
