/-
  The aggregates: functions of the rows of a group.

  An aggregate takes field expressions and then constant parameters. Some aggregates are read
  off the running state of others, which they require; when rows are also removed, some need a
  further one. A required aggregate requires nothing itself.
-/
import ColumnQuery.Value.Basic

namespace ColumnQuery

inductive Aggregate where
  | count | valid | invalid | any | arrayAgg | distinct | arrayAggDistinct | mode
  | objectAgg | entriesAgg | sum | product | mean
  | variance | varianceP | stdev | stdevP
  | min | max | median | quantile | covariance | covarianceP | corr
deriving DecidableEq, Repr

namespace Aggregate

def all : List Aggregate :=
  [count, valid, invalid, any, arrayAgg, distinct, arrayAggDistinct, mode, objectAgg, entriesAgg,
    sum, product, mean, variance, varianceP, stdev, stdevP, min, max, median, quantile,
    covariance, covarianceP, corr]

def name : Aggregate → String
  | count => "count"
  | valid => "valid"
  | invalid => "invalid"
  | any => "any"
  | arrayAgg => "array_agg"
  | distinct => "distinct"
  | arrayAggDistinct => "array_agg_distinct"
  | mode => "mode"
  | objectAgg => "object_agg"
  | entriesAgg => "entries_agg"
  | sum => "sum"
  | product => "product"
  | mean => "mean"
  | variance => "variance"
  | varianceP => "variancep"
  | stdev => "stdev"
  | stdevP => "stdevp"
  | min => "min"
  | max => "max"
  | median => "median"
  | quantile => "quantile"
  | covariance => "covariance"
  | covarianceP => "covariancep"
  | corr => "corr"

/-- Looks an aggregate up; `average` is another name of the mean. -/
def lookup? (name : String) : Option Aggregate :=
  let name := if name = "average" then "mean" else name
  all.find? (·.name == name)

/-- The number of field expressions. -/
def fieldCount : Aggregate → Nat
  | count => 0
  | objectAgg | entriesAgg | covariance | covarianceP | corr => 2
  | _ => 1

/-- The greatest number of parameters. -/
def paramCount : Aggregate → Nat
  | quantile => 1
  | _ => 0

/-- The aggregates whose state is read. -/
def requires : Aggregate → List Aggregate
  | arrayAggDistinct | mode => [distinct]
  | entriesAgg => [objectAgg]
  | variance | varianceP | stdev | stdevP => [mean]
  | median | quantile => [arrayAgg]
  | covarianceP | corr => [covariance]
  | _ => []

/-- The aggregates whose state is read when a row is removed. -/
def requiresToRemove : Aggregate → List Aggregate
  | any | product | min | max => [arrayAgg]
  | _ => []

/-- What an aggregate depends on, with or without the removal of rows. -/
def dependencies (removing : Bool) (a : Aggregate) : List Aggregate :=
  a.requires ++ if removing then a.requiresToRemove else []

theorem dependencies_of_mem_dependencies (removing : Bool) (a b : Aggregate)
    (h : b ∈ a.dependencies removing) : b.dependencies removing = [] := by
  cases a <;> cases removing <;> simp_all [dependencies, requires, requiresToRemove]

end Aggregate

end ColumnQuery
