/-!
# Tab stops

One flag per column tells whether a tab stops there.

Main definitions:

- {lit}`TabStops.regular`: stops at a constant stride from column 0.
- {lit}`TabStops.nextFrom`, {lit}`TabStops.prevFrom`: the nearest stop on
  either side of a column.
-/

namespace GraphicsTerminal

/-- One flag per column. -/
structure TabStops where
  stops : Array Bool
deriving DecidableEq, Repr

namespace TabStops

/-- The tab step of a terminal that was just reset. -/
abbrev defaultStep : Nat := 8

/-- The distance between the stops that a step sets: one less than the step,
but at least one. -/
def stride (step : Nat) : Nat := max (step - 1) 1

/-- Stops at every multiple of the stride. -/
def regular (columns step : Nat) : TabStops :=
  ⟨Array.ofFn fun column : Fin columns => column.val % stride step == 0⟩

/-- Stops for a number of columns at the default step. -/
def initial (columns : Nat) : TabStops := regular columns defaultStep

/-- Whether a tab stops at the column. -/
def isSet (tabs : TabStops) (column : Nat) : Bool := tabs.stops[column]?.getD false

/-- Replace all stops by those of a step. -/
def setDefault (tabs : TabStops) (step : Nat) : TabStops :=
  regular tabs.stops.size step

/-- Remove all stops. -/
def clearAll (tabs : TabStops) : TabStops :=
  ⟨Array.replicate tabs.stops.size false⟩

/-- Set a stop; a column outside has no effect. -/
def set (tabs : TabStops) (column : Nat) : TabStops :=
  ⟨tabs.stops.setIfInBounds column true⟩

/-- Remove a stop; a column outside has no effect. -/
def clear (tabs : TabStops) (column : Nat) : TabStops :=
  ⟨tabs.stops.setIfInBounds column false⟩

/-- The columns with a stop, from left to right. -/
def columns (tabs : TabStops) : List Nat :=
  (List.range tabs.stops.size).filter tabs.isSet

/-- The first stop to the right of a column, or the column itself. -/
def nextFrom (tabs : TabStops) (column : Nat) : Nat :=
  ((List.range' (column + 1) (tabs.stops.size - (column + 1))).find? tabs.isSet).getD
    column

/-- The first stop to the left of a column, or the column itself. -/
def prevFrom (tabs : TabStops) (column : Nat) : Nat :=
  ((List.range (min column tabs.stops.size)).reverse.find? tabs.isSet).getD column

end TabStops

end GraphicsTerminal
