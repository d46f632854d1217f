/-! Sets of characters, written as tables of code points.

A table is a list of closed intervals, or of runs: intervals of which only every
`step`-th code point belongs to the set. Membership is a search through the
list, so a fact about a table can be checked entry by entry. -/
namespace RouteScaffold.Text

/-- Whether a character lies in one of the intervals. -/
def within (intervals : List (Nat × Nat)) (c : Char) : Bool :=
  intervals.any fun (first, last) => first ≤ c.toNat && c.toNat ≤ last

/-- Whether a character is one of `first`, `first + step`, … up to `last`. -/
def onRun (first last step : Nat) (c : Char) : Bool :=
  first ≤ c.toNat && c.toNat ≤ last && (c.toNat - first) % step == 0

/-- Whether a character lies on one of the runs. -/
def onRuns (runs : List (Nat × Nat × Nat)) (c : Char) : Bool :=
  runs.any fun (first, last, step) => onRun first last step c

end RouteScaffold.Text
