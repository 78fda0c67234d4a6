-- Texts and tables over code points. A text is its list of characters. A property of
-- characters is a list of closed ranges that ascend, and a map between cases is a list of
-- runs that ascend. Both are read from the front, and the reading stops early.

namespace SpanishNumerals

/-- A text is the list of its characters. -/
abbrev Text := List Char

/-! ## Ranges -/

/-- Whether the code point `n` lies in one of the closed ranges. The ranges ascend, so the
search ends at the first one that begins after `n`. -/
def inRanges (n : Nat) : List (Nat × Nat) → Bool
  | [] => false
  | (first, last) :: rest => if n < first then false else n ≤ last || inRanges n rest

/-! ## Runs -/

/-- The image of the code point `n` under the runs `(first, last, step, target)`, which
ascend. A run sends each `step`-th code point from `first` to `last` as far as it sends
`first` to `target`; what stands in no run is its own image. -/
def alongRuns (n : Nat) : List (Nat × Nat × Nat × Nat) → Nat
  | [] => n
  | (first, last, step, target) :: rest =>
    if n < first then n
    else if n ≤ last then (if (n - first) % step = 0 then target + (n - first) else n)
    else alongRuns n rest

end SpanishNumerals
