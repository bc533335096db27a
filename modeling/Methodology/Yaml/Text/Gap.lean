import Methodology.Yaml.Cursor

/-!
# Gaps inside a scalar

Between two runs of characters a scalar may hold blanks and line breaks, which are folded: a single
break reads as a space, and of several the first one is dropped.

* `Gap`, `gapFrom`: the blanks and breaks at a place.
* `Gap.folded`: **what a gap reads as**.
-/

namespace Methodology.Yaml

/-- The blanks in front of the first line break, the breaks, and the place behind them. -/
structure Gap where
  blanks : List Char
  breaks : List Char
  next : Cursor

/-- A gap that starts at a place. -/
def Gap.start (c : Cursor) : Gap := ⟨[], [], c⟩

/-- The gap grown to its end; none where a tab stands in the indentation of a later line, left of
`indent`. `fuel` bounds its length. -/
def gapFrom (indent : Int) : Nat → Gap → Option Gap
  | 0, g => some g
  | fuel + 1, g =>
    match g.next.peek with
    | none => some g
    | some x =>
      if isBlank x then
        if g.breaks.isEmpty then
          gapFrom indent fuel { g with blanks := g.blanks ++ [x], next := g.next.skip 1 }
        else if x = '\t' ∧ (g.next.column : Int) < indent then none
        else gapFrom indent fuel { g with next := g.next.skip 1 }
      else if isBreak x then
        gapFrom indent fuel ⟨[], g.breaks ++ [breakChar x], g.next.skipLine⟩
      else some g

/-- **What a gap reads as.** -/
def Gap.folded (g : Gap) : List Char :=
  match g.breaks with
  | [] => g.blanks
  | '\n' :: [] => [' ']
  | '\n' :: more => more
  | breaks => breaks

end Methodology.Yaml
