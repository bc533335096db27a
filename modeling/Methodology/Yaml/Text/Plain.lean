import Methodology.Yaml.Text.Gap

/-!
# Plain scalars

* `plainRun`: a run of characters without blanks.
* `plainScalar`: **a plain scalar**, runs with gaps between them.
-/

namespace Methodology.Yaml

/-- A run of characters, up to a blank, a break, a colon that ends a word or, in a flow collection,
a mark of it; a colon in front of such a mark or of a question mark is refused there. -/
def plainRun (flow : Bool) : List Char → Option (List Char × List Char)
  | [] => some ([], [])
  | c :: rest =>
    if isBlank c || isBreak c then some ([], c :: rest)
    else if flow && c == ':' && rest.head?.any fun d => isFlowMark d || d == '?' then none
    else if (c == ':' && endsWord rest.head?) || (flow && isFlowMark c) then some ([], c :: rest)
    else (plainRun flow rest).map fun (run, left) => (c :: run, left)

/-- A scalar that is read: its text and the place behind it. -/
structure Scanned where
  text : List Char
  next : Cursor
  /-- Whether a line break stands between the text and the place behind it. -/
  broken : Bool

/-- A plain scalar whose text so far is `text`, with a gap behind it. -/
def plainFrom (flow : Bool) (indent : Int) : Nat → List Char → Gap → Option Scanned
  | 0, _, _ => none
  | fuel + 1, text, g =>
    let stop : Scanned := ⟨text, g.next, !g.breaks.isEmpty⟩
    if g.next.atAnyMarker || g.next.peek == some '#' then some stop
    else do
      let (run, _) ← plainRun flow g.next.rest
      let stop : Scanned :=
        if run.isEmpty then stop else ⟨text ++ g.folded ++ run, g.next.skip run.length, false⟩
      match stop.next.peek with
      | none => some stop
      | some x =>
        if !(isBlank x || isBreak x) then some stop
        else do
          let g ← gapFrom indent (stop.next.rest.length + 1) (Gap.start stop.next)
          if !flow && (g.next.column : Int) < indent then
            some ⟨stop.text, g.next, !g.breaks.isEmpty⟩
          else plainFrom flow indent fuel stop.text g

/-- **A plain scalar**; `indent` is the least column of its later lines outside of flow
collections. -/
def plainScalar (flow : Bool) (indent : Int) (c : Cursor) : Option Scanned :=
  plainFrom flow indent (c.rest.length + 1) [] (Gap.start c)

end Methodology.Yaml
