import Methodology.Yaml.Lexer
import Methodology.Yaml.Node.Basic

/-!
# From tokens to nodes

* `Handles`: what the handles of tags stand for.
* `nodeFrom`: the node at the start of a list of tokens, with what is left.
* `documentOf`: **the one document** of a text.
-/

namespace Methodology.Yaml

/-- What the handles of tags stand for. -/
abbrev Handles := List (List Char × TagText)

/-- The handles that need no directive. -/
def Handles.standard : Handles :=
  [(['!'], [some '!']), (['!', '!'], "tag:yaml.org,2002:".toList.map some)]

/-- The tag of a handle and what follows it. -/
def Handles.resolve (handles : Handles) (handle : List Char) (suffix : TagText) : Option TagText :=
  if handle.isEmpty then some suffix else (handles.lookup handle).map (· ++ suffix)

/-- What may stand in front of a node. -/
structure Properties where
  anchor : Option (List Char)
  tag : Option TagText

/-- An anchor and a tag, in either order. -/
def properties (handles : Handles) : List Token → Option (Properties × List Token)
  | .anchor name :: .tag handle suffix :: rest =>
    (handles.resolve handle suffix).map fun tag => (⟨some name, some tag⟩, rest)
  | .tag handle suffix :: .anchor name :: rest =>
    (handles.resolve handle suffix).map fun tag => (⟨some name, some tag⟩, rest)
  | .anchor name :: rest => some (⟨some name, none⟩, rest)
  | .tag handle suffix :: rest =>
    (handles.resolve handle suffix).map fun tag => (⟨none, some tag⟩, rest)
  | rest => some (⟨none, none⟩, rest)

/-- Whether one of these tokens is next. -/
def next (ts : List Token) (among : List Token) : Bool := ts.head?.any among.contains

/-- The node that `read` finds, or the empty one when one of the tokens that end it is next. -/
def unlessNext (among : List Token) (read : List Token → Option (Node (List Char) × List Token))
    (ts : List Token) : Option (Node (List Char) × List Token) :=
  if next ts among then some (.empty, ts) else read ts

/-- Past a comma between the parts of a flow collection. -/
def pastComma (first : Bool) (ts : List Token) : Option (List Token) :=
  if first then some ts
  else match ts with
    | .flowEntry :: rest => some rest
    | _ => none

mutual

/-- **The node at the start of the tokens.** `block` says whether a block collection may stand here
and `indentless` whether a block sequence may that is no further in. `fuel` bounds the steps. -/
def nodeFrom (handles : Handles) :
    Nat → Bool → Bool → List Token → Option (Node (List Char) × List Token)
  | 0, _, _, _ => none
  | _ + 1, _, _, .reference name :: rest => some (.reference name, rest)
  | fuel + 1, block, indentless, ts => do
    let (p, ts) ← properties handles ts
    match ts with
    | .scalar style text :: rest =>
      -- a tag that is an exclamation mark alone stays, on a scalar as on a collection: a key under it
      -- is refused, and the message shows the tag
      some (.scalar p.anchor p.tag style (String.ofList text), rest)
    | .flowSequenceStart :: rest =>
      (flowItems handles fuel true rest).map fun (items, rest) =>
        (.sequence p.anchor p.tag items, rest)
    | .flowMappingStart :: rest =>
      (flowEntries handles fuel true rest).map fun (entries, rest) =>
        (.mapping p.anchor p.tag entries, rest)
    | ts =>
      if indentless && next ts [.blockEntry] then
        (indentlessItems handles fuel ts).map fun (items, rest) =>
          (.sequence p.anchor p.tag items, rest)
      else if block && next ts [.blockSequenceStart] then
        (blockItems handles fuel ts.tail).map fun (items, rest) =>
          (.sequence p.anchor p.tag items, rest)
      else if block && next ts [.blockMappingStart] then
        (blockEntries handles fuel ts.tail).map fun (entries, rest) =>
          (.mapping p.anchor p.tag entries, rest)
      else if p.anchor.isSome || p.tag.isSome then some (.scalar p.anchor p.tag .plain "", ts)
      else none

/-- The items of a block sequence, up to its end. -/
def blockItems (handles : Handles) :
    Nat → List Token → Option (List (Node (List Char)) × List Token)
  | fuel + 1, .blockEntry :: rest => do
    let (item, rest) ← unlessNext [.blockEntry, .blockEnd] (nodeFrom handles fuel true false) rest
    let (items, rest) ← blockItems handles fuel rest
    some (item :: items, rest)
  | _ + 1, .blockEnd :: rest => some ([], rest)
  | _, _ => none

/-- The items of a block sequence that is no further in than the mapping around it. -/
def indentlessItems (handles : Handles) :
    Nat → List Token → Option (List (Node (List Char)) × List Token)
  | 0, _ => none
  | fuel + 1, .blockEntry :: rest => do
    let (item, rest) ←
      unlessNext [.blockEntry, .key, .value, .blockEnd] (nodeFrom handles fuel true false) rest
    let (items, rest) ← indentlessItems handles fuel rest
    some (item :: items, rest)
  | _ + 1, rest => some ([], rest)

/-- The entries of a block mapping, up to its end. -/
def blockEntries (handles : Handles) :
    Nat → List Token → Option (List (Node (List Char) × Node (List Char)) × List Token)
  | fuel + 1, .key :: rest => do
    let (key, rest) ← unlessNext [.key, .value, .blockEnd] (nodeFrom handles fuel true true) rest
    let (value, rest) ← match rest with
      | .value :: rest =>
        unlessNext [.key, .value, .blockEnd] (nodeFrom handles fuel true true) rest
      | rest => some (.empty, rest)
    let (entries, rest) ← blockEntries handles fuel rest
    some ((key, value) :: entries, rest)
  | _ + 1, .blockEnd :: rest => some ([], rest)
  | _, _ => none

/-- The items of a flow sequence, up to its end; an item may be a single pair of key and value. -/
def flowItems (handles : Handles) :
    Nat → Bool → List Token → Option (List (Node (List Char)) × List Token)
  | 0, _, _ => none
  | _ + 1, _, .flowSequenceEnd :: rest => some ([], rest)
  | fuel + 1, first, ts => do
    match ← pastComma first ts with
    | .flowSequenceEnd :: rest => some ([], rest)
    | .key :: rest =>
      let (pair, rest) ← flowPair handles fuel rest
      let (items, rest) ← flowItems handles fuel false rest
      some (.mapping none none [pair] :: items, rest)
    | ts =>
      let (item, rest) ← nodeFrom handles fuel false false ts
      let (items, rest) ← flowItems handles fuel false rest
      some (item :: items, rest)

/-- A pair that is an item of a flow sequence; an empty key takes the token behind it along. -/
def flowPair (handles : Handles) :
    Nat → List Token → Option ((Node (List Char) × Node (List Char)) × List Token)
  | 0, _ => none
  | fuel + 1, ts => do
    let (key, rest) ←
      if next ts [.value, .flowEntry, .flowSequenceEnd] then some (.empty, ts.tail)
      else nodeFrom handles fuel false false ts
    let (value, rest) ← match rest with
      | .value :: rest =>
        unlessNext [.flowEntry, .flowSequenceEnd] (nodeFrom handles fuel false false) rest
      | rest => some (.empty, rest)
    some ((key, value), rest)

/-- The entries of a flow mapping, up to its end. -/
def flowEntries (handles : Handles) :
    Nat → Bool → List Token → Option (List (Node (List Char) × Node (List Char)) × List Token)
  | 0, _, _ => none
  | _ + 1, _, .flowMappingEnd :: rest => some ([], rest)
  | fuel + 1, first, ts => do
    match ← pastComma first ts with
    | .flowMappingEnd :: rest => some ([], rest)
    | .key :: rest =>
      let (key, rest) ←
        unlessNext [.value, .flowEntry, .flowMappingEnd] (nodeFrom handles fuel false false) rest
      let (value, rest) ← match rest with
        | .value :: rest =>
          unlessNext [.flowEntry, .flowMappingEnd] (nodeFrom handles fuel false false) rest
        | rest => some (.empty, rest)
      let (entries, rest) ← flowEntries handles fuel false rest
      some ((key, value) :: entries, rest)
    | ts =>
      let (key, rest) ← nodeFrom handles fuel false false ts
      let (entries, rest) ← flowEntries handles fuel false rest
      some ((key, .empty) :: entries, rest)

end

/-- What the directives in front of a document say. -/
structure Directives where
  versioned : Bool
  handles : Handles

/-- The directives in front of a document. A version is stated once, and it is 1.1 or 1.2; a handle
is given its meaning once. -/
def directives : Directives → List Token → Option (Directives × List Token)
  | d, .version major minor :: rest =>
    if d.versioned || major != 1 || (minor != 1 && minor != 2) then none
    else directives { d with versioned := true } rest
  | d, .handle handle meaning :: rest =>
    if (d.handles.lookup handle).isSome then none
    else directives { d with handles := (handle, meaning) :: d.handles } rest
  | d, rest => some (d, rest)

/-- The tokens that end an empty document. -/
def endsDocument (t : Token) : Bool :=
  match t with
  | .version .. => true
  | .handle .. => true
  | .documentStart => true
  | .documentEnd => true
  | .streamEnd => true
  | _ => false

/-- The root of the first document, if there is a document, and the tokens behind it. -/
def rootFrom (ts : List Token) : Option (Option (Node (List Char)) × List Token) := do
  let fuel := 3 * ts.length + 3
  match ts with
  | [.streamEnd] => some (none, ts)
  | _ =>
    let (d, rest) ← directives ⟨false, []⟩ ts
    let handles := d.handles ++ Handles.standard
    match rest with
    | .documentStart :: rest =>
      if rest.head?.any endsDocument then some (some .empty, rest)
      else (nodeFrom handles fuel true false rest).map fun (n, rest) => (some n, rest)
    | rest =>
      if rest.length < ts.length then none
      else (nodeFrom handles fuel true false ts).map fun (n, rest) => (some n, rest)

/-- **The one document** of a text, if there is any in it; none for a text that is malformed or
holds more than one. -/
def documentOf (text : String) : Option (Option Document) := do
  let ts ← tokens text
  let (root, rest) ← rootFrom ts
  if rest.dropWhile (· == .documentEnd) = [.streamEnd] then
    match root with
    | none => some none
    | some root => (Document.ofRoot root).map some
  else none

end Methodology.Yaml
