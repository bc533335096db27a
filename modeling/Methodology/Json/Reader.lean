import Methodology.Json.Lexeme

/-!
# Reading data values

* `Json.valueFrom`: the value at the start of a text, with what is left.
* `Json.nextItem`, `Json.nextKey`, `Json.colon`: the steps between the items of a list and between
  the fields of a mapping.
* `Json.read`: **reading** a whole text.
-/

namespace Methodology.Json

/-- How many lists and mappings may stand inside one another, the outermost counted, plus one. -/
def depthLimit : Nat := 128

/-- Past the separator in front of the next item of a list, or none at the list's end, which is left
in place. -/
def nextItem (first : Bool) (cs : List Char) : Except Fault (Option (List Char)) :=
  match skipBlanks cs with
  | [] => .error (fault .endInList [] 0)
  | c :: rest =>
    if c = ']' then .ok none
    else if first then .ok (some (c :: rest))
    else if c = ',' then
      match skipBlanks rest with
      | [] => .error (fault .endInValue [] 0)
      | d :: more =>
        if d = ']' then .error (fault .trailingComma (d :: more) 1) else .ok (some (d :: more))
    else .error (fault .expectedListEnd (c :: rest) 1)

/-- Past the separator and the opening quote in front of the next key of a mapping, or none at the
mapping's end, which is left in place. -/
def nextKey (first : Bool) (cs : List Char) : Except Fault (Option (List Char)) :=
  match skipBlanks cs with
  | [] => .error (fault .endInObject [] 0)
  | c :: rest =>
    if c = '\x7d' then .ok none
    else if first then
      if c = '"' then .ok (some rest) else .error (fault .keyNotString (c :: rest) 1)
    else if c = ',' then
      match skipBlanks rest with
      | [] => .error (fault .endInValue [] 0)
      | d :: more =>
        if d = '"' then .ok (some more)
        else if d = '\x7d' then .error (fault .trailingComma (d :: more) 1)
        else .error (fault .keyNotString (d :: more) 1)
    else .error (fault .expectedObjectEnd (c :: rest) 1)

/-- Past the colon behind a key. -/
def colon (cs : List Char) : Except Fault (List Char) :=
  match skipBlanks cs with
  | [] => .error (fault .endInObject [] 0)
  | c :: rest => if c = ':' then .ok rest else .error (fault .expectedColon (c :: rest) 1)

/-- The fields of a mapping in the order of their keys; of two fields with one key the later stays.
-/
def sortFields (fields : List (String × Json)) : List (String × Json) :=
  fields.foldl (fun sorted f => insertField f.1 f.2 sorted) []

mutual

/-- **The value at the start of a text.** `fuel` bounds the steps and `depth` the nesting. -/
def valueFrom : Nat → Nat → List Char → Except Fault (Json × List Char)
  | 0, _, _ => .error (fault .endInValue [] 0)
  | fuel + 1, depth, cs =>
    match skipBlanks cs with
    | [] => .error (fault .endInValue [] 0)
    | 'n' :: rest => (word ['u', 'l', 'l'] rest).map fun rest => (.null, rest)
    | 't' :: rest => (word ['r', 'u', 'e'] rest).map fun rest => (.bool true, rest)
    | 'f' :: rest => (word ['a', 'l', 's', 'e'] rest).map fun rest => (.bool false, rest)
    | '-' :: rest => (numberFrom true rest).map fun (n, rest) => (.number n, rest)
    | '"' :: rest => (stringFrom rest).map fun (s, rest) => (.string s, rest)
    | '[' :: rest =>
      if depth ≤ 1 then .error (fault .tooDeep ('[' :: rest) 1)
      else (itemsFrom fuel (depth - 1) true rest).map fun (items, rest) => (.array items, rest)
    | '\x7b' :: rest =>
      if depth ≤ 1 then .error (fault .tooDeep ('\x7b' :: rest) 1)
      else (fieldsFrom fuel (depth - 1) true rest).map fun (fields, rest) =>
        (.object (sortFields fields), rest)
    | c :: rest =>
      if Text.isDigit c then (numberFrom false (c :: rest)).map fun (n, rest) => (.number n, rest)
      else .error (fault .expectedValue (c :: rest) 1)

/-- The items of a list up to its end. -/
def itemsFrom : Nat → Nat → Bool → List Char → Except Fault (List Json × List Char)
  | 0, _, _, _ => .error (fault .endInList [] 0)
  | fuel + 1, depth, first, cs => do
    match ← nextItem first cs with
    | none => .ok ([], (skipBlanks cs).tail)
    | some cs =>
      let (item, cs) ← valueFrom fuel depth cs
      let (items, cs) ← itemsFrom fuel depth false cs
      .ok (item :: items, cs)

/-- The fields of a mapping up to its end, in the order of the text. -/
def fieldsFrom : Nat → Nat → Bool → List Char → Except Fault (List (String × Json) × List Char)
  | 0, _, _, _ => .error (fault .endInObject [] 0)
  | fuel + 1, depth, first, cs => do
    match ← nextKey first cs with
    | none => .ok ([], (skipBlanks cs).tail)
    | some cs =>
      let (key, cs) ← stringFrom cs
      let cs ← colon cs
      let (value, cs) ← valueFrom fuel depth cs
      let (fields, cs) ← fieldsFrom fuel depth false cs
      .ok ((key, value) :: fields, cs)

end

/-- Nothing but blanks is left. -/
def finish (cs : List Char) : Except Fault Unit :=
  match skipBlanks cs with
  | [] => .ok ()
  | c :: rest => .error (fault .trailingCharacters (c :: rest) 1)

/-- **Reading** a whole text. -/
def read (text : String) : Except Fault Json := do
  let (value, rest) ← valueFrom (2 * text.length + 2) depthLimit text.toList
  finish rest
  .ok value

end Methodology.Json
