import Methodology.Instant.Basic
import Methodology.Uuid.Basic

/-!
# Fresh values

What a run draws from outside, such as fresh identifiers and readings of a clock, as the endless
sequence of the values drawn.

* `Supply`: the first value drawn, the second, and so on.
* `Supply.next`: the value drawn next, with what is left.
* `Supply.unfold`: the values that a stepping state hands out.
* `Fresh`: the uuids and the readings of the clock that a run draws on.
* `Fresh.uuid`, `Fresh.instant`: the next of each, or the one that is given.
-/

namespace Methodology

/-! ## Supplies -/

/-- The values that are drawn, in the order of the draws. -/
def Supply (α : Type) : Type := Nat → α

namespace Supply

variable {α σ : Type}

/-- The value drawn next, and the supply that is left. -/
def next (s : Supply α) : α × Supply α := (s 0, fun k => s (k + 1))

/-- The supply that hands out one value for ever. -/
def constant (a : α) : Supply α := fun _ => a

/-- The values of a list, and one value for ever when they run out. -/
def ofList (rest : α) (xs : List α) : Supply α := fun k => xs.getD k rest

/-- The state that a stepping state reaches after so many steps. -/
def after (step : σ → α × σ) (start : σ) : Nat → σ
  | 0 => start
  | k + 1 => after step (step start).2 k

/-- The values that a stepping state hands out. -/
def unfold (step : σ → α × σ) (start : σ) : Supply α := fun k => (step (after step start k)).1

/-- The first values of the supply. -/
def take (s : Supply α) (n : Nat) : List α := (List.range n).map s

end Supply

/-! ## Uuids and readings of the clock -/

/-- What a run draws on for values that its input leaves out. -/
structure Fresh where
  uuids : Supply Uuid
  clock : Supply Instant

namespace Fresh

/-- The uuid that is given, or else the next one. -/
def uuid (fresh : Fresh) : Option Uuid → Uuid × Fresh
  | some u => (u, fresh)
  | none => (fresh.uuids.next.1, { fresh with uuids := fresh.uuids.next.2 })

/-- The instant that is given, or else the next reading of the clock. -/
def instant (fresh : Fresh) : Option Instant → Instant × Fresh
  | some t => (t, fresh)
  | none => (fresh.clock.next.1, { fresh with clock := fresh.clock.next.2 })

end Fresh

end Methodology
