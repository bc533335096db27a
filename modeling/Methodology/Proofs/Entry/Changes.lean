import Methodology.Proofs.Entry.WellFormed

/-!
# Runs of changes

A caller makes an entry and then changes it, one field at a time. A change that is refused leaves
the entry as it was.

* `Editable`: entries of one kind with their constructor and their changes; **the one law** is that
  a change does what the constructor does with one argument replaced.
* `edited`, `answers`, `accepted`: what a run of changes leaves, what its calls answer, and the
  changes that are not refused.
* `lastOf`: the last value that a run gives for a field.
* `make_last_accepted`: **the normal form**, for every kind of entry.
* `answers_eq_map`, `edited_exchange`: no call depends on the calls before it, and changes of
  different fields may be exchanged.
* **`changes_normalForm`**: all of it, for each kind of entry.
-/

namespace Methodology

open Text Result

/-- The last value that is picked, or the given one if none is. -/
def lastOf {γ β : Type} (pick : γ → Option β) (cs : List γ) (first : β) : β :=
  (cs.filterMap pick).getLastD first

theorem lastOf_cons {γ β : Type} (pick : γ → Option β) (c : γ) (cs : List γ) (first : β) :
    lastOf pick (c :: cs) first = lastOf pick cs (lastOf pick [c] first) := by
  cases h : pick c with
  | none => simp only [lastOf, List.filterMap_cons, h, List.filterMap_nil, List.getLastD_nil]
  | some x =>
    simp only [lastOf, List.filterMap_cons, h, List.filterMap_nil, List.getLastD_cons,
      List.getLastD_nil]

/-- **A kind of entry** with its constructor and its changes. -/
class Editable (α : Type) where
  /-- What the constructor is given. -/
  Args : Type
  Change : Type
  make : Args → Except FieldError α
  apply : α → Change → Except FieldError α
  /-- The key of the field that a change sets. -/
  field : Change → String
  /-- The arguments, those of the changed fields being the last that the changes give. -/
  last : List Change → Args → Args
  last_nil (args : Args) : last [] args = args
  last_cons (c : Change) (cs : List Change) (args : Args) :
    last (c :: cs) args = last cs (last [c] args)
  last_exchange {c d : Change} (h : field c ≠ field d) (args : Args) :
    last [c, d] args = last [d, c] args
  /-- **The law**: a change does what the constructor does with one argument replaced. -/
  apply_eq {args : Args} {a : α} (h : make args = .ok a) (c : Change) :
    apply a c = make (last [c] args)
  /-- Whether an argument is refused does not depend on the others, if those are not refused. -/
  refused {args args' : Args} {a a' : α} (h : make args = .ok a) (h' : make args' = .ok a')
    {c : Change} {e : FieldError} (he : make (last [c] args) = .error e) :
    make (last [c] args') = .error e

namespace Editable

variable {α : Type} [Editable α]

/-- The entry after a change, or as it was if the change is refused. -/
def edit (a : α) (c : Change α) : α :=
  match apply a c with
  | .ok b => b
  | .error _ => a

/-- **What a run of changes leaves.** -/
def edited (a : α) (cs : List (Change α)) : α := cs.foldl edit a

/-- What the call with a change answers. -/
def answer (a : α) (c : Change α) : Except FieldError Unit := (apply a c).map fun _ => ()

/-- **What the calls of a run answer.** -/
def answers (a : α) : List (Change α) → List (Except FieldError Unit)
  | [] => []
  | c :: cs => answer a c :: answers (edit a c) cs

/-- The changes of a run that are not refused. -/
def accepted (a : α) : List (Change α) → List (Change α)
  | [] => []
  | c :: cs =>
    match apply a c with
    | .ok b => c :: accepted b cs
    | .error _ => accepted a cs

theorem edited_append (a : α) (cs ds : List (Change α)) :
    edited a (cs ++ ds) = edited (edited a cs) ds := List.foldl_append

/-! ## The normal form -/

/-- **The normal form.** A run leaves what the constructor makes of the last arguments. -/
theorem make_last_accepted {args : Args α} {a : α} (h : make args = .ok a)
    (cs : List (Change α)) : make (last (accepted a cs) args) = .ok (edited a cs) := by
  induction cs generalizing args a with
  | nil => rw [accepted, last_nil, h, edited, List.foldl_nil]
  | cons c cs ih =>
    rw [accepted, edited, List.foldl_cons, ← edited]
    cases hc : apply a c with
    | ok b =>
      have hb : edit a c = b := by rw [edit, hc]
      rw [hb, last_cons]
      exact ih ((apply_eq h c).symm.trans hc)
    | error e =>
      have ha : edit a c = a := by rw [edit, hc]
      rw [ha]
      exact ih h

theorem exists_make_edited {args : Args α} {a : α} (h : make args = .ok a)
    (cs : List (Change α)) : ∃ args', make args' = .ok (edited a cs) :=
  ⟨_, make_last_accepted h cs⟩

/-! ## Calls that do not depend on each other -/

theorem answer_eq {args args' : Args α} {a a' : α} (h : make args = .ok a)
    (h' : make args' = .ok a') (c : Change α) : answer a c = answer a' c := by
  rw [answer, answer, apply_eq h, apply_eq h']
  cases hc : make (last [c] args) with
  | error e => rw [refused h h' hc]
  | ok b =>
    cases hc' : make (last [c] args') with
    | error e => cases hc.symm.trans (refused h' h hc')
    | ok b' => rfl

theorem answers_eq_map {args : Args α} {a : α} (h : make args = .ok a) (cs : List (Change α)) :
    answers a cs = cs.map (answer a) := by
  have hfrom : ∀ {args' : Args α} {b : α}, make args' = .ok b →
      answers b cs = cs.map (answer a) := by
    intro args' b hb
    induction cs generalizing args' b with
    | nil => rfl
    | cons c cs ih =>
      obtain ⟨args'', hedit⟩ := exists_make_edited hb [c]
      rw [answers, List.map_cons, answer_eq hb h, ih (b := edit b c) hedit]
  exact hfrom h

theorem accepted_eq_self {args : Args α} {a : α} (h : make args = .ok a)
    (hall : ∀ c, answer a c = .ok ()) (cs : List (Change α)) : accepted a cs = cs := by
  induction cs generalizing args a with
  | nil => rfl
  | cons c cs ih =>
    obtain ⟨b, hb, -⟩ := map_eq_ok.mp (hall c)
    have hmake : make (last [c] args) = .ok b := (apply_eq h c).symm.trans hb
    rw [accepted, hb]
    simp only
    rw [ih hmake fun d => (answer_eq hmake h d).trans (hall d)]

/-- If no change of a kind of entry is refused, a run leaves what the constructor makes of the last
arguments of all. -/
theorem edited_eq {args : Args α} {a : α} (h : make args = .ok a)
    (hall : ∀ c, answer a c = .ok ()) {cs : List (Change α)} {b : α}
    (hb : make (last cs args) = .ok b) : edited a cs = b := by
  have hnormal := make_last_accepted h cs
  rw [accepted_eq_self h hall] at hnormal
  exact Except.ok.inj (hnormal.symm.trans hb)

theorem answer_eq_error {args : Args α} {a : α} (h : make args = .ok a) {c : Change α}
    {e : FieldError} : answer a c = .error e ↔ make (last [c] args) = .error e := by
  rw [answer, apply_eq h, map_eq_error]

theorem answer_eq_ok {args : Args α} {a b : α} (h : make args = .ok a) {c : Change α}
    (hb : make (last [c] args) = .ok b) : answer a c = .ok () := by
  rw [answer, apply_eq h, hb, map_ok]

theorem edit_eq {args : Args α} {a : α} (h : make args = .ok a) (c : Change α) :
    edit a c = match make (last [c] args) with
      | .ok b => b
      | .error _ => a := by
  rw [edit, apply_eq h]

theorem edit_comm {args : Args α} {a : α} (h : make args = .ok a) {c d : Change α}
    (hfield : field c ≠ field d) : edit (edit a c) d = edit (edit a d) c := by
  have hlast : last [d] (last [c] args) = last [c] (last [d] args) := by
    rw [← last_cons, ← last_cons, last_exchange hfield]
  cases hc : make (last [c] args) with
  | error e =>
    have hskip : edit a c = a := by rw [edit_eq h, hc]
    rw [hskip]
    cases hd : make (last [d] args) with
    | error e' => rw [show edit a d = a by rw [edit_eq h, hd], hskip]
    | ok b => rw [show edit a d = b by rw [edit_eq h, hd], edit_eq hd, refused h hd hc]
  | ok b =>
    rw [show edit a c = b by rw [edit_eq h, hc], edit_eq hc]
    cases hd : make (last [d] args) with
    | error e =>
      rw [show edit a d = a by rw [edit_eq h, hd], refused h hc hd, edit_eq h, hc]
    | ok b' =>
      rw [show edit a d = b' by rw [edit_eq h, hd], edit_eq hd, hlast]
      cases hboth : make (last [c] (last [d] args)) with
      | ok b'' => rfl
      | error e => cases hc.symm.trans (refused hd h hboth)

/-- **Changes of different fields** may be exchanged at any place of a run. -/
theorem edited_exchange {args : Args α} {a : α} (h : make args = .ok a) {c d : Change α}
    (hfield : field c ≠ field d) (cs ds : List (Change α)) :
    edited a (cs ++ c :: d :: ds) = edited a (cs ++ d :: c :: ds) := by
  obtain ⟨args', hargs⟩ := exists_make_edited h cs
  rw [edited_append, edited_append, edited, List.foldl_cons, List.foldl_cons,
    edit_comm hargs hfield]
  rfl

/-- The calls of the runs from an entry do not depend on each other: each answers what it would
answer first of all, and calls that set different fields may be exchanged. -/
structure Independent (a : α) : Prop where
  answers : ∀ cs, answers a cs = cs.map (answer a)
  exchange : ∀ cs ds c d, field c ≠ field d →
    edited a (cs ++ c :: d :: ds) = edited a (cs ++ d :: c :: ds)

theorem independent {args : Args α} {a : α} (h : make args = .ok a) : Independent a where
  answers := answers_eq_map h
  exchange cs ds _ _ hfield := edited_exchange h hfield cs ds

end Editable

open Editable

/-! ## Modifiers -/

namespace Modifier

/-- What a modifier is made of. -/
structure Args where
  name : String
  title : String

/-- The name that a change gives. -/
def Change.name? : Change → Option String
  | .name s => some s
  | _ => none

/-- The title that a change gives. -/
def Change.title? : Change → Option String
  | .title s => some s
  | _ => none

theorem make_eq_error {name title : String} {e : FieldError} (h : make name title = .error e)
    (title' : String) : make name title' = .error e :=
  make_eq_error_iff.mpr (make_eq_error_iff.mp h)

theorem make_name_eq {name title : String} {m : Modifier} (h : make name title = .ok m)
    (title' : String) : make m.name title' = make name title' := by
  have hname : m.name = trim name := congrArg Modifier.name (make_eq_ok_iff.mp h).2
  have htrim : trim (trim name) = trim name := isTrimmed_trim name
  simp only [make, hname, htrim]

theorem make_title_eq {name title : String} {m : Modifier} (h : make name title = .ok m)
    (name' : String) : make name' m.title = make name' title := by
  have htitle : m.title = trim title := congrArg Modifier.title (make_eq_ok_iff.mp h).2
  have htrim : trim (trim title) = trim title := isTrimmed_trim title
  simp only [make, htitle, htrim]

theorem exists_make {name title : String} {m : Modifier} (h : make name title = .ok m)
    (title' : String) : ∃ m', make name title' = .ok m' :=
  exists_make_iff.mpr (exists_make_iff.mp ⟨m, h⟩)

instance : Editable Modifier where
  Args := Args
  Change := Change
  make args := make args.name args.title
  apply := apply
  field
    | .name _ => "name"
    | .title _ => "title"
  last cs args := ⟨lastOf Change.name? cs args.name, lastOf Change.title? cs args.title⟩
  last_nil _ := rfl
  last_cons _ _ _ := congrArg₂ Args.mk (lastOf_cons _ _ _ _) (lastOf_cons _ _ _ _)
  last_exchange {c d} h _ := by cases c <;> cases d <;> first | rfl | exact absurd rfl h
  apply_eq h c := by
    cases c with
    | name name => exact make_title_eq h name
    | title title => exact make_name_eq h title
  refused {args args' a a'} h h' c e he := by
    cases c with
    | name name => exact make_eq_error he args'.title
    | title title =>
      obtain ⟨m, hm⟩ := exists_make h title
      cases hm.symm.trans he

theorem changes {name title : String} {m : Modifier} (h : make name title = .ok m) :
    Independent m ∧
    (∀ cs, make (lastOf Change.name? (accepted m cs) name)
      (lastOf Change.title? (accepted m cs) title) = .ok (edited m cs)) ∧
    (∀ n t e, answer m (Change.name n) = .error e ↔ make n t = .error e) ∧
    ∀ t, answer m (Change.title t) = .ok () := by
  have hmade : Editable.make (⟨name, title⟩ : Args) = .ok m := h
  refine ⟨independent hmade, make_last_accepted hmade, fun n t e => ?_, fun t => ?_⟩
  · rw [answer_eq_error hmade]
    exact ⟨fun he => make_eq_error he t, fun he => make_eq_error he title⟩
  · obtain ⟨m', hm'⟩ := exists_make h t
    exact answer_eq_ok hmade hm'

end Modifier

/-! ## Categories -/

namespace Category

/-- What a category is made of. -/
structure Args where
  ids : Supply Uuid
  name : Term
  description : Option String

/-- The name that a change gives. -/
def Change.name? : Change → Option Term
  | .name t => some t
  | _ => none

/-- The description that a change gives. -/
def Change.description? : Change → Option (Option String)
  | .description s => some s
  | _ => none

instance : Editable Category where
  Args := Args
  Change := Change
  make args := .ok (mint args.ids args.name args.description).1
  apply c change := .ok (c.apply change)
  field
    | .name _ => "name"
    | .description _ => "description"
  last cs args :=
    ⟨args.ids, lastOf Change.name? cs args.name, lastOf Change.description? cs args.description⟩
  last_nil _ := rfl
  last_cons _ _ _ := congrArg₂ (Args.mk _) (lastOf_cons _ _ _ _) (lastOf_cons _ _ _ _)
  last_exchange {c d} h _ := by cases c <;> cases d <;> first | rfl | exact absurd rfl h
  apply_eq h c := by cases h; cases c <;> rfl
  refused _ _ _ _ he := nomatch he

theorem changes (ids : Supply Uuid) (name : Term) (description : Option String) :
    Independent (mint ids name description).1 ∧
    (∀ c, answer (mint ids name description).1 c = .ok ()) ∧
    ∀ cs, edited (mint ids name description).1 cs =
      (mint ids (lastOf Change.name? cs name) (lastOf Change.description? cs description)).1 := by
  have hmade : Editable.make (⟨ids, name, description⟩ : Args) =
    .ok (mint ids name description).1 := rfl
  exact ⟨independent hmade, fun _ => rfl, fun _ => edited_eq hmade (fun _ => rfl) rfl⟩

end Category

/-! ## Actions -/

namespace Action

/-- What an action is made of. -/
structure Args where
  name : String
  title : String
  description : String
  word : String

/-- The name that a change gives. -/
def Change.name? : Change → Option String
  | .name s => some s
  | _ => none

/-- The title that a change gives. -/
def Change.title? : Change → Option String
  | .title s => some s
  | _ => none

/-- The description that a change gives. -/
def Change.description? : Change → Option String
  | .description s => some s
  | _ => none

/-- The word for a shape that a change gives. -/
def Change.word? : Change → Option String
  | .shape s => some s
  | _ => none

theorem make_unique (name title description : String) :
    make name title description "unique" = .ok (unique name title description) := rfl

theorem make_eq_error {name title description word : String} {e : FieldError} :
    make name title description word = .error e ↔ Shape.read word = .error e := by
  rw [make, map_eq_error]

theorem ofParts_congr {name name' title title' description description' : String}
    (hname : trim name = trim name') (htitle : trim title = trim title')
    (hdescription : trim description = trim description') (shape : Shape) :
    ofParts name title description shape = ofParts name' title' description' shape := by
  simp only [ofParts, hname, htitle, hdescription]

instance : Editable Action where
  Args := Args
  Change := Change
  make args := make args.name args.title args.description args.word
  apply := apply
  field
    | .name _ => "name"
    | .title _ => "title"
    | .description _ => "description"
    | .shape _ => "structure"
  last cs args :=
    ⟨lastOf Change.name? cs args.name, lastOf Change.title? cs args.title,
      lastOf Change.description? cs args.description, lastOf Change.word? cs args.word⟩
  last_nil _ := rfl
  last_cons c cs args := by
    simp only [lastOf_cons _ c cs]
  last_exchange {c d} h _ := by cases c <;> cases d <;> first | rfl | exact absurd rfl h
  apply_eq {args a} h c := by
    obtain ⟨shape, hshape, rfl⟩ := map_eq_ok.mp h
    have hshaped : ∀ name title description,
        make name title description args.word = .ok (ofParts name title description shape) :=
      fun _ _ _ => map_eq_ok.mpr ⟨shape, hshape, rfl⟩
    have hname := isTrimmed_trim args.name
    have htitle := isTrimmed_trim args.title
    have hdescription := isTrimmed_trim args.description
    cases c with
    | name s =>
      exact (congrArg _ (ofParts_congr rfl htitle hdescription shape)).trans (hshaped _ _ _).symm
    | title s =>
      exact (congrArg _ (ofParts_congr hname rfl hdescription shape)).trans (hshaped _ _ _).symm
    | description s =>
      exact (congrArg _ (ofParts_congr hname htitle rfl shape)).trans (hshaped _ _ _).symm
    | shape word =>
      have hparts := funext (ofParts_congr hname htitle hdescription)
      exact congrArg (fun f => (Shape.read word).map f) hparts
  refused {args args' a a'} h h' c e he := by
    obtain ⟨shape, hshape, -⟩ := map_eq_ok.mp h
    have hword := make_eq_error.mp he
    cases c with
    | shape word => exact make_eq_error.mpr hword
    | _ => cases hshape.symm.trans hword

theorem changes {name title description word : String} {a : Action}
    (h : make name title description word = .ok a) :
    Independent a ∧
    (∀ cs, make (lastOf Change.name? (accepted a cs) name)
      (lastOf Change.title? (accepted a cs) title)
      (lastOf Change.description? (accepted a cs) description)
      (lastOf Change.word? (accepted a cs) word) = .ok (edited a cs)) ∧
    (∀ n t d w e, answer a (Change.shape w) = .error e ↔ make n t d w = .error e) ∧
    ∀ c : Change, c.word? = none → answer a c = .ok () := by
  have hmade : Editable.make (⟨name, title, description, word⟩ : Args) = .ok a := h
  refine ⟨independent hmade, make_last_accepted hmade, fun n t d w e => ?_, fun c hc => ?_⟩
  · rw [answer_eq_error hmade]
    exact make_eq_error.trans make_eq_error.symm
  · cases c with
    | shape word => cases hc
    | _ => rfl

end Action

/-! ## Scripts -/

namespace Script

/-- What a script is made of. -/
structure Args where
  ids : Supply Uuid
  text : String

/-- The text that a change gives. -/
def Change.text? : Change → Option String
  | .text s => some s

instance : Editable Script where
  Args := Args
  Change := Change
  make args := .ok (mint args.ids args.text).1
  apply s change := .ok (s.apply change)
  field
    | .text _ => "script"
  last cs args := ⟨args.ids, lastOf Change.text? cs args.text⟩
  last_nil _ := rfl
  last_cons _ _ _ := congrArg (Args.mk _) (lastOf_cons _ _ _ _)
  last_exchange {c d} h _ := by cases c; cases d; exact absurd rfl h
  apply_eq h c := by cases h; cases c; rfl
  refused _ _ _ _ he := nomatch he

theorem changes (ids : Supply Uuid) (text : String) :
    Independent (mint ids text).1 ∧
    (∀ c, answer (mint ids text).1 c = .ok ()) ∧
    ∀ cs, edited (mint ids text).1 cs = (mint ids (lastOf Change.text? cs text)).1 := by
  have hmade : Editable.make (⟨ids, text⟩ : Args) = .ok (mint ids text).1 := rfl
  exact ⟨independent hmade, fun _ => rfl, fun _ => edited_eq hmade (fun _ => rfl) rfl⟩

end Script

/-! ## Stamps -/

namespace Stamp

/-- What a stamp is made of. -/
structure Args where
  now : Instant
  name : Option String
  description : Option String
  updated : Option Instant

/-- The name that a change gives. -/
def Change.name? : Change → Option (Option String)
  | .name s => some s
  | _ => none

/-- The description that a change gives. -/
def Change.description? : Change → Option (Option String)
  | .description s => some s
  | _ => none

/-- The instant that a change gives. -/
def Change.updated? : Change → Option (Option Instant)
  | .updated t => some (some t)
  | _ => none

instance : Editable Stamp where
  Args := Args
  Change := Change
  make args := .ok (make args.now args.name args.description args.updated)
  apply s change := .ok (s.apply change)
  field
    | .name _ => "name"
    | .description _ => "description"
    | .updated _ => "updated"
  last cs args :=
    ⟨args.now, lastOf Change.name? cs args.name, lastOf Change.description? cs args.description,
      lastOf Change.updated? cs args.updated⟩
  last_nil _ := rfl
  last_cons c cs args := by
    simp only [lastOf_cons _ c cs]
  last_exchange {c d} h _ := by cases c <;> cases d <;> first | rfl | exact absurd rfl h
  apply_eq h c := by cases h; cases c <;> rfl
  refused _ _ _ _ he := nomatch he

theorem changes (now : Instant) (name description : Option String) (updated : Option Instant) :
    Independent (make now name description updated) ∧
    (∀ c, answer (make now name description updated) c = .ok ()) ∧
    ∀ cs, edited (make now name description updated) cs =
      make now (lastOf Change.name? cs name) (lastOf Change.description? cs description)
        (lastOf Change.updated? cs updated) := by
  have hmade : Editable.make (⟨now, name, description, updated⟩ : Args) =
    .ok (make now name description updated) := rfl
  exact ⟨independent hmade, fun _ => rfl, fun _ => edited_eq hmade (fun _ => rfl) rfl⟩

end Stamp

/-! ## All of them -/

/-- **Runs of changes have a normal form.** For an entry of each kind, however it was made, and
every run of changes, where a change that is refused leaves the entry as it was:

* the run leaves what the constructor makes of the last argument of each field that was accepted, or
  else of the one that the entry was made of; a category and a script keep the uuid they were minted
  with, and a stamp the reading of the clock, if no instant was given;
* a modifier's name and the word for an action's shape are refused when the constructor refuses
  them, with its error, whatever the other arguments are; no other change is ever refused;
* no answer depends on the calls before it, and calls for different fields may be exchanged. -/
theorem changes_normalForm :
    (∀ name title m, Modifier.make name title = .ok m →
      Independent m ∧
      (∀ cs, Modifier.make (lastOf Modifier.Change.name? (accepted m cs) name)
        (lastOf Modifier.Change.title? (accepted m cs) title) = .ok (edited m cs)) ∧
      (∀ n t e, answer m (Modifier.Change.name n) = .error e ↔ Modifier.make n t = .error e) ∧
      ∀ t, answer m (Modifier.Change.title t) = .ok ()) ∧
    (∀ ids name description,
      Independent (Category.mint ids name description).1 ∧
      (∀ c, answer (Category.mint ids name description).1 c = .ok ()) ∧
      ∀ cs, edited (Category.mint ids name description).1 cs =
        ⟨ids.next.1, (lastOf Category.Change.name? cs name).normalized,
          (lastOf Category.Change.description? cs description).map trim⟩) ∧
    (∀ name title description,
      Action.make name title description "unique" = .ok (Action.unique name title description)) ∧
    (∀ name title description word a, Action.make name title description word = .ok a →
      Independent a ∧
      (∀ cs, Action.make (lastOf Action.Change.name? (accepted a cs) name)
        (lastOf Action.Change.title? (accepted a cs) title)
        (lastOf Action.Change.description? (accepted a cs) description)
        (lastOf Action.Change.word? (accepted a cs) word) = .ok (edited a cs)) ∧
      (∀ n t d w e,
        answer a (Action.Change.shape w) = .error e ↔ Action.make n t d w = .error e) ∧
      ∀ c : Action.Change, c.word? = none → answer a c = .ok ()) ∧
    (∀ ids text,
      Independent (Script.mint ids text).1 ∧
      (∀ c, answer (Script.mint ids text).1 c = .ok ()) ∧
      ∀ cs, edited (Script.mint ids text).1 cs =
        ⟨ids.next.1, lastOf Script.Change.text? cs text⟩) ∧
    ∀ now name description updated,
      Independent (Stamp.make now name description updated) ∧
      (∀ c, answer (Stamp.make now name description updated) c = .ok ()) ∧
      ∀ cs, edited (Stamp.make now name description updated) cs =
        Stamp.make now (lastOf Stamp.Change.name? cs name)
          (lastOf Stamp.Change.description? cs description)
          (lastOf Stamp.Change.updated? cs updated) :=
  ⟨fun _ _ _ => Modifier.changes, Category.changes, Action.make_unique,
    fun _ _ _ _ _ => Action.changes, Script.changes, Stamp.changes⟩

/-- A name that is no single character is passed over, whatever the title is; the next one and the
title count. A word that names no shape leaves the action as it was. -/
theorem changes_normalForm_passedOver :
    let m : Modifier := ⟨"+", "Merge"⟩
    let cs := [Modifier.Change.name " ab ", Modifier.Change.title " Join ",
      Modifier.Change.name " - "]
    let a : Action := ⟨"A", "", "d", .boolean⟩
    let ds := [Action.Change.shape "set", Action.Change.name " B "]
    (Modifier.make "+" "Merge" = .ok m ∧ Modifier.make " - " " Join " = .ok (edited m cs) ∧
      edited m cs = ⟨"-", "Join"⟩ ∧
      answer m (Modifier.Change.name " ab ") = .error (.modifierName "ab")) ∧
    Action.make "A" "" "d" "boolean" = .ok a ∧ Action.make " B " "" "d" "boolean" = .ok (edited a ds) ∧
      edited a ds = ⟨"B", "", "d", .boolean⟩ ∧
      answer a (Action.Change.shape "set") = .error (.shape "set") := by
  intro m cs a ds
  have hm : Modifier.make "+" "Merge" = .ok m := by decide +kernel
  have ha : Action.make "A" "" "d" "boolean" = .ok a := by decide +kernel
  obtain ⟨hmodifier, -, -, haction, -⟩ := changes_normalForm
  obtain ⟨-, hedited, hrefused, -⟩ := hmodifier _ _ _ hm
  obtain ⟨-, hedited', hunknown, -⟩ := haction _ _ _ _ _ ha
  have hlast : lastOf Modifier.Change.name? (accepted m cs) "+" = " - " ∧
      lastOf Modifier.Change.title? (accepted m cs) "Merge" = " Join " := by decide +kernel
  have hlast' : lastOf Action.Change.name? (accepted a ds) "A" = " B " ∧
      lastOf Action.Change.title? (accepted a ds) "" = "" ∧
      lastOf Action.Change.description? (accepted a ds) "d" = "d" ∧
      lastOf Action.Change.word? (accepted a ds) "boolean" = "boolean" := by decide +kernel
  have hnow := hedited cs
  have hnow' := hedited' ds
  rw [hlast.1, hlast.2] at hnow
  rw [hlast'.1, hlast'.2.1, hlast'.2.2.1, hlast'.2.2.2] at hnow'
  exact ⟨⟨hm, hnow, by decide +kernel, (hrefused _ "Merge" _).mpr (by decide +kernel)⟩, ha, hnow',
    by decide +kernel, (hunknown "A" "" "d" _ _).mpr (by decide +kernel)⟩

end Methodology
