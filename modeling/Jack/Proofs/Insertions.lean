import Mathlib.Logic.Basic
import Jack.Names.Ledger

/-!
# Insertions into a ledger

The entries of a ledger are changed and filed in any order.  An entry can be filed again, under
another name or in another category, and it can be changed after it was filed.  What the ledger
holds is told by the history of these steps: each entry by the latest steps on it, the counts by
how often an entry of the category was filed, and what a name finds by the latest entry that was
filed while it had that name.
-/

namespace Jack

/-- Numbering goes by the storage of an entry, and passes over an entry that has none. -/
theorem Counts.number_cases (counts : Counts) (e : Entry) :
    (exists storage, e.standing = .known (.stored storage) ∧
      counts.number e = ({ e with index := counts.get storage }, counts.bump storage)) ∨
    (forall storage, e.standing ≠ .known (.stored storage)) ∧ counts.number e = (e, counts) := by
  unfold Counts.number
  split
  · next storage hstanding => exact Or.inl ⟨storage, hstanding, rfl⟩
  · next hother => exact Or.inr ⟨hother, rfl⟩

namespace Ledger

/-!
# Histories
-/

/-- A step on a ledger.  Entries go by their position. -/
inductive Step where
  | create
  | setCategory (position : Nat) (word : Option String)
  | setName (position : Nat) (name : Option String)
  | setType (position : Nat) (type : Option String)
  | insert (position : Nat)
  deriving DecidableEq, Repr

namespace Step

def apply (ledger : Ledger) : Step -> Ledger
  | .create => ledger.create
  | .setCategory position word => ledger.setCategory position word
  | .setName position name => ledger.setName position name
  | .setType position type => ledger.setType position type
  | .insert position => ledger.insert position

/-- The entry that a step is on. -/
def position? : Step -> Option Nat
  | .create => none
  | .setCategory position _ => some position
  | .setName position _ => some position
  | .setType position _ => some position
  | .insert position => some position

end Step

/-- A new ledger after some steps.  The latest of them comes first. -/
def after : List Step -> Ledger
  | [] => {}
  | step :: past => step.apply (after past)

/-- How many entries have been created. -/
def created (past : List Step) : Nat :=
  past.count .create

/-- Every step is on an entry that was created before. -/
def Sound : List Step -> Prop
  | [] => True
  | step :: past => (forall position, position ∈ step.position? -> position < created past) ∧
      Sound past

instance decidableSound : (past : List Step) -> Decidable (Sound past)
  | [] => inferInstanceAs (Decidable True)
  | _ :: past => @instDecidableAnd _ _ inferInstance (decidableSound past)

/-!
# What a history tells
-/

section

variable (past : List Step) (position : Nat)

/-- The latest name that an entry was given. -/
def nameIn : Option String :=
  (past.findSome? fun
    | .setName p name => if p = position then some name else none
    | _ => none).join

def typeIn : Option String :=
  (past.findSome? fun
    | .setType p type => if p = position then some type else none
    | _ => none).join

def standingIn : Standing :=
  (past.findSome? fun
    | .setCategory p word => if p = position then some (Standing.ofWord word) else none
    | _ => none).getD .unset

/-- The segment of the latest category with a segment. -/
def segmentIn : Option Segment :=
  past.findSome? fun
    | .setCategory p word => if p = position then (Standing.ofWord word).segment? else none
    | _ => none

end

/-- How often an entry was filed while it had a storage. -/
def filedIn : List Step -> Storage -> Nat
  | [], _ => 0
  | .insert position :: past, storage =>
      filedIn past storage + if standingIn past position = .known (.stored storage) then 1 else 0
  | _ :: past, storage => filedIn past storage

/-- The index of an entry.  It changes only when the entry is filed while it has a storage; it is
then the number of such insertions before. -/
def indexIn : List Step -> Nat -> Int
  | [], _ => -1
  | .insert p :: past, position =>
      if p = position then
        match standingIn past position with
        | .known (.stored storage) => filedIn past storage
        | _ => indexIn past position
      else indexIn past position
  | _ :: past, position => indexIn past position

def entryIn (past : List Step) (position : Nat) : Entry where
  name := nameIn past position
  standing := standingIn past position
  index := indexIn past position
  segment := segmentIn past position
  type := typeIn past position

/-- The entry of the latest insertion under a name. -/
def latestIn : List Step -> Option String -> Option Nat
  | [], _ => none
  | .insert position :: past, name =>
      if nameIn past position = name then some position else latestIn past name
  | _ :: past, name => latestIn past name

/-!
# Entries along a history
-/

theorem created_create (past : List Step) : created (.create :: past) = created past + 1 :=
  List.count_cons_self

theorem created_of_position {step : Step} {position : Nat} (h : step.position? = some position)
    (past : List Step) : created (step :: past) = created past := by
  apply List.count_cons_of_ne
  rintro rfl
  cases h

/-- A step tells nothing of the entries that it is not on. -/
theorem entryIn_of_ne {step : Step} {position : Nat} (h : position ∉ step.position?)
    (past : List Step) : entryIn (step :: past) position = entryIn past position := by
  cases step with
  | create => rfl
  | setCategory p word =>
      have hne : p ≠ position := fun heq => h (congrArg some heq)
      simp [entryIn, nameIn, typeIn, standingIn, segmentIn, indexIn, hne]
  | setName p name =>
      have hne : p ≠ position := fun heq => h (congrArg some heq)
      simp [entryIn, nameIn, typeIn, standingIn, segmentIn, indexIn, hne]
  | setType p type =>
      have hne : p ≠ position := fun heq => h (congrArg some heq)
      simp [entryIn, nameIn, typeIn, standingIn, segmentIn, indexIn, hne]
  | insert p =>
      have hne : p ≠ position := fun heq => h (congrArg some heq)
      simp [entryIn, nameIn, typeIn, standingIn, segmentIn, indexIn, hne]

theorem entryIn_setCategory (past : List Step) (position : Nat) (word : Option String) :
    entryIn (.setCategory position word :: past) position =
      (entryIn past position).setCategory word := by
  cases hsegment : (Standing.ofWord word).segment? <;>
    simp [entryIn, nameIn, typeIn, standingIn, segmentIn, indexIn, Entry.setCategory, hsegment]

theorem entryIn_setName (past : List Step) (position : Nat) (name : Option String) :
    entryIn (.setName position name :: past) position =
      { entryIn past position with name := name } := by
  simp [entryIn, nameIn, typeIn, standingIn, segmentIn, indexIn]

theorem entryIn_setType (past : List Step) (position : Nat) (type : Option String) :
    entryIn (.setType position type :: past) position =
      { entryIn past position with type := type } := by
  simp [entryIn, nameIn, typeIn, standingIn, segmentIn, indexIn]

/-- Only the index of an entry changes when it is filed. -/
theorem entryIn_insert (past : List Step) (position : Nat) :
    entryIn (.insert position :: past) position =
      { entryIn past position with index := indexIn (.insert position :: past) position } := by
  simp [entryIn, nameIn, typeIn, standingIn, segmentIn]

theorem indexIn_insert_of_stored {past : List Step} {position : Nat} {storage : Storage}
    (h : standingIn past position = .known (.stored storage)) :
    indexIn (.insert position :: past) position = filedIn past storage := by
  rw [indexIn, if_pos rfl, h]

theorem indexIn_insert_of_not_stored {past : List Step} {position : Nat}
    (h : forall storage, standingIn past position ≠ .known (.stored storage)) :
    indexIn (.insert position :: past) position = indexIn past position := by
  rw [indexIn, if_pos rfl]
  split
  · next storage hstanding => exact absurd hstanding (h storage)
  · rfl

/-- Nothing is known of an entry that is not created yet. -/
theorem entryIn_of_le {past : List Step} (h : Sound past) {position : Nat}
    (hle : created past ≤ position) : entryIn past position = {} := by
  induction past with
  | nil => rfl
  | cons step past ih =>
      have hpast : created past ≤ position :=
        Nat.le_trans (List.count_le_count_cons) hle
      have hother : position ∉ step.position? := by
        intro hmem
        exact absurd (h.1 position hmem) (Nat.not_lt.mpr hpast)
      rw [entryIn_of_ne hother, ih h.2 hpast]

/-!
# Ledgers and their history
-/

/-- The ledger holds what the history tells. -/
structure Reflects (ledger : Ledger) (past : List Step) : Prop where
  length_entries : ledger.entries.length = created past
  entry : forall position, position < created past ->
    ledger.entries[position]? = some (entryIn past position)
  count : forall storage, ledger.table.counts.get storage = filedIn past storage
  bound : forall name, ledger.table.get? name = latestIn past name

namespace Reflects

variable {ledger : Ledger} {past : List Step}

theorem create (h : ledger.Reflects past) (hsound : Sound past) :
    ledger.create.Reflects (.create :: past) := by
  refine ⟨?_, ?_, h.count, h.bound⟩
  · rw [created_create, Ledger.create, List.length_append, h.length_entries, List.length_singleton]
  · intro position hposition
    rw [created_create] at hposition
    have hentry : entryIn (.create :: past) position = entryIn past position := rfl
    rw [Ledger.create, hentry]
    by_cases hnew : position < created past
    · rw [List.getElem?_append_left (h.length_entries ▸ hnew)]
      exact h.entry position hnew
    · have heq : position = ledger.entries.length := by
        rw [h.length_entries]
        omega
      rw [entryIn_of_le hsound (Nat.not_lt.mp hnew), heq, List.getElem?_concat_length]

/-- An entry is changed, and the table stays as it is. -/
theorem change (h : ledger.Reflects past) {step : Step} {position : Nat} {f : Entry -> Entry}
    (hstep : step.position? = some position)
    (hentry : entryIn (step :: past) position = f (entryIn past position))
    (hfiled : filedIn (step :: past) = filedIn past)
    (hlatest : latestIn (step :: past) = latestIn past) :
    (ledger.change position f).Reflects (step :: past) := by
  refine ⟨?_, ?_, ?_, ?_⟩
  · rw [created_of_position hstep, Ledger.change, List.length_modify, h.length_entries]
  · intro other hother
    rw [created_of_position hstep] at hother
    rw [Ledger.change, List.getElem?_modify, h.entry other hother, Option.map_eq_map,
      Option.map_some]
    by_cases heq : position = other
    · subst heq
      rw [if_pos rfl, hentry]
    · have hne : other ∉ step.position? := by
        rw [hstep]
        exact fun hmem => heq (Option.some.inj hmem)
      rw [if_neg heq, entryIn_of_ne hne]
  · intro storage
    rw [hfiled]
    exact h.count storage
  · intro name
    rw [hlatest]
    exact h.bound name

/-- An entry is numbered as the history tells, and the counts go on with it. -/
theorem number (h : ledger.Reflects past) (position : Nat) :
    (ledger.table.counts.number (entryIn past position)).1 =
        entryIn (.insert position :: past) position ∧
      forall storage, (ledger.table.counts.number (entryIn past position)).2.get storage =
        filedIn (.insert position :: past) storage := by
  rw [entryIn_insert]
  rcases ledger.table.counts.number_cases (entryIn past position) with
    ⟨found, hstanding, hnumber⟩ | ⟨hstanding, hnumber⟩
  · rw [hnumber]
    constructor
    · rw [indexIn_insert_of_stored hstanding, h.count]
    · intro storage
      have hsame : standingIn past position = .known (.stored storage) ↔ storage = found := by
        rw [show standingIn past position = .known (.stored found) from hstanding]
        simp [eq_comm]
      rw [Counts.get_bump, h.count, filedIn, if_congr hsame rfl rfl]
  · have hnone : forall storage, standingIn past position ≠ .known (.stored storage) := hstanding
    rw [hnumber]
    constructor
    · rw [indexIn_insert_of_not_stored hnone]
      rfl
    · intro storage
      rw [h.count, filedIn, if_neg (hnone storage), Nat.add_zero]

theorem insert (h : ledger.Reflects past) {position : Nat} (hposition : position < created past) :
    (ledger.insert position).Reflects (.insert position :: past) := by
  have hstep : (Step.insert position).position? = some position := rfl
  rcases h.number position with ⟨hnumbered, hcounts⟩
  rw [Ledger.insert, h.entry position hposition]
  refine ⟨?_, ?_, hcounts, ?_⟩
  · rw [created_of_position hstep, List.length_set, h.length_entries]
  · intro other hother
    rw [created_of_position hstep] at hother
    simp only [hnumbered]
    by_cases heq : position = other
    · subst heq
      rw [List.getElem?_set_self (h.length_entries ▸ hposition)]
    · have hne : other ∉ (Step.insert position).position? :=
        fun hmem => heq (Option.some.inj hmem)
      rw [List.getElem?_set_ne heq, entryIn_of_ne hne, h.entry other hother]
  · intro name
    simp only [hnumbered, Table.get?, latestIn]
    have hname : (entryIn (.insert position :: past) position).name = nameIn past position := rfl
    rw [hname]
    by_cases heq : nameIn past position = name
    · rw [heq, Bindings.get?_set_self, if_pos rfl]
    · rw [Bindings.get?_set_of_ne _ _ (Ne.symm heq), if_neg heq]
      exact h.bound name

theorem apply (h : ledger.Reflects past) {step : Step} (hsound : Sound (step :: past)) :
    (step.apply ledger).Reflects (step :: past) := by
  cases step with
  | create => exact h.create hsound.2
  | setCategory position word => exact h.change rfl (entryIn_setCategory past position word) rfl rfl
  | setName position name => exact h.change rfl (entryIn_setName past position name) rfl rfl
  | setType position type => exact h.change rfl (entryIn_setType past position type) rfl rfl
  | insert position => exact h.insert (hsound.1 position rfl)

end Reflects

theorem reflects_after {past : List Step} (hsound : Sound past) : (after past).Reflects past := by
  induction past with
  | nil =>
      refine ⟨rfl, fun _ h => absurd h (Nat.not_lt_zero _), ?_, fun _ => rfl⟩
      intro storage
      cases storage <;> rfl
  | cons step past ih => exact (ih hsound.2).apply hsound

theorem lt_created_of_latestIn {past : List Step} (hsound : Sound past) {name : Option String}
    {position : Nat} (h : latestIn past name = some position) : position < created past := by
  induction past with
  | nil => cases h
  | cons step past ih =>
      have hle : created past ≤ created (step :: past) := List.count_le_count_cons
      cases step with
      | insert p =>
          rw [latestIn] at h
          split at h
          · rw [← Option.some.inj h]
            exact Nat.lt_of_lt_of_le (hsound.1 p rfl) hle
          · exact Nat.lt_of_lt_of_le (ih hsound.2 h) hle
      | create => exact Nat.lt_of_lt_of_le (ih hsound.2 h) hle
      | setCategory p word => exact Nat.lt_of_lt_of_le (ih hsound.2 h) hle
      | setName p word => exact Nat.lt_of_lt_of_le (ih hsound.2 h) hle
      | setType p word => exact Nat.lt_of_lt_of_le (ih hsound.2 h) hle

theorem Reflects.get?_eq {ledger : Ledger} {past : List Step} (h : ledger.Reflects past)
    (hsound : Sound past) (name : Option String) :
    ledger.get? name = (latestIn past name).map (entryIn past) := by
  rw [Ledger.get?, h.bound]
  cases hlatest : latestIn past name with
  | none => rfl
  | some position =>
      rw [Option.bind_some, h.entry position (lt_created_of_latestIn hsound hlatest),
        Option.map_some]

theorem indexOf_eq_ok {ledger : Ledger} {name : Option String} {e : Entry}
    (h : ledger.get? name = some e) : ledger.indexOf name = .ok e.index := by
  rw [indexOf, h]

theorem indexOf_eq_error_iff (ledger : Ledger) (name : Option String) :
    ledger.indexOf name = .error (.missingKey (.ofName name)) ↔ ledger.get? name = none := by
  unfold indexOf
  cases ledger.get? name <;> simp

/-- After any history, the count of a storage is the number of insertions of an entry that had
the storage then.  Each entry is as the latest steps on it have left it.  If it is filed with a
storage, its index becomes the number of such insertions before, and else its index stays.  A name
finds the very entry that was filed last while it had the name, as the entry is now, or nothing if
there was none.  The index of a name is the one that this entry has now, and there is none exactly
if the name finds nothing. -/
theorem table_tells_history {past : List Step} (hsound : Sound past) :
    (forall storage, (after past).table.counts.get storage = filedIn past storage) ∧
      (forall position, position < created past ->
        (after past).entries[position]? = some (entryIn past position) ∧
        exists e, (after (.insert position :: past)).entries[position]? = some e ∧
          (forall storage, standingIn past position = .known (.stored storage) ->
            e.index = filedIn past storage) ∧
          ((forall storage, standingIn past position ≠ .known (.stored storage)) ->
            e.index = (entryIn past position).index)) ∧
      forall name,
        (after past).table.get? name = latestIn past name ∧
        (after past).get? name = (latestIn past name).map (entryIn past) ∧
        (forall e, (after past).get? name = some e -> (after past).indexOf name = .ok e.index) ∧
        ((after past).indexOf name = .error (.missingKey (.ofName name)) ↔
          (after past).get? name = none) := by
  have h := reflects_after hsound
  refine ⟨h.count, ?_, ?_⟩
  · intro position hposition
    have hinserted := (h.insert hposition).entry position hposition
    refine ⟨h.entry position hposition, _, hinserted, ?_, ?_⟩
    · intro storage hstanding
      exact indexIn_insert_of_stored hstanding
    · intro hstanding
      exact indexIn_insert_of_not_stored hstanding
  · intro name
    exact ⟨h.bound name, h.get?_eq hsound name, fun e => indexOf_eq_ok, indexOf_eq_error_iff _ _⟩

/-- An entry is filed as the variable `x` and once more as the static name `y`.  Then another
one is filed as the static name `z`, and the first one gets a type. -/
def refiled : List Step :=
  [.setType 0 (some "int"), .insert 1, .setCategory 1 (some "static"), .setName 1 (some "z"),
    .create, .insert 0, .setCategory 0 (some "static"), .setName 0 (some "y"), .insert 0,
    .setName 0 (some "x"), .setCategory 0 (some "var"), .create]

/-- Both `x` and `y` find the first entry as it is in the end. -/
theorem table_tells_refiled :
    Sound refiled ∧ (after refiled).table.counts.get .var = 1 ∧
      (after refiled).table.counts.get .static = 2 ∧
      (forall name, name = some "x" ∨ name = some "y" ->
        (after refiled).get? name =
          some ⟨some "y", .known (.stored .static), 0, some .static, some "int"⟩) ∧
      (after refiled).indexOf (some "z") = .ok 1 ∧
      (after refiled).indexOf none = .error (.missingKey .absent) := by
  have hsound : Sound refiled := by decide
  rcases table_tells_history hsound with ⟨hcounts, _, hnames⟩
  have hz : (after refiled).get? (some "z") =
      some ⟨some "z", .known (.stored .static), 1, some .static, none⟩ := by
    rw [(hnames _).2.1]
    decide
  refine ⟨hsound, hcounts .var, hcounts .static, ?_, (hnames _).2.2.1 _ hz, ?_⟩
  · rintro name (rfl | rfl)
    · rw [(hnames _).2.1]
      decide
    · rw [(hnames _).2.1]
      decide
  · apply (hnames none).2.2.2.mpr
    rw [(hnames _).2.1]
    decide

end Ledger
end Jack
