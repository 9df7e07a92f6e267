import Jack.Proofs.Locations
import Jack.Proofs.Prologues

/-!
# Accesses within bounds

The entries of one storage are numbered in the order in which they are filed, so the index
of an entry is below the count of its table, even if names are filed again or hidden.  The
counts of the tables are those of the declarations.  So the code of a subroutine stays
inside of what the subroutine and its class declare.
-/

namespace Jack

open Compile

/-!
# Indices and counts
-/

namespace Table

theorem Filled.index_lt {table : Table Entry} (h : table.Filled) {name : Option String}
    {e : Entry} {storage : Storage} (hget : table.get? name = some e)
    (hstanding : e.standing = .known (.stored storage)) :
    exists n : Nat, e.index = n ∧ n < table.counts.get storage := by
  induction h with
  | empty => cases hget
  | reserve _ ih =>
      rcases ih hget with ⟨n, hindex, hlt⟩
      refine ⟨n, hindex, ?_⟩
      rw [reserveArgument, Counts.get_bump]
      exact Nat.lt_add_right _ hlt
  | declare category declared type hfilled ih =>
      rename_i table
      by_cases hname : name = some declared
      · subst hname
        have hself := table.get?_insert_name (entryOf category declared type)
        cases Option.some.inj (hself.symm.trans hget)
        cases category with
        | stored filed =>
            cases hstanding
            refine ⟨table.counts.get storage, rfl, ?_⟩
            show _ < (table.counts.bump storage).get storage
            rw [Counts.get_bump, if_pos rfl]
            exact Nat.lt_succ_self _
        | className => cases hstanding
        | subroutine => cases hstanding
      · have hother := table.get?_insert_of_ne (e := entryOf category declared type) hname
        rcases ih (hother.symm.trans hget) with ⟨n, hindex, hlt⟩
        refine ⟨n, hindex, Nat.lt_of_lt_of_le hlt ?_⟩
        cases category with
        | stored filed =>
            show _ ≤ (table.counts.bump filed).get storage
            rw [Counts.get_bump]
            exact Nat.le_add_right _ _
        | className => exact Nat.le_refl _
        | subroutine => exact Nat.le_refl _

theorem Filled.insertAll {table : Table Entry} (h : table.Filled) {entries : List Entry}
    (hentries : forall e, e ∈ entries ->
      exists category name type, e = entryOf category name type) :
    (table.insertAll entries).Filled := by
  induction entries generalizing table with
  | nil => exact h
  | cons e rest ih =>
      rw [List.forall_mem_cons] at hentries
      rcases hentries.1 with ⟨category, name, type, rfl⟩
      exact ih (h.declare category name type) hentries.2

end Table

namespace Syntax

theorem Declaration.filled_insertAll {table : Table Entry} (h : table.Filled)
    (declarations : List Declaration) :
    (table.insertAll (declarations.map Declaration.entry)).Filled := by
  apply h.insertAll
  intro e he
  rcases List.mem_map.mp he with ⟨d, _, rfl⟩
  exact ⟨_, _, _, rfl⟩

theorem Declaration.get_counts_insertAll (declarations : List Declaration)
    (table : Table Entry) (storage : Storage) :
    (table.insertAll (declarations.map entry)).counts.get storage =
      table.counts.get storage + (namesIn storage declarations).length := by
  induction declarations generalizing table with
  | nil => rfl
  | cons d rest ih =>
      have hcounts : (table.insert d.entry).counts = table.counts.bump d.storage := rfl
      show ((table.insert d.entry).insertAll (rest.map entry)).counts.get storage = _
      rw [ih, hcounts, Counts.get_bump]
      by_cases hstorage : d.storage = storage
      · subst hstorage
        rw [if_pos rfl, namesIn_cons_of_eq, List.length_cons, Nat.add_right_comm, Nat.add_assoc]
      · rw [if_neg (Ne.symm hstorage), namesIn_cons_of_ne hstorage, Nat.add_zero]

theorem Declaration.namesIn_eq_nil {storage : Storage} {declarations : List Declaration}
    (h : forall d, d ∈ declarations -> d.storage ≠ storage) :
    namesIn storage declarations = [] := by
  unfold namesIn
  rw [List.filter_eq_nil_iff.mpr (by simpa using h), List.map_nil]

theorem Names.storage_of_mem {storage : Storage} {names : Names} {d : Declaration}
    (h : d ∈ names.declarations storage) : d.storage = storage := by
  rcases List.mem_map.mp h with ⟨name, _, rfl⟩
  rfl

/-!
# Tables of subroutines
-/

namespace Subroutine

theorem filled_locals (s : Subroutine) : s.locals.Filled := by
  rw [s.locals_eq]
  apply Declaration.filled_insertAll
  unfold blankTable
  split
  · exact .reserve .empty
  · exact .empty

theorem storage_of_mem {s : Subroutine} {d : Declaration} (h : d ∈ s.declarations) :
    d.storage = .argument ∨ d.storage = .var := by
  rcases List.mem_append.mp h with hparameter | hvar
  · rcases List.mem_map.mp hparameter with ⟨p, _, rfl⟩
    exact Or.inl rfl
  · rcases List.mem_flatMap.mp hvar with ⟨v, _, hd⟩
    exact Or.inr (Names.storage_of_mem hd)

theorem get_counts_blankTable (s : Subroutine) (storage : Storage) :
    s.blankTable.counts.get storage =
      if storage = .argument ∧ s.kind = .method then 1 else 0 := by
  unfold blankTable
  cases s.kind <;> cases storage <;> rfl

/-- How many places of each storage the declarations of a subroutine take. -/
def room (s : Subroutine) : Storage -> Nat
  | .var => s.varNames.length
  | .argument => s.arity
  | .static => 0
  | .field => 0

theorem get_counts_locals (s : Subroutine) (storage : Storage) :
    s.locals.counts.get storage = s.room storage := by
  rw [s.locals_eq, Declaration.get_counts_insertAll, get_counts_blankTable]
  cases storage with
  | var => simp [namesIn_var, room]
  | argument => simp [namesIn_argument, parameterNames, arity, room, Nat.add_comm]
  | static | field =>
      rw [Declaration.namesIn_eq_nil]
      · simp [room]
      · intro d hd
        rcases storage_of_mem hd with hstorage | hstorage <;> simp [hstorage]

end Subroutine

/-!
# Tables of classes
-/

namespace Class

theorem filled_table (unit : Class) (begun : List Subroutine) : (unit.table begun).Filled := by
  unfold Class.table
  rw [unit.varTable_eq]
  apply (Declaration.filled_insertAll .empty unit.declarations).insertAll
  intro e he
  rcases List.mem_map.mp he with ⟨s, _, rfl⟩
  exact ⟨_, _, _, rfl⟩

theorem counts_table (unit : Class) (begun : List Subroutine) :
    (unit.table begun).counts = unit.varTable.counts := by
  unfold Class.table
  generalize unit.varTable = table
  induction begun generalizing table with
  | nil => rfl
  | cons s rest ih => exact ih (table.insert s.entry)

theorem storage_of_mem {unit : Class} {d : Declaration} (h : d ∈ unit.declarations) :
    d.storage = .static ∨ d.storage = .field := by
  rcases List.mem_flatMap.mp h with ⟨v, _, hd⟩
  rw [Names.storage_of_mem hd]
  unfold ClassVar.storage
  cases v.isStatic with
  | true => exact Or.inl rfl
  | false => exact Or.inr rfl

/-- How many places of each storage the declarations of a class take. -/
def room (unit : Class) : Storage -> Nat
  | .var => 0
  | .argument => 0
  | .static => unit.staticNames.length
  | .field => unit.fieldNames.length

theorem get_counts_table (unit : Class) (begun : List Subroutine) (storage : Storage) :
    (unit.table begun).counts.get storage = unit.room storage := by
  rw [unit.counts_table, unit.varTable_eq, Declaration.get_counts_insertAll]
  have hzero : ({} : Table Entry).counts.get storage = 0 := by cases storage <;> rfl
  rw [hzero, Nat.zero_add]
  cases storage with
  | var | argument =>
      rw [Declaration.namesIn_eq_nil]
      · rfl
      · intro d hd
        rcases storage_of_mem hd with hstorage | hstorage <;> simp [hstorage]
  | static => rw [unit.namesIn_static, room]
  | field => rw [unit.namesIn_field, room]

/-- The size of an object counts the static names as well. -/
theorem size_eq (unit : Class) : unit.size = unit.fieldNames.length + unit.staticNames.length := by
  unfold size fieldNames staticNames
  induction unit.vars with
  | nil => rfl
  | cons v rest ih =>
      rw [List.map_cons, total, ih]
      cases hstatic : v.isStatic <;> simp [hstatic] <;> omega

end Class

end Syntax

open Syntax

/-!
# Places inside of the declarations
-/

theorem Storage.segment_injective : Function.Injective Storage.segment := by
  intro storage storage' h
  cases storage <;> cases storage' <;> simp_all [Storage.segment]

/-- If the place belongs to a storage, its index is below the limit of the storage. -/
def Place.Inside (limit : Storage -> Nat) (place : Place) : Prop :=
  forall storage : Storage, place.segment = some storage.segment ->
    0 ≤ place.index ∧ place.index < limit storage

theorem Place.inside_of_isScratch {limit : Storage -> Nat} {place : Place}
    (h : place.isScratch = true) : place.Inside limit := by
  intro storage hsegment
  have hnot := Place.isScratch_segment storage place.index
  rw [← hsegment, h] at hnot
  cases hnot

theorem Table.Filled.inside {table : Table Entry} (h : table.Filled) {limit : Storage -> Nat}
    (hlimit : forall storage, table.counts.get storage ≤ limit storage) {name : Option String}
    {e : Entry} (hget : table.get? name = some e) : e.place.Inside limit := by
  intro storage hsegment
  have hstanding : e.standing.segment? = some storage.segment :=
    (h.isPlaced hget).1.symm.trans hsegment
  cases hcase : e.standing with
  | unset =>
      rw [hcase] at hstanding
      cases hstanding
  | unknown =>
      rw [hcase] at hstanding
      cases hstanding
  | known category =>
      rw [hcase] at hstanding
      cases category with
      | className => cases hstanding
      | subroutine => cases hstanding
      | stored filed =>
          have hstorage : filed = storage := Storage.segment_injective (Option.some.inj hstanding)
          subst hstorage
          rcases h.index_lt hget hcase with ⟨n, hindex, hlt⟩
          have hle := hlimit filed
          show 0 ≤ e.index ∧ e.index < _
          omega

/-- The place that a command pushes from or pops to. -/
def Instr.place? : Instr -> Option Place
  | .push place _ => some place
  | .pop place => some place
  | _ => none

def Access.place : Access -> Place
  | .push place => place
  | .pop place => place

/-- Code stays inside of a limit if its accesses to variables do. -/
theorem inside_of_accesses {limit : Storage -> Nat} {code : List Instr}
    (h : forall access, access ∈ accesses code -> access.place.Inside limit) {instr : Instr}
    (hinstr : instr ∈ code) {place : Place} (hplace : instr.place? = some place) :
    place.Inside limit := by
  by_cases hscratch : place.isScratch = true
  · exact Place.inside_of_isScratch hscratch
  · cases instr with
    | push found remark =>
        cases hplace
        apply h (.push place)
        exact List.mem_filterMap.mpr ⟨_, hinstr, by simp [Instr.access?, hscratch]⟩
    | pop found =>
        cases hplace
        apply h (.pop place)
        exact List.mem_filterMap.mpr ⟨_, hinstr, by simp [Instr.access?, hscratch]⟩
    | _ => cases hplace

namespace Syntax

/-- How far the code of a subroutine may reach in each storage: the variables of the
subroutine, its arguments, the static names of its class, and an object of the class. -/
def Class.limit (unit : Class) (s : Subroutine) : Storage -> Nat
  | .var => s.varNames.length
  | .argument => s.arity
  | .static => unit.staticNames.length
  | .field => unit.size

theorem Subroutine.room_le_limit (s : Subroutine) (unit : Class) (storage : Storage) :
    s.room storage ≤ unit.limit s storage := by
  cases storage with
  | var => exact Nat.le_refl _
  | argument => exact Nat.le_refl _
  | static => exact Nat.zero_le _
  | field => exact Nat.zero_le _

theorem Class.room_le_limit (unit : Class) (s : Subroutine) (storage : Storage) :
    unit.room storage ≤ unit.limit s storage := by
  cases storage with
  | var => exact Nat.zero_le _
  | argument => exact Nat.zero_le _
  | static => exact Nat.le_refl _
  | field =>
      show unit.fieldNames.length ≤ unit.size
      rw [unit.size_eq]
      exact Nat.le_add_right _ _

section

variable {unit : Class} {σ : Scope} {label : Nat} {before after : List Placed} {p : Placed}

/-- What the body of a subroutine finds under a name is inside of the declarations. -/
theorem Class.inside_of_placed (h : unit.placed σ label = before ++ p :: after) {name : String}
    {e : Entry} (hentry : p.scope.entry name = some (some e)) :
    e.IsPlaced ∧ e.place.Inside (unit.limit p.subroutine) := by
  rw [Class.entry_of_placed h, Option.some.injEq, Option.or_eq_some_iff] at hentry
  rcases hentry with hlocal | ⟨_, hclass⟩
  · have hfilled := p.subroutine.filled_locals
    refine ⟨hfilled.isPlaced hlocal, hfilled.inside (fun storage => ?_) hlocal⟩
    rw [p.subroutine.get_counts_locals]
    exact p.subroutine.room_le_limit unit storage
  · have hfilled := unit.filled_table (before.map Placed.subroutine ++ [p.subroutine])
    refine ⟨hfilled.isPlaced hclass, hfilled.inside (fun storage => ?_) hclass⟩
    rw [unit.get_counts_table]
    exact unit.room_le_limit p.subroutine storage

theorem Class.inside_accessesOf (h : unit.placed σ label = before ++ p :: after)
    {occurrence : Occurrence} {access : Access} (haccess : access ∈ p.scope.accessesOf occurrence) :
    access.place.Inside (unit.limit p.subroutine) := by
  have hvalue : forall name place, p.scope.valuePlace name = some place ->
      place.Inside (unit.limit p.subroutine) := by
    intro name place hplace
    rcases Option.bind_eq_some_iff.mp hplace with ⟨e, hentry, hsegment⟩
    rcases Class.inside_of_placed h (Option.join_eq_some_iff.mp hentry) with ⟨hplaced, hinside⟩
    rcases Option.map_eq_some_iff.mp hsegment with ⟨segment, hfound, rfl⟩
    rw [← hfound, ← hplaced.1]
    exact hinside
  have htarget : forall name place, p.scope.targetPlace name = some place ->
      place.Inside (unit.limit p.subroutine) := by
    intro name place hplace
    rcases Option.map_eq_some_iff.mp hplace with ⟨e, hentry, rfl⟩
    exact (Class.inside_of_placed h (Option.join_eq_some_iff.mp hentry)).2
  cases occurrence with
  | value name =>
      rcases Option.map_eq_some_iff.mp (Option.mem_toList.mp haccess) with ⟨place, hplace, rfl⟩
      exact hvalue name place hplace
  | base name =>
      rcases Option.map_eq_some_iff.mp (Option.mem_toList.mp haccess) with ⟨place, hplace, rfl⟩
      exact htarget name place hplace
  | target name =>
      rcases Option.map_eq_some_iff.mp (Option.mem_toList.mp haccess) with ⟨place, hplace, rfl⟩
      exact htarget name place hplace

/-- The prologue of a method takes the first argument, which every method has. -/
theorem Subroutine.inside_prologue (s : Subroutine) (unit : Class) (size : Nat) {access : Access}
    (haccess : access ∈ accesses (s.prologue size)) : access.place.Inside (unit.limit s) := by
  unfold Subroutine.prologue at haccess
  split at haccess
  · cases haccess
  · cases hkind : s.kind with
    | constructor =>
        rw [hkind] at haccess
        cases haccess
    | function =>
        rw [hkind] at haccess
        cases haccess
    | method =>
        rw [hkind] at haccess
        have hfirst : access = .push (.argument 0) := List.mem_singleton.mp haccess
        subst hfirst
        intro storage hsegment
        have hstorage : Storage.argument = storage :=
          Storage.segment_injective (Option.some.inj hsegment)
        subst hstorage
        have hlimit : unit.limit s .argument = s.parameters.length + 1 := by
          simp [Class.limit, Subroutine.arity, hkind]
        show 0 ≤ ((0 : Nat) : Int) ∧ ((0 : Nat) : Int) < unit.limit s .argument
        omega

theorem Placed.inside_block (h : unit.placed σ label = before ++ p :: after) (size : Nat)
    {instr : Instr} (hinstr : instr ∈ p.block unit.name size) {place : Place}
    (hplace : instr.place? = some place) : place.Inside (unit.limit p.subroutine) := by
  refine inside_of_accesses ?_ hinstr hplace
  intro access haccess
  rw [Placed.block, accesses_cons, accesses_append,
    Block.accesses_code (Class.ordinary_of_placed h)] at haccess
  rcases List.mem_append.mp haccess with hheader | hbody
  · cases hheader
  · rcases List.mem_append.mp hbody with hprologue | hstatements
    · exact p.subroutine.inside_prologue unit size hprologue
    · rcases List.mem_flatMap.mp hstatements with ⟨occurrence, _, hoccurrence⟩
      exact Class.inside_accessesOf h hoccurrence

end

theorem Placed.alloc_prefix_of_constructor {p : Placed} (hkind : p.subroutine.kind = .constructor)
    (hname : p.subroutine.name ∉ p.subroutine.parameterNames ++ p.subroutine.varNames)
    (className : String) (size : Nat) :
    [.pushConstant size, .call "Memory.alloc" 1, .pop (.pointer 0)] <+:
      (p.block className size).tail := by
  rw [Placed.block, List.tail_cons, Subroutine.prologue, if_neg hname, hkind]
  exact List.prefix_append _ _

end Syntax

open Syntax

/-- The code of an accepted class is one block for each of its subroutines.  A block begins
with the number of variables of its subroutine.  Whatever it pushes from or pops to is inside
of what is declared: the variables and the arguments of the subroutine, the static names of
the class, and an object of the size that is kept for the class.  A constructor gets memory
for an object of that size, unless a parameter or a variable has the name of the
constructor. -/
theorem accesses_inside_declarations {c : Compiler} {text : String}
    (h : (c.compile text).fault = none) :
    exists unit : Syntax.Class, unit.WrittenIn (tokenize text).1 ∧
      (unit.placed c.scope c.labels).map Placed.subroutine = unit.subroutines ∧
      (c.compile text).written =
        some ((unit.placed c.scope c.labels).flatMap (Placed.block unit.name unit.size),
          Tree.linesFrom 0 unit.marks) ∧
      (c.compile text).compiler.sizes.get? unit.name = some unit.size ∧
      forall p, p ∈ unit.placed c.scope c.labels ->
        (p.block unit.name unit.size).head? =
            some (.function (unit.name ++ "." ++ p.subroutine.name)
              (unit.limit p.subroutine .var)) ∧
          (forall instr, instr ∈ p.block unit.name unit.size ->
            forall place, instr.place? = some place -> place.Inside (unit.limit p.subroutine)) ∧
          (p.subroutine.kind = .constructor ->
            p.subroutine.name ∉ p.subroutine.parameterNames ++ p.subroutine.varNames ->
            [.pushConstant unit.size, .call "Memory.alloc" 1, .pop (.pointer 0)] <+:
              (p.block unit.name unit.size).tail) := by
  rcases Compiler.exists_resolved_of_compile h with ⟨unit, htokens, _, hwritten, hsize⟩
  rw [Class.code_eq_blocks htokens] at hwritten
  refine ⟨unit, htokens, map_subroutine_placeAll _ _ _, hwritten, hsize, ?_⟩
  intro p hp
  rcases List.append_of_mem hp with ⟨before, after, hplaced⟩
  refine ⟨rfl, ?_, fun hkind hname => Placed.alloc_prefix_of_constructor hkind hname _ _⟩
  intro instr hinstr place hplace
  exact Placed.inside_block hplaced unit.size hinstr hplace

/-- A class with static names, fields, a constructor and a method. -/
def Syntax.Class.account : Syntax.Class where
  name := "Account"
  vars := [⟨true, ⟨.int, "opened", []⟩⟩, ⟨false, ⟨.int, "balance", ["limit"]⟩⟩]
  subroutines :=
    [⟨.constructor, some (.named "Account"), "new", [⟨.int, "start"⟩],
       ⟨[],
         .cons (.assign "opened" (.mk (.var "opened") (.cons .add (.integer "1") .nil)))
           (.cons (.assign "balance" (.mk (.var "start") .nil))
             (.cons (.give (.mk (.constant .this) .nil)) .nil))⟩⟩,
     ⟨.method, none, "deposit", [⟨.int, "amount"⟩],
       ⟨[⟨⟨.int, "sum", []⟩⟩],
         .cons (.assign "sum" (.mk (.var "balance") (.cons .add (.var "amount") .nil)))
           (.cons (.assign "balance" (.mk (.var "sum") .nil)) (.cons .leave .nil))⟩⟩]

theorem Syntax.Class.isLexeme_account :
    forall token, token ∈ Syntax.Class.account.tokens -> token.IsLexeme := by
  decide +kernel

theorem Syntax.Class.clear_account :
    Syntax.Class.account.Clear ({} : Compiler).scope ({} : Compiler).labels := by
  decide +kernel

theorem accesses_inside_account :
    (({} : Compiler).compile Syntax.Class.account.text).fault = none ∧
      (({} : Compiler).compile Syntax.Class.account.text).compiler.sizes.get? "Account" =
        some 3 ∧
      forall p, p ∈ Syntax.Class.account.placed ({} : Compiler).scope ({} : Compiler).labels ->
        forall instr, instr ∈ p.block "Account" 3 ->
          forall place, instr.place? = some place ->
            place.Inside (Syntax.Class.account.limit p.subroutine) := by
  have htokens := Token.tokenize_print Syntax.Class.isLexeme_account
  rcases Compiler.compile_of_resolved htokens Syntax.Class.clear_account.resolved with
    ⟨hfault, haccount⟩
  rcases accesses_inside_declarations hfault with ⟨unit, _, _, hunit, hsize, hinside⟩
  cases Class.eq_of_written hunit haccount
  exact ⟨hfault, hsize, fun p hp => (hinside p hp).2.1⟩

/-- A class with a field, whose constructor has a parameter of its own name. -/
def Syntax.Class.unallocated : Syntax.Class where
  name := "A"
  vars := [⟨false, ⟨.int, "x", []⟩⟩]
  subroutines :=
    [⟨.constructor, some (.named "A"), "new", [⟨.int, "new"⟩],
      ⟨[], .cons (.assign "x" (.mk (.integer "1") .nil))
        (.cons (.give (.mk (.constant .this) .nil)) .nil)⟩⟩]

def unallocatedText : String :=
  "class A \x7b field int x; constructor A new(int new) \x7b let x = 1; return this; \x7d \x7d"

/-- The constructor writes to an object that it got no memory for. -/
theorem constructor_without_memory :
    (tokenize unallocatedText).1 = Syntax.Class.unallocated.tokens ∧
      Syntax.Class.unallocated.subroutines.map Subroutine.kind = [.constructor] ∧
      (({} : Compiler).compile unallocatedText).fault = none ∧
      (({} : Compiler).compile unallocatedText).compiler.sizes.get? "A" = some 1 ∧
      (({} : Compiler).compile unallocatedText).written.map Prod.fst =
        some [.function "A.new" 0, .pushConstant 1, .pop ⟨some .this, 0⟩,
          .push (.pointer 0) none, .ret] := by
  decide +kernel

end Jack
