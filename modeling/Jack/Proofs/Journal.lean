import Mathlib.Algebra.Ring.Nat
import Jack.Command

/-!
# Journals of commands

A file system keeps a journal if it notes which files were read and what the files hold that
were made, each under the path as it was given.  A command does the same with a journal as
without one.  The outputs of a source are followed through the journal: a code reaches its
file in two parts, and together they are the whole listing.
-/

namespace Jack

structure Journal where
  /-- The files that were read, with their texts. -/
  sources : List (String × String) := []
  /-- The files that were made, with what they hold by now. -/
  files : Bindings String String := {}

namespace Journal

def read (journal : Journal) (path : String) : Except Fault String -> Journal
  | .ok text => { journal with sources := journal.sources ++ [(path, text)] }
  | .error _ => journal

def create (journal : Journal) (path : String) : Except Fault Unit -> Journal
  | .ok () => { journal with files := journal.files.set path "" }
  | .error _ => journal

def write (journal : Journal) (path : String) (start : Nat) (text : String) : Journal :=
  let under := (journal.files.get? path).getD ""
  { journal with files := journal.files.set path (Files.overlay start text under) }

end Journal

variable {σ : Type}

/-- A file system that keeps a journal beside its state. -/
def FileSystem.journaled (system : FileSystem (StateM σ)) :
    FileSystem (StateM (σ × Journal)) where
  list path := fun (world, journal) =>
    let (answer, world) := (system.list path).run world
    (answer, world, journal)
  read path := fun (world, journal) =>
    let (answer, world) := (system.read path).run world
    (answer, world, journal.read path answer)
  create path := fun (world, journal) =>
    let (answer, world) := (system.create path).run world
    (answer, world, journal.create path answer)
  write path start text := fun (world, journal) =>
    let ((), world) := (system.write path start text).run world
    ((), world, journal.write path start text)

/-!
# Forgetting the journal
-/

/-- Two computations have the same result and leave the same state, whatever the journal of
the first one is. -/
def Forgets (journaled : StateM (σ × Journal) α) (plain : StateM σ α) : Prop :=
  forall world journal, plain.run world =
    ((journaled.run (world, journal)).1, (journaled.run (world, journal)).2.1)

theorem run_bind_of_run {first : StateM σ α} {second : α -> StateM σ β} {s s' : σ} {a : α}
    (h : first.run s = (a, s')) : (first >>= second).run s = (second a).run s' := by
  rw [StateT.run_bind, h]
  rfl

namespace Forgets

theorem pure (a : α) : Forgets (Pure.pure a : StateM (σ × Journal) α) (Pure.pure a) :=
  fun _ _ => rfl

theorem bind {first : StateM (σ × Journal) α} {first' : StateM σ α}
    {second : α -> StateM (σ × Journal) β} {second' : α -> StateM σ β}
    (hfirst : Forgets first first') (hsecond : forall a, Forgets (second a) (second' a)) :
    Forgets (first >>= second) (first' >>= second') := by
  intro world journal
  rw [run_bind_of_run (hfirst world journal)]
  exact hsecond _ _ _

end Forgets

namespace Command

variable (system : FileSystem (StateM σ))

theorem flush_forgets (pending : Option Pending) :
    Forgets (Pending.flush system.journaled pending) (Pending.flush system pending) := by
  cases pending with
  | none => exact Forgets.pure ()
  | some pending => exact fun _ _ => rfl

theorem stop_forgets (pending : Option Pending) (fault : Option Fault) :
    Forgets (do Pending.flush system.journaled pending; pure fault)
      (do Pending.flush system pending; pure fault) :=
  Forgets.bind (flush_forgets system pending) fun _ => Forgets.pure fault

theorem openOutputs_forgets (source : String) :
    Forgets (openOutputs system.journaled source) (openOutputs system source) := by
  apply Forgets.bind (fun _ _ => rfl)
  intro answer
  cases answer with
  | error fault => exact Forgets.pure _
  | ok opened => exact fun _ _ => rfl

theorem compileEach_forgets (sources : List String) (c : Compiler) (pending : Option Pending) :
    Forgets (compileEach system.journaled sources c pending)
      (compileEach system sources c pending) := by
  induction sources generalizing c pending with
  | nil => exact stop_forgets system pending none
  | cons source sources ih =>
      apply Forgets.bind (fun _ _ => rfl)
      intro answer
      cases answer with
      | error fault => exact stop_forgets system pending (some fault)
      | ok text =>
          dsimp only
          cases Scanner.ofText text with
          | error fault => exact stop_forgets system pending (some fault)
          | ok scanner =>
              apply Forgets.bind (openOutputs_forgets system source)
              intro answer
              cases answer with
              | error fault => exact stop_forgets system pending (some fault)
              | ok opened =>
                  apply Forgets.bind (flush_forgets system pending)
                  intro _
                  apply Forgets.bind (fun _ _ => rfl)
                  intro _
                  apply Forgets.bind (fun _ _ => rfl)
                  intro pending
                  cases (c.compile text).fault with
                  | none => exact ih _ _
                  | some fault => exact stop_forgets system (some pending) (some fault)

/-- Nothing is noted while the sources of a path are looked up. -/
theorem run_sourcesOf (world : σ) (journal : Journal) (path : String) :
    (sourcesOf system.journaled path).run (world, journal) =
      (((sourcesOf system path).run world).1, ((sourcesOf system path).run world).2, journal) := by
  unfold sourcesOf
  split
  · rfl
  · have hrun : (system.journaled.list path).run (world, journal) =
        (((system.list path).run world).1, ((system.list path).run world).2, journal) := rfl
    rw [StateT.run_bind, StateT.run_bind, hrun]
    rcases (system.list path).run world with ⟨fault | names, world'⟩ <;> rfl

theorem compile_forgets (path : String) :
    Forgets (compile system.journaled [path]) (compile system [path]) := by
  have hsources : Forgets (sourcesOf system.journaled path) (sourcesOf system path) := by
    intro world journal
    rw [run_sourcesOf]
    rfl
  apply Forgets.bind hsources
  intro answer
  cases answer with
  | error fault => exact Forgets.pure _
  | ok sources =>
      exact Forgets.bind (compileEach_forgets system sources {} none) fun _ => Forgets.pure _

end Command

/-!
# A listing in two parts
-/

namespace Files

theorem splitAtByte_append (n : Nat) (text : List Char) :
    (splitAtByte n text).1 ++ (splitAtByte n text).2 = text := by
  fun_induction splitAtByte n text with
  | case1 text => rfl
  | case2 n => rfl
  | case3 n c rest front back hsplit ih =>
      rw [hsplit] at ih
      simpa using ih

/-- The first bytes of a text have nothing behind them. -/
theorem splitAtByte_front (n more : Nat) (text : List Char) :
    splitAtByte (n + more) (splitAtByte n text).1 = ((splitAtByte n text).1, []) := by
  fun_induction splitAtByte n text generalizing more with
  | case1 text => cases more <;> rfl
  | case2 n => cases n + 1 + more <;> rfl
  | case3 n c rest front back hsplit ih =>
      -- the first character may have more bytes than are asked for
      have hmore : exists more', n + 1 + more - c.utf8Size = n + 1 - c.utf8Size + more' :=
        ⟨n + 1 + more - c.utf8Size - (n + 1 - c.utf8Size), by omega⟩
      rcases hmore with ⟨more', hmore⟩
      have hfront := ih more'
      rw [hsplit] at hfront
      rw [show n + 1 + more = (n + more) + 1 by omega] at hmore ⊢
      simp only [splitAtByte, hmore, hfront]

theorem le_utf8ByteSize_splitAtByte (n : Nat) (text : List Char)
    (h : n ≤ (String.ofList text).utf8ByteSize) :
    n ≤ (String.ofList (splitAtByte n text).1).utf8ByteSize := by
  fun_induction splitAtByte n text with
  | case1 text => exact Nat.zero_le _
  | case2 n => exact h
  | case3 n c rest front back hsplit ih =>
      simp only [hsplit, String.ofList_cons, String.utf8ByteSize_append,
        String.utf8ByteSize_singleton] at ih h ⊢
      have hrest := ih (by omega)
      omega

theorem overlay_empty (text : String) : overlay 0 text "" = text := by
  unfold overlay
  split
  · next h => exact h.symm
  · have hsplit : forall n, splitAtByte n [] = ([], []) := fun n => by cases n <;> rfl
    simp [hsplit]

/-- What is left of a text goes behind its first bytes. -/
theorem overlay_splitAtByte {n : Nat} {text : String} (h : n ≤ text.utf8ByteSize) :
    overlay n (String.ofList (splitAtByte n text.toList).2)
      (String.ofList (splitAtByte n text.toList).1) = text := by
  have hwhole := splitAtByte_append n text.toList
  have hsize := le_utf8ByteSize_splitAtByte n text.toList (by simpa using h)
  unfold overlay
  split
  · next hnil =>
    have hnil : (splitAtByte n text.toList).2 = [] := by simpa using hnil
    rw [hnil, List.append_nil] at hwhole
    rw [hwhole, String.ofList_toList]
  · have hfront := splitAtByte_front n 0 text.toList
    rw [Nat.add_zero] at hfront
    simp only [String.toList_ofList, hfront, splitAtByte_front, Nat.sub_eq_zero_of_le hsize,
      List.replicate_zero]
    simp [← String.ofList_append, hwhole]

end Files

namespace Command

theorem sum_chunkSizes_le (gathered : Nat) (sizes : List Nat) :
    (chunkSizes gathered sizes).sum ≤ gathered + sizes.sum := by
  fun_induction chunkSizes gathered sizes <;> simp only [List.sum_cons, List.sum_nil] <;> omega

theorem sentBytes_le (held : Nat) (sizes : List Nat) :
    sentBytes held sizes ≤ held + sizes.sum := by
  fun_induction sentBytes held sizes <;> simp only [List.sum_cons, List.sum_nil] <;> omega

theorem utf8ByteSize_listing (code : List Instr) :
    (Instr.listing code).utf8ByteSize =
      (code.map fun instr => instr.text.utf8ByteSize + 1).sum := by
  induction code with
  | nil => rfl
  | cons instr rest ih =>
      have hbreak : "\n".utf8ByteSize = 1 := rfl
      rw [Instr.listing] at ih ⊢
      rw [List.map_cons, String.join_cons, String.utf8ByteSize_append, ih,
        String.utf8ByteSize_append, hbreak, List.map_cons, List.sum_cons]

/-- No more bytes are sent to a file than its listing has. -/
theorem sentBytes_le_utf8ByteSize (code : List Instr) :
    sentBytes 0 (chunkSizes 0 (code.map fun instr => instr.text.utf8ByteSize + 1)) ≤
      (Instr.listing code).utf8ByteSize := by
  have hsent := sentBytes_le 0 (chunkSizes 0 (code.map fun instr => instr.text.utf8ByteSize + 1))
  have hchunks := sum_chunkSizes_le 0 (code.map fun instr => instr.text.utf8ByteSize + 1)
  rw [utf8ByteSize_listing]
  omega

end Command

/-!
# Outputs in the journal
-/

namespace Journal

/-- Write what still waits. -/
def flush (journal : Journal) : Option Command.Pending -> Journal
  | some pending => journal.write pending.path pending.start pending.text
  | none => journal

variable (journal : Journal)

@[simp] theorem sources_flush (pending : Option Command.Pending) :
    (journal.flush pending).sources = journal.sources := by
  cases pending <;> rfl

theorem get?_write_self (path : String) (start : Nat) (text : String) :
    (journal.write path start text).files.get? path =
      some (Files.overlay start text ((journal.files.get? path).getD "")) :=
  Bindings.get?_set_self _ _ _

theorem get?_write_of_ne {path other : String} (start : Nat) (text : String)
    (h : other ≠ path) :
    (journal.write path start text).files.get? other = journal.files.get? other :=
  Bindings.get?_set_of_ne _ _ h

variable {journal}

theorem get?_flush_of_forall_ne {pending : Option Command.Pending} {path : String}
    (h : forall waiting, waiting ∈ pending -> path ≠ waiting.path) :
    (journal.flush pending).files.get? path = journal.files.get? path := by
  cases pending with
  | none => rfl
  | some pending => exact journal.get?_write_of_ne _ _ (h pending rfl)

/-- What waits is put over what its file holds, so a file that holds the same holds the same
afterwards. -/
theorem get?_flush_congr {journal' : Journal} {path : String}
    (h : journal'.files.get? path = journal.files.get? path)
    (pending : Option Command.Pending) :
    (journal'.flush pending).files.get? path = (journal.flush pending).files.get? path := by
  cases pending with
  | none => exact h
  | some pending =>
      by_cases hpath : path = pending.path
      · subst hpath
        rw [flush, get?_write_self, h, flush, get?_write_self]
      · rw [flush, get?_write_of_ne _ _ _ hpath, h, flush, get?_write_of_ne _ _ _ hpath]

end Journal

namespace Command

/-- The files that a source is compiled into. -/
def outputs (source : String) : List String :=
  [treePath source, codePath source]

theorem treePath_ne_codePath (source : String) : treePath source ≠ codePath source := by
  intro h
  have hsize := congrArg String.utf8ByteSize h
  have hxml : ".xml".utf8ByteSize = 4 := rfl
  rw [treePath, String.utf8ByteSize_append, hxml] at hsize
  omega

variable (system : FileSystem (StateM σ)) (world : σ) (journal : Journal)

theorem run_flush (pending : Option Pending) :
    exists world', (Pending.flush system.journaled pending).run (world, journal) =
      ((), world', journal.flush pending) := by
  cases pending with
  | none => exact ⟨world, rfl⟩
  | some pending => exact ⟨_, rfl⟩

theorem run_read (path : String) :
    (system.journaled.read path).run (world, journal) =
      (((system.read path).run world).1, ((system.read path).run world).2,
        journal.read path ((system.read path).run world).1) := rfl

theorem run_create (path : String) :
    (system.journaled.create path).run (world, journal) =
      (((system.create path).run world).1, ((system.create path).run world).2,
        journal.create path ((system.create path).run world).1) := rfl

theorem run_openOutputs (source : String) :
    exists answer world' journal',
      (openOutputs system.journaled source).run (world, journal) = (answer, world', journal') ∧
      journal'.sources = journal.sources ∧
      (forall path, path ∉ outputs source ->
        journal'.files.get? path = journal.files.get? path) ∧
      (answer = .ok () -> forall path, path ∈ outputs source ->
        journal'.files.get? path = some "") := by
  have htree := run_create system world journal (treePath source)
  rcases hfirst : (system.create (treePath source)).run world with ⟨fault | ⟨⟩, world'⟩
  · rw [hfirst] at htree
    exact ⟨_, _, _, run_bind_of_run htree, rfl, fun _ _ => rfl, nofun⟩
  rw [hfirst] at htree
  have hcode := run_create system world' (journal.create (treePath source) (.ok ()))
    (codePath source)
  rcases hsecond : (system.create (codePath source)).run world' with ⟨fault | ⟨⟩, world''⟩
  · rw [hsecond] at hcode
    refine ⟨_, _, _, (run_bind_of_run htree).trans hcode, rfl, ?_, nofun⟩
    intro path hpath
    exact Bindings.get?_set_of_ne _ _ (List.ne_of_not_mem_cons hpath)
  · rw [hsecond] at hcode
    refine ⟨_, _, _, (run_bind_of_run htree).trans hcode, rfl, ?_, ?_⟩
    · intro path hpath
      rw [outputs, List.mem_cons, List.mem_singleton, not_or] at hpath
      exact (Bindings.get?_set_of_ne _ _ hpath.2).trans (Bindings.get?_set_of_ne _ _ hpath.1)
    · intro _ path hpath
      rw [outputs, List.mem_cons, List.mem_singleton] at hpath
      rcases hpath with rfl | rfl
      · exact (Bindings.get?_set_of_ne _ _ (treePath_ne_codePath source)).trans
          (Bindings.get?_set_self _ _ _)
      · exact Bindings.get?_set_self _ _ _

theorem run_writeCode (path : String) (code : List Instr) :
    exists pending world' journal',
      (writeCode system.journaled path code).run (world, journal) = (pending, world', journal') ∧
      pending.path = path ∧
      journal'.sources = journal.sources ∧
      (forall other, other ≠ path -> journal'.files.get? other = journal.files.get? other) ∧
      (journal.files.get? path = some "" ->
        (journal'.flush (some pending)).files.get? path = some (Instr.listing code)) := by
  refine ⟨_, _, _, rfl, rfl, rfl, fun other h => journal.get?_write_of_ne _ _ h, ?_⟩
  intro hempty
  have hfront := journal.get?_write_self path 0
  rw [Journal.flush, Journal.get?_write_self]
  simp only [hfront, hempty, Option.getD_some, Files.overlay_empty]
  rw [Files.overlay_splitAtByte (sentBytes_le_utf8ByteSize code)]

end Command

end Jack
