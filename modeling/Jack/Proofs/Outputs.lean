import Jack.Proofs.Journal
import Jack.Proofs.Order
import Jack.Proofs.Replacement

/-!
# The outputs of sources

A source `b.jack` is compiled into `b.vm` and `b.vm.xml`, where every further `.jack` in `b`
has become `.vm`.  The module follows a run through its journal, source by source: what it
reads, which files it makes, and what they hold in the end.  Sources whose names become the
same one write over each other.
-/

namespace Jack
namespace Command

variable {σ : Type}

/-!
# Output paths
-/

theorem codeChars_eq_replaceChars (chars : List Char) :
    codeChars chars = Text.replaceChars ".jack".toList ".vm".toList chars := by
  fun_induction codeChars chars with
  | case1 => rfl
  | case2 rest ih =>
      have hpattern : ".jack".toList ≠ [] := by decide
      have hoccurs : Text.replaceChars ".jack".toList ".vm".toList (".jack".toList ++ rest) =
          ".vm".toList ++ Text.replaceChars ".jack".toList ".vm".toList rest :=
        Text.replaceChars_pattern hpattern rest
      rw [ih]
      exact hoccurs.symm
  | case3 c rest hother ih =>
      have hnot : ¬ ".jack".toList <+: c :: rest := by
        rintro ⟨behind, hbehind⟩
        cases hbehind
        exact hother _ rfl rfl
      rw [ih, Text.replaceChars_cons hnot]

theorem codePath_eq_replaceAll (source : String) :
    codePath source = Text.replaceAll ".jack" ".vm" source :=
  congrArg String.ofList (codeChars_eq_replaceChars source.toList)

theorem isSource_iff {path : String} :
    isSource path = true ↔ exists stem, path = stem ++ ".jack" := by
  rw [isSource, List.isSuffixOf_iff_suffix]
  constructor
  · rintro ⟨stem, hstem⟩
    refine ⟨String.ofList stem, ?_⟩
    rw [← String.toList_inj, String.toList_append, String.toList_ofList, hstem]
  · rintro ⟨stem, rfl⟩
    rw [String.toList_append]
    exact List.suffix_append _ _

/-- The name of the outputs of a source, without their endings. -/
def outputStem (stem : String) : String :=
  Text.replaceAll ".jack" ".vm" stem

theorem codePath_append (stem : String) :
    codePath (stem ++ ".jack") = outputStem stem ++ ".vm" := by
  have hdot : '.' ∉ "jack".toList := by decide
  have hend : Text.replaceChars ".jack".toList ".vm".toList (stem.toList ++ ".jack".toList) =
      Text.replaceChars ".jack".toList ".vm".toList stem.toList ++ ".vm".toList :=
    Text.replaceChars_append_pattern hdot stem.toList
  rw [codePath_eq_replaceAll, Text.replaceAll, String.toList_append, hend, String.ofList_append,
    String.ofList_toList]
  rfl

/-- Only `.jack` is replaced, by something shorter. -/
theorem outputStem_eq_self_iff (stem : String) :
    outputStem stem = stem ↔ ¬ ".jack".toList <:+: stem.toList := by
  have hself : Text.replaceChars ".jack".toList ".vm".toList stem.toList = stem.toList ↔
      ¬ ".jack".toList <:+: stem.toList :=
    Text.replaceChars_eq_self_iff (by decide) (by decide) stem.toList
  rw [← hself, outputStem, Text.replaceAll, ← String.toList_inj, String.toList_ofList]

theorem infix_of_outputStem_eq {stem other : String} (h : outputStem stem = outputStem other)
    (hne : stem ≠ other) :
    ".jack".toList <:+: stem.toList ∨ ".jack".toList <:+: other.toList := by
  by_contra hneither
  rw [not_or, ← outputStem_eq_self_iff, ← outputStem_eq_self_iff] at hneither
  rw [hneither.1, hneither.2] at h
  exact hne h

/-- Code and trees are told apart by the ends of their paths. -/
theorem codePath_ne_treePath {source : String} (h : isSource source = true) (other : String) :
    codePath source ≠ treePath other := by
  rcases isSource_iff.mp h with ⟨stem, rfl⟩
  intro heq
  have hlast := congrArg (fun path : String => path.toList.getLast?) heq
  simp [codePath_append, treePath, String.toList_append] at hlast

theorem outputs_meet_iff {source other : String} (hsource : isSource source = true)
    (hother : isSource other = true) :
    (exists path, path ∈ outputs source ∧ path ∈ outputs other) ↔
      codePath source = codePath other := by
  simp only [outputs, List.mem_cons, List.not_mem_nil, or_false]
  constructor
  · rintro ⟨path, rfl | rfl, h | h⟩
    · exact (String.append_left_inj _).mp h
    · exact absurd h.symm (codePath_ne_treePath hother source)
    · exact absurd h (codePath_ne_treePath hsource other)
    · exact h
  · intro h
    exact ⟨codePath source, Or.inr rfl, Or.inr h⟩

/-- Sources with different codes have different outputs. -/
theorem not_mem_outputs {source other path : String} (hsource : isSource source = true)
    (hother : isSource other = true) (h : codePath source ≠ codePath other)
    (hpath : path ∈ outputs source) : path ∉ outputs other :=
  fun hmem => h ((outputs_meet_iff hsource hother).mp ⟨path, hpath, hmem⟩)

theorem exists_output_path {source : String} (h : isSource source = true) :
    exists stem, source = stem ++ ".jack" ∧ codePath source = outputStem stem ++ ".vm" ∧
      treePath source = outputStem stem ++ ".vm.xml" ∧
      (outputStem stem = stem ↔ ¬ ".jack".toList <:+: stem.toList) := by
  rcases isSource_iff.mp h with ⟨stem, rfl⟩
  have hcode := codePath_append stem
  refine ⟨stem, rfl, hcode, ?_, outputStem_eq_self_iff stem⟩
  rw [treePath, hcode, String.append_assoc]
  rfl

theorem outputs_meet_append_iff (stem other : String) :
    (exists output, output ∈ outputs (stem ++ ".jack") ∧ output ∈ outputs (other ++ ".jack")) ↔
      outputStem stem = outputStem other := by
  rw [outputs_meet_iff (isSource_iff.mpr ⟨stem, rfl⟩) (isSource_iff.mpr ⟨other, rfl⟩),
    codePath_append, codePath_append]
  exact String.append_left_inj _

/-!
# One source
-/

/-- The outputs of a source hold the code and the tree that were written for it. -/
def HoldOutputs (files : Bindings String String) (source : String)
    (written : List Instr × List Tree.Line) : Prop :=
  files.get? (codePath source) = some (Instr.listing written.1) ∧
    files.get? (treePath source) = some (Tree.listing written.2)

theorem HoldOutputs.congr {files files' : Bindings String String} {source : String}
    {written : List Instr × List Tree.Line} (hhold : HoldOutputs files source written)
    (h : forall path, path ∈ outputs source -> files'.get? path = files.get? path) :
    HoldOutputs files' source written := by
  unfold outputs at h
  unfold HoldOutputs
  rw [h (codePath source) (by simp), h (treePath source) (by simp)]
  exact hhold

/-- Some sources were read.  All files but their outputs hold what they held, with what
waited. -/
structure Changes (journal : Journal) (pending : Option Pending)
    (read : List (String × String)) (journal' : Journal) : Prop where
  sources : journal'.sources = journal.sources ++ read
  others : forall path, (forall pair, pair ∈ read -> path ∉ outputs pair.1) ->
    journal'.files.get? path = (journal.flush pending).files.get? path

namespace Changes

variable {journal journal' journal'' : Journal} {pending : Option Pending}
  {read more : List (String × String)}

theorem flush (hsources : journal'.sources = journal.sources ++ read)
    (hothers : forall path, (forall pair, pair ∈ read -> path ∉ outputs pair.1) ->
      journal'.files.get? path = journal.files.get? path) :
    Changes journal pending read (journal'.flush pending) :=
  ⟨by rw [Journal.sources_flush, hsources],
    fun path hpath => Journal.get?_flush_congr (hothers path hpath) pending⟩

theorem trans {waiting : Pending} {source text : String}
    (hfirst : Changes journal pending [(source, text)] journal')
    (hwaiting : waiting.path = codePath source)
    (hmore : Changes journal' (some waiting) more journal'') :
    Changes journal pending ((source, text) :: more) journal'' := by
  constructor
  · rw [hmore.sources, hfirst.sources, List.append_assoc, List.singleton_append]
  · intro path hpath
    rw [List.forall_mem_cons] at hpath
    have hother : path ≠ waiting.path := by
      intro heq
      apply hpath.1
      rw [heq, hwaiting, outputs]
      exact List.mem_cons_of_mem _ List.mem_cons_self
    rw [hmore.others path hpath.2, Journal.flush, Journal.get?_write_of_ne _ _ _ hother,
      hfirst.others path (by simpa using hpath.1)]

end Changes

variable (system : FileSystem (StateM σ)) (world : σ) (journal : Journal)

/-- Writing a tree and a code over empty outputs. -/
theorem run_writeOutputs (source : String) (written : List Instr × List Tree.Line) :
    exists waiting world' journal',
      (forall next : Pending -> StateM (σ × Journal) (Option Fault),
        (do
          system.journaled.write (treePath source) 0 (Tree.listing written.2)
          let waiting ← writeCode system.journaled (codePath source) written.1
          next waiting).run (world, journal) = (next waiting).run (world', journal')) ∧
      waiting.path = codePath source ∧
      journal'.sources = journal.sources ∧
      (forall path, path ∉ outputs source ->
        journal'.files.get? path = journal.files.get? path) ∧
      ((forall path, path ∈ outputs source -> journal.files.get? path = some "") ->
        HoldOutputs (journal'.flush (some waiting)).files source written) := by
  have hne := treePath_ne_codePath source
  let after := (system.write (treePath source) 0 (Tree.listing written.2)).run world
  rcases run_writeCode system after.2
    (journal.write (treePath source) 0 (Tree.listing written.2)) (codePath source) written.1
    with ⟨waiting, world', journal', hrun, hpath, hsources, hothers, hcode⟩
  refine ⟨waiting, world', journal', fun next => run_bind_of_run hrun, hpath, hsources, ?_, ?_⟩
  · intro path hnot
    rw [outputs, List.mem_cons, List.mem_singleton, not_or] at hnot
    rw [hothers path hnot.2, Journal.get?_write_of_ne _ _ _ hnot.1]
  · intro hempty
    have htree := hempty (treePath source) List.mem_cons_self
    have hfree := hempty (codePath source) (List.mem_cons_of_mem _ List.mem_cons_self)
    constructor
    · apply hcode
      rw [Journal.get?_write_of_ne _ _ _ hne.symm, hfree]
    · rw [Journal.flush, hpath, Journal.get?_write_of_ne _ _ _ hne, hothers _ hne,
        Journal.get?_write_self, htree, Option.getD_some, Files.overlay_empty]

/-- A run ends at a source, which was read or not. -/
def EndsAt (source : String) (pending : Option Pending) (journal : Journal)
    (result : Option Fault × σ × Journal) : Prop :=
  exists fault read, result.1 = some fault ∧ read.map Prod.fst <+: [source] ∧
    Changes journal pending read result.2.2

/-- A run goes on behind a source, which is accepted.  Its outputs hold what was written for
it, together with what waits, unless something waited for them before. -/
def GoesOn (source : String) (sources : List String) (c : Compiler) (pending : Option Pending)
    (result : Option Fault × σ × Journal) : Prop :=
  exists text waiting world' journal',
    result = (compileEach system.journaled sources (c.compile text).compiler
      (some waiting)).run (world', journal') ∧
    (c.compile text).fault = none ∧
    waiting.path = codePath source ∧
    Changes journal pending [(source, text)] journal' ∧
    ((forall before, before ∈ pending -> before.path ∉ outputs source) ->
      HoldOutputs (journal'.flush (some waiting)).files source (c.compile text).compiler.written)

theorem endsAt_stop {journal' : Journal} {source : String} {pending : Option Pending}
    {read : List (String × String)} (hread : read.map Prod.fst <+: [source])
    (hsources : journal'.sources = journal.sources ++ read)
    (hothers : forall path, (forall pair, pair ∈ read -> path ∉ outputs pair.1) ->
      journal'.files.get? path = journal.files.get? path) (fault : Fault) :
    EndsAt source pending journal
      ((do Pending.flush system.journaled pending; pure (some fault) :
        StateM (σ × Journal) (Option Fault)).run (world, journal')) := by
  rcases run_flush system world journal' pending with ⟨world', hflush⟩
  rw [run_bind_of_run hflush]
  exact ⟨fault, read, rfl, hread, Changes.flush hsources hothers⟩

theorem run_compileEach_cons (source : String) (sources : List String) (c : Compiler)
    (pending : Option Pending) :
    EndsAt source pending journal
        ((compileEach system.journaled (source :: sources) c pending).run (world, journal)) ∨
      GoesOn system journal source sources c pending
        ((compileEach system.journaled (source :: sources) c pending).run (world, journal)) := by
  rw [compileEach]
  have hread := run_read system world journal source
  rcases hanswer : (system.read source).run world with ⟨fault | text, world₁⟩
  · rw [hanswer] at hread
    rw [run_bind_of_run hread]
    have hnothing : journal.sources = journal.sources ++ [] := (List.append_nil _).symm
    have hnone : ([] : List (String × String)).map Prod.fst <+: [source] := List.nil_prefix
    exact Or.inl (endsAt_stop system world₁ journal hnone hnothing (fun _ _ => rfl) fault)
  rw [hanswer] at hread
  rw [run_bind_of_run hread]
  have hsources₁ : (journal.read source (.ok text)).sources =
      journal.sources ++ [(source, text)] := rfl
  have hself : [(source, text)].map Prod.fst <+: [source] := List.prefix_refl _
  dsimp only
  cases Scanner.ofText text with
  | error fault =>
      exact Or.inl (endsAt_stop system world₁ journal hself hsources₁ (fun _ _ => rfl) fault)
  | ok scanner =>
      rcases run_openOutputs system world₁ (journal.read source (.ok text)) source
        with ⟨answer, world₂, journal₂, hopen, hsources₂, hothers₂, hempty⟩
      rw [run_bind_of_run hopen]
      have hothers : forall path,
          (forall pair, pair ∈ [(source, text)] -> path ∉ outputs pair.1) ->
            journal₂.files.get? path = journal.files.get? path :=
        fun path hpath => hothers₂ path (hpath (source, text) List.mem_cons_self)
      cases answer with
      | error fault =>
          exact Or.inl (endsAt_stop system world₂ journal hself hsources₂ hothers fault)
      | ok opened =>
          rcases run_flush system world₂ journal₂ pending with ⟨world₃, hflush⟩
          rcases run_writeOutputs system world₃ (journal₂.flush pending) source
            (c.compile text).compiler.written
            with ⟨waiting, world₄, journal₄, hwrite, hwaiting, hsources₄, hothers₄, hhold⟩
          dsimp only
          rw [run_bind_of_run hflush, hwrite]
          have hopened : Changes journal pending [(source, text)] (journal₂.flush pending) :=
            Changes.flush hsources₂ hothers
          have hwritten : Changes journal pending [(source, text)] journal₄ := by
            constructor
            · rw [hsources₄, hopened.sources]
            · intro path hpath
              rw [hothers₄ path (hpath (source, text) List.mem_cons_self),
                hopened.others path hpath]
          cases hfault : (c.compile text).fault with
          | some fault =>
              rcases run_flush system world₄ journal₄ (some waiting) with ⟨world₅, hlast⟩
              dsimp only
              rw [run_bind_of_run hlast]
              have hnothing : journal₄.sources = journal₄.sources ++ [] :=
                (List.append_nil _).symm
              exact Or.inl ⟨fault, [(source, text)], rfl, hself,
                hwritten.trans hwaiting (Changes.flush hnothing fun _ _ => rfl)⟩
          | none =>
              refine Or.inr ⟨text, waiting, world₄, journal₄, rfl, hfault, hwaiting, hwritten, ?_⟩
              intro hfree
              apply hhold
              intro path hpath
              rw [Journal.get?_flush_of_forall_ne, hempty rfl path hpath]
              intro before hbefore heq
              rw [heq] at hpath
              exact hfree before hbefore hpath

/-!
# All sources of a run
-/

/-- What a run over some sources comes to.  The sources are read in order, all of them unless
it ends with a fault.  The ones it gets past are accepted, one after the other, and the
outputs of such a source hold what was written for it if no other source has the same. -/
structure Compiles (c : Compiler) (sources : List String) (pending : Option Pending)
    (journal : Journal) (fault : Option Fault) (journal' : Journal)
    (read : List (String × String)) : Prop where
  changes : Changes journal pending read journal'
  inOrder : read.map Prod.fst <+: sources
  all : fault = none -> read.map Prod.fst = sources
  accepted : forall before source text after, read = before ++ (source, text) :: after ->
    (after ≠ [] ∨ fault = none) ->
    ((c.compileAll (before.map Prod.snd)).compile text).fault = none
  hold : forall before source text after, read = before ++ (source, text) :: after ->
    (after ≠ [] ∨ fault = none) ->
    (forall other, other ∈ before ++ after -> codePath other.1 ≠ codePath source) ->
    (forall waiting, waiting ∈ pending -> waiting.path ∉ outputs source) ->
    HoldOutputs journal'.files source
      ((c.compileAll (before.map Prod.snd)).compile text).compiler.written

namespace Compiles

variable {c : Compiler} {source text : String} {sources : List String}
  {pending : Option Pending} {journal journal' journal'' : Journal} {fault : Option Fault}
  {read : List (String × String)}

theorem of_end {fault : Fault} (hread : read.map Prod.fst <+: [source])
    (hchanges : Changes journal pending read journal') :
    Compiles c (source :: sources) pending journal (some fault) journal' read := by
  have hlength := hread.length_le
  rw [List.length_map, List.length_singleton] at hlength
  have hlast : forall before pair after, read = before ++ pair :: after ->
      ¬ (after ≠ [] ∨ some fault = none) := by
    rintro before pair after rfl (hafter | hnone)
    · have hpos := List.length_pos_iff.mpr hafter
      rw [List.length_append, List.length_cons] at hlength
      omega
    · cases hnone
  exact ⟨hchanges, hread.trans (List.prefix_append [source] sources), nofun,
    fun before _ _ after h hpast => absurd hpast (hlast before _ after h),
    fun before _ _ after h hpast => absurd hpast (hlast before _ after h)⟩

theorem cons {waiting : Pending}
    (hsources : forall other, other ∈ source :: sources -> isSource other = true)
    (haccepted : (c.compile text).fault = none) (hwaiting : waiting.path = codePath source)
    (hchanges : Changes journal pending [(source, text)] journal')
    (hhold : (forall before, before ∈ pending -> before.path ∉ outputs source) ->
      HoldOutputs (journal'.flush (some waiting)).files source (c.compile text).compiler.written)
    (hrest : Compiles (c.compile text).compiler sources (some waiting) journal' fault journal''
      read) :
    Compiles c (source :: sources) pending journal fault journal'' ((source, text) :: read) := by
  rw [List.forall_mem_cons] at hsources
  have hread : forall pair, pair ∈ read -> isSource pair.1 = true :=
    fun pair hpair => hsources.2 _ (hrest.inOrder.subset (List.mem_map_of_mem hpair))
  refine ⟨hchanges.trans hwaiting hrest.changes, ?_, ?_, ?_, ?_⟩
  · exact List.cons_prefix_cons.mpr ⟨rfl, hrest.inOrder⟩
  · intro hnone
    rw [List.map_cons, hrest.all hnone]
  · intro before source' text' after hsplit hpast
    cases before with
    | nil =>
        cases hsplit
        exact haccepted
    | cons pair before =>
        cases hsplit
        exact hrest.accepted before source' text' after rfl hpast
  · intro before source' text' after hsplit hpast hothers hfree
    cases before with
    | nil =>
        cases hsplit
        apply (hhold hfree).congr
        intro path hpath
        apply hrest.changes.others
        intro pair hpair
        exact not_mem_outputs hsources.1 (hread pair hpair) (hothers pair hpair).symm hpath
    | cons pair before =>
        cases hsplit
        apply hrest.hold before source' text' after rfl hpast
        · exact fun other hother => hothers other (List.mem_cons_of_mem _ hother)
        · -- what waits for its file is the code of the source before
          rintro _ ⟨⟩
          rw [hwaiting]
          have hsource' := hread (source', text') (List.mem_append_right _ List.mem_cons_self)
          have hcode : codePath source ∈ outputs source := by simp [outputs]
          exact not_mem_outputs hsources.1 hsource' (hothers (source, text) List.mem_cons_self)
            hcode

end Compiles

theorem compiles_compileEach (sources : List String)
    (hsources : forall source, source ∈ sources -> isSource source = true) (c : Compiler)
    (pending : Option Pending) :
    exists read, Compiles c sources pending journal
      ((compileEach system.journaled sources c pending).run (world, journal)).1
      ((compileEach system.journaled sources c pending).run (world, journal)).2.2 read := by
  induction sources generalizing world journal c pending with
  | nil =>
      rcases run_flush system world journal pending with ⟨world', hflush⟩
      rw [compileEach, run_bind_of_run hflush]
      exact ⟨[], Changes.flush (List.append_nil _).symm fun _ _ => rfl, List.nil_prefix,
        fun _ => rfl, fun before _ _ _ h => by simp at h, fun before _ _ _ h => by simp at h⟩
  | cons source sources ih =>
      rcases run_compileEach_cons system world journal source sources c pending with
        ⟨fault, read, hfault, hread, hchanges⟩ |
        ⟨text, waiting, world', journal', hrun, haccepted, hwaiting, hchanges, hhold⟩
      · rw [hfault]
        exact ⟨read, Compiles.of_end hread hchanges⟩
      · rw [hrun]
        have hothers := fun other hother => hsources other (List.mem_cons_of_mem source hother)
        rcases ih world' journal' hothers (c.compile text).compiler (some waiting)
          with ⟨read, hrest⟩
        exact ⟨(source, text) :: read, hrest.cons hsources haccepted hwaiting hchanges hhold⟩

/-!
# The sources of a path
-/

theorem isSource_join (path : String) {name : String} (h : isSource name = true) :
    isSource (join path name) = true := by
  rcases isSource_iff.mp h with ⟨stem, rfl⟩
  apply isSource_iff.mpr
  unfold join
  split
  · exact ⟨path ++ stem, String.append_assoc.symm⟩
  · exact ⟨path ++ "/" ++ stem, String.append_assoc.symm⟩

/-- A path stands for a source: for itself, or for each one in its directory. -/
def StandsFor (path source : String) : Prop :=
  if isSource path then source = path
  else exists names name, ((system.list path).run world).1 = .ok names ∧ name ∈ names ∧
    isSource name = true ∧ source = join path name

theorem StandsFor.isSource {path source : String} (h : StandsFor system world path source) :
    isSource source = true := by
  unfold StandsFor at h
  split at h
  · next hpath => rwa [h]
  · rcases h with ⟨_, name, _, _, hname, rfl⟩
    exact isSource_join path hname

theorem mem_sourcesOf_iff {path : String} {sources : List String}
    (h : ((sourcesOf system path).run world).1 = .ok sources) (source : String) :
    source ∈ sources ↔ StandsFor system world path source := by
  unfold sourcesOf at h
  unfold StandsFor
  split at h
  · next hpath =>
    cases h
    rw [if_pos hpath, List.mem_singleton]
  · next hpath =>
    rw [if_neg hpath]
    rcases hlist : (system.list path).run world with ⟨fault | names, world'⟩
    · rw [run_bind_of_run hlist] at h
      cases h
    · rw [run_bind_of_run hlist] at h
      cases h
      simp only [List.mem_map, List.mem_filter, List.mem_mergeSort]
      constructor
      · rintro ⟨name, ⟨hmem, hname⟩, rfl⟩
        exact ⟨names, name, rfl, hmem, hname, rfl⟩
      · rintro ⟨_, name, hnames, hmem, hname, rfl⟩
        cases hnames
        exact ⟨name, ⟨hmem, hname⟩, rfl⟩

/-- A path whose sources cannot be listed is left with a fault.  Otherwise its sources are
compiled by a new compiler. -/
theorem compiles_compile {path : String} {answer : String × Option Fault} {world' : σ}
    {journal : Journal}
    (hrun : (compile system.journaled [path]).run (world, {}) = (answer, world', journal)) :
    (answer.2 ≠ none ∧ journal = {}) ∨
      exists sources, (forall source, source ∈ sources ↔ StandsFor system world path source) ∧
        Compiles {} sources none {} answer.2 journal journal.sources := by
  have hlookup := run_sourcesOf system world {} path
  rw [compile, run_bind_of_run hlookup] at hrun
  cases hanswer : ((sourcesOf system path).run world).1 with
  | error fault =>
      rw [hanswer] at hrun
      cases hrun
      exact Or.inl ⟨nofun, rfl⟩
  | ok sources =>
      have hsources := mem_sourcesOf_iff system world hanswer
      rcases compiles_compileEach system ((sourcesOf system path).run world).2 {} sources
        (fun source hsource => ((hsources source).mp hsource).isSource) {} none with ⟨read, hread⟩
      rcases heach : (compileEach system.journaled sources {} none).run
        (((sourcesOf system path).run world).2, {}) with ⟨fault, world'', journal'⟩
      rw [heach] at hread
      rw [hanswer] at hrun
      have hend := (run_bind_of_run heach).symm.trans hrun
      cases hend
      have hall : journal.sources = read := hread.changes.sources
      rw [← hall] at hread
      exact Or.inr ⟨sources, hsources, hread⟩

/-- Whatever a path stands for, the journal of compiling it tells: the outputs of a source
lie beside it, under its name, unless `.jack` occurs in that name or in the directories
before it.  Then every occurrence is replaced, and sources whose names become the same one
have the same outputs.  A source that has its outputs to itself is compiled into them. -/
theorem compiles_into_outputs {path : String} {answer : String × Option Fault}
    {world' : σ} {journal : Journal}
    (hrun : (compile system.journaled [path]).run (world, {}) = (answer, world', journal)) :
    -- the journal is one of the command as it is
    (compile system [path]).run world = (answer, world') ∧
    -- which sources are read, and what their outputs are called
    (forall pair, pair ∈ journal.sources -> StandsFor system world path pair.1 ∧
      exists stem, pair.1 = stem ++ ".jack" ∧ codePath pair.1 = outputStem stem ++ ".vm" ∧
        treePath pair.1 = outputStem stem ++ ".vm.xml" ∧
        (outputStem stem = stem ↔ ¬ ".jack".toList <:+: stem.toList)) ∧
    (answer.2 = none -> forall source, StandsFor system world path source ->
      exists text, (source, text) ∈ journal.sources) ∧
    -- no other files are made
    (forall output, (journal.files.get? output).isSome = true ->
      exists pair, pair ∈ journal.sources ∧ output ∈ outputs pair.1) ∧
    -- which sources have an output in common
    (forall stem other,
      ((exists output, output ∈ outputs (stem ++ ".jack") ∧
        output ∈ outputs (other ++ ".jack")) ↔ outputStem stem = outputStem other) ∧
      (outputStem stem = outputStem other -> stem ≠ other ->
        ".jack".toList <:+: stem.toList ∨ ".jack".toList <:+: other.toList)) ∧
    -- what the outputs hold
    forall before source text after, journal.sources = before ++ (source, text) :: after ->
      (after ≠ [] ∨ answer.2 = none) ->
      ((({} : Compiler).compileAll (before.map Prod.snd)).compile text).fault = none ∧
      ((forall other, other ∈ before ++ after -> codePath other.1 ≠ codePath source) ->
        HoldOutputs journal.files source
          ((({} : Compiler).compileAll (before.map Prod.snd)).compile text).compiler.written) := by
  have hforget := compile_forgets system path world {}
  rw [hrun] at hforget
  refine ⟨hforget, ?_⟩
  rcases compiles_compile system world hrun with ⟨hfault, rfl⟩ | ⟨sources, hsources, hcompiles⟩
  · -- the sources of the path cannot be listed, and nothing is done
    exact ⟨nofun, fun hnone => absurd hnone hfault, nofun,
      fun stem other => ⟨outputs_meet_append_iff stem other, infix_of_outputStem_eq⟩, by simp⟩
  refine ⟨?_, ?_, ?_,
    fun stem other => ⟨outputs_meet_append_iff stem other, infix_of_outputStem_eq⟩, ?_⟩
  · intro pair hpair
    have hstands := (hsources pair.1).mp (hcompiles.inOrder.subset (List.mem_map_of_mem hpair))
    exact ⟨hstands, exists_output_path hstands.isSource⟩
  · intro hnone source hstands
    have hmem := (hsources source).mpr hstands
    rw [← hcompiles.all hnone, List.mem_map] at hmem
    rcases hmem with ⟨⟨_, text⟩, hpair, rfl⟩
    exact ⟨text, hpair⟩
  · intro output hsome
    by_contra hnone
    have hothers := hcompiles.changes.others output
      fun pair hpair hmem => hnone ⟨pair, hpair, hmem⟩
    rw [hothers] at hsome
    cases hsome
  · intro before source text after hread hpast
    exact ⟨hcompiles.accepted before source text after hread hpast,
      fun hothers => hcompiles.hold before source text after hread hpast hothers nofun⟩

/-!
# Two sources with the same outputs
-/

theorem run_compile_of_sorted {path : String} {names : List String} {world' : σ}
    {result : Option Fault × σ} (hpath : isSource path = false)
    (hlist : (system.list path).run world = (.ok names, world'))
    (hsorted : names.Pairwise fun a b => decide (a <= b) = true)
    (heach : (compileEach system ((names.filter isSource).map (join path)) {} none).run world' =
      result) :
    (compile system [path]).run world = (("", result.1), result.2) := by
  have hsources : (sourcesOf system path).run world =
      (.ok ((names.filter isSource).map (join path)), world') := by
    rw [sourcesOf, if_neg (by simp [hpath]), run_bind_of_run hlist]
    dsimp only
    rw [List.mergeSort_of_pairwise hsorted]
    rfl
  rw [compile, run_bind_of_run hsources]
  exact run_bind_of_run heach

def firstText : String := "class A \x7b \x7d"

def secondText : String := "class B \x7b \x7d"

def thirdText : String := "class C \x7b \x7d"

/-- A directory of three sources.  In the name of the first one `.jack` occurs twice. -/
def crowded : Files :=
  ((({} : Files).put "d/a.vm.jack" thirdText).put "d/a.m.jack" secondText).put
    "d/a.jack.jack" firstText

/-- The first source and the last one have their outputs in common, the other one has its
own. -/
theorem compiles_into_outputs_of_crowded :
    exists answer world' journal,
      (compile Files.system.journaled ["d"]).run (crowded, {}) = (answer, world', journal) ∧
      (exists output, output ∈ outputs "d/a.jack.jack" ∧ output ∈ outputs "d/a.vm.jack") ∧
      HoldOutputs journal.files "d/a.m.jack"
        ((({} : Compiler).compileAll [firstText]).compile secondText).compiler.written := by
  have hlist : (Files.system.journaled.list "d").run (crowded, {}) =
      (.ok ["a.jack.jack", "a.m.jack", "a.vm.jack"], crowded, {}) := rfl
  have hrun := run_compile_of_sorted Files.system.journaled (crowded, {}) (by decide) hlist
    (by decide) rfl
  rcases compiles_into_outputs Files.system crowded hrun with ⟨_, _, _, _, hmeet, hhold⟩
  refine ⟨_, _, _, hrun, (hmeet "d/a.jack" "d/a.vm").1.mpr (by decide), ?_⟩
  have hown := hhold [("d/a.jack.jack", firstText)] "d/a.m.jack" secondText
    [("d/a.vm.jack", thirdText)] (by decide +kernel) (Or.inl (List.cons_ne_nil _ _))
  exact hown.2 (by decide)

/-- The first source is not compiled into files beside it, and in the end the files it was
compiled into hold another class. -/
theorem sources_share_outputs :
    treePath "d/a.jack.jack" = "d/a.vm.vm.xml" ∧ treePath "d/a.vm.jack" = "d/a.vm.vm.xml" ∧
    exists world', (compile Files.system ["d"]).run crowded = (("", none), world') ∧
      world'.texts.get? ["d", "a.jack.vm.xml"] = none ∧
      world'.texts.get? ["d", "a.vm.vm.xml"] =
        some (Tree.listing (({} : Compiler).compile thirdText).compiler.written.2) := by
  have hlist : (Files.system.list "d").run crowded =
      (.ok ["a.jack.jack", "a.m.jack", "a.vm.jack"], crowded) := rfl
  have hrun := run_compile_of_sorted Files.system crowded (by decide) hlist (by decide) rfl
  have hend : ((compileEach Files.system ["d/a.jack.jack", "d/a.m.jack", "d/a.vm.jack"] {}
      none).run crowded).1 = none := by decide +kernel
  have hanswer := hrun.trans (congrArg (fun fault => (("", fault), _)) hend)
  exact ⟨by decide, by decide, _, hanswer, by decide +kernel, by decide +kernel⟩

end Command
end Jack
