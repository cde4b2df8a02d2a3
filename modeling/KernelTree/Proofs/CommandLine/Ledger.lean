import KernelTree.Proofs.CommandLine.OutputPaths
import KernelTree.Proofs.Compilation
/-! Runs of the program of which the writing is recorded. The paths that a run writes are those that
are chosen for the texts, in order, up to the first one that is refused. -/
namespace KernelTree

/-- Files whose answers are given beforehand. The paths that are written are recorded. -/
structure Ledger where
  text : String → Except FileError String
  makes : String → Except FileError Unit
  takes : String → String → Except FileError Unit
  written : List String := []

namespace Ledger

def record (l : Ledger) (paths : List String) : Ledger := { l with written := l.written ++ paths }

instance : Files (StateM Ledger) where
  read path := do return (← get).text path
  createDirectories path := do return (← get).makes path
  write path text := do
    modify (·.record [path])
    return (← get).takes path text

@[simp] theorem record_nil (l : Ledger) : l.record [] = l := by simp [record]

@[simp] theorem record_record (l : Ledger) (first second : List String) :
    (l.record first).record second = l.record (first ++ second) := by simp [record]

theorem run_bind (act : StateM Ledger α) (next : α → StateM Ledger β) (l : Ledger) :
    (act >>= next).run l = (next (act.run l).1).run (act.run l).2 := rfl

theorem run_pure (a : α) (l : Ledger) : (pure a : StateM Ledger α).run l = (a, l) := rfl

theorem run_read (l : Ledger) (path : String) :
    (Files.read path : StateM Ledger _).run l = (l.text path, l) := rfl

theorem run_createDirectories (l : Ledger) (path : String) :
    (Files.createDirectories path : StateM Ledger _).run l = (l.makes path, l) := rfl

theorem run_write (l : Ledger) (path text : String) :
    (Files.write path text : StateM Ledger _).run l = (l.takes path text, l.record [path]) := rfl

end Ledger

/-- A dialect that a target can stand for. -/
def Dialect.IsKnown (d : Dialect) : Prop :=
  d ∈ Dialect.builtins ∨ ∃ source path, Dialect.parse source path = .ok d

theorem DialectOverride.isValidName_of_parse {source path : String} {o : DialectOverride}
    (parsed : parse source path = .ok o) : isValidName o.name := by
  unfold parse at parsed
  split at parsed
  · obtain ⟨o', -, parsed⟩ := except_bind_ok.mp parsed
    split at parsed
    next valid =>
      cases parsed
      exact valid
    next => cases parsed
  · cases parsed

theorem DialectOverride.name_of_toDialect {o : DialectOverride} {d : Dialect}
    (built : o.toDialect = .ok d) : d.name = o.name := by
  unfold toDialect at built
  split at built
  · obtain ⟨words, -, built⟩ := except_bind_ok.mp built
    cases built
    rfl
  · cases built

theorem Dialect.mem_builtins_of_ofName? {name : String} {d : Dialect}
    (found : Dialect.ofName? name = some d) : d ∈ Dialect.builtins := by
  unfold ofName? at found
  split at found <;> cases found <;> simp [builtins]

theorem Dialect.IsKnown.isValidName {d : Dialect} (known : d.IsKnown) :
    DialectOverride.isValidName d.name := by
  rcases known with builtin | ⟨source, path, parsed⟩
  · revert d
    decide
  · obtain ⟨o, parsed, built⟩ := except_bind_ok.mp parsed
    rw [DialectOverride.name_of_toDialect built]
    exact DialectOverride.isValidName_of_parse parsed

/-- Looking up a target writes nothing, and finds a known dialect if any. -/
theorem Dialect.run_resolve (target : String) (l : Ledger) :
    ∃ found, (Dialect.resolve target : StateM Ledger _).run l = (found, l) ∧
      ∀ d, found = .ok d → d.IsKnown := by
  unfold resolve
  split
  · rw [Ledger.run_bind, Ledger.run_read]
    cases l.text target with
    | ok source => exact ⟨_, rfl, fun d parsed => .inr ⟨source, target, parsed⟩⟩
    | error cause => exact ⟨_, rfl, fun d => nofun⟩
  · cases known : ofName? target with
    | some d =>
      refine ⟨.ok d, rfl, fun d' same => .inl ?_⟩
      cases same
      exact mem_builtins_of_ofName? known
    | none => exact ⟨_, rfl, fun d => nofun⟩

theorem Dialect.run_mapM_resolve (targets : List String) (l : Ledger) :
    ∃ found, (targets.mapM Dialect.resolve : StateM Ledger _).run l = (found, l) ∧
      ∀ d, .ok d ∈ found → d.IsKnown := by
  induction targets with
  | nil => exact ⟨[], rfl, fun d => nofun⟩
  | cons target rest ih =>
    obtain ⟨first, run, known⟩ := run_resolve target l
    obtain ⟨others, runs, allKnown⟩ := ih
    refine ⟨first :: others, ?_, fun d member => ?_⟩
    · rw [List.mapM_cons, Ledger.run_bind, run, Ledger.run_bind, runs, Ledger.run_pure]
    · rcases List.mem_cons.mp member with same | later
      · exact known d same.symm
      · exact allKnown d later

theorem mem_of_allOrErrors {results : List (Except ε α)} {values : List α}
    (all : allOrErrors results = .ok values) : ∀ value ∈ values, .ok value ∈ results := by
  induction results generalizing values with
  | nil =>
    cases all
    exact fun value => nofun
  | cons result rest ih =>
    cases result with
    | ok first =>
      obtain ⟨others, later, rfl⟩ := except_map_ok.mp all
      exact List.forall_mem_cons.mpr
        ⟨List.mem_cons_self, fun value member => .tail _ (ih later value member)⟩
    | error cause =>
      rw [allOrErrors] at all
      split at all <;> cases all

/-- So does looking up several. -/
theorem Dialect.run_resolveAll (targets : List String) (l : Ledger) :
    ∃ found, (Dialect.resolveAll targets : StateM Ledger _).run l = (found, l) ∧
      ∀ dialects, found = .ok dialects → ∀ d ∈ dialects, d.IsKnown := by
  obtain ⟨found, run, known⟩ := run_mapM_resolve targets l
  refine ⟨_, by rw [resolveAll, Ledger.run_bind, run, Ledger.run_pure], ?_⟩
  intro dialects all d member
  obtain ⟨result, inside, same⟩ := List.mem_map.mp (mem_of_allOrErrors all d member)
  cases result with
  | ok d' =>
    cases same
    exact known d inside
  | error => cases same

theorem Description.exists_of_load {source : String} {given : Option String} {t : Tree}
    (loaded : load source = .ok (given, t)) :
    ∃ d : Description, d.toTree = .ok t ∧ given = d.name := by
  obtain ⟨d, -, loaded⟩ := except_bind_ok.mp loaded
  obtain ⟨t', built, same⟩ := except_bind_ok.mp loaded
  cases same
  refine ⟨d, ?_, rfl⟩
  cases made : d.toTree with
  | ok t =>
    rw [made] at built
    cases built
    rfl
  | error cause =>
    rw [made] at built
    cases built

namespace CommandLine

/-- Texts are written in order, and after the first one that is refused no other is. -/
theorem run_writeAll (name : String) (files : List (String × TargetOutput)) (l : Ledger) :
    ∃ n > 0, ((writeAll name files : StateM Ledger Outcome).run l).2 =
      l.record ((files.map (·.1)).take n) := by
  induction files generalizing l with
  | nil =>
    refine ⟨1, Nat.one_pos, ?_⟩
    rw [writeAll, Ledger.run_pure, List.map_nil, List.take_nil, Ledger.record_nil]
  | cons file rest ih =>
    obtain ⟨path, o⟩ := file
    rw [writeAll, Ledger.run_bind, Ledger.run_write]
    cases l.takes path o.source with
    | error cause => exact ⟨1, Nat.one_pos, rfl⟩
    | ok done =>
      obtain ⟨n, -, run⟩ := ih (l.record [path])
      refine ⟨n + 1, n.succ_pos, ?_⟩
      simp only [Ledger.run_bind, Ledger.run_pure, run, Ledger.record_record]
      rfl

/-- What a run reads, finds and compiles before it writes into a directory. -/
structure Emits (l : Ledger) (r : EmitRequest) (directory : String) (given : Option String)
    (t : Tree) (dialects : List Dialect) (c : Compilation) : Prop where
  loaded : ∃ source, l.text r.input = .ok source ∧ Description.load source = .ok (given, t)
  resolved : (Dialect.resolveAll (r.targets ++ r.overrides) : StateM Ledger _).run l =
    (.ok dialects, l)
  compiled : t.compile dialects { validate := r.validate, prelude := r.prelude } = .ok c
  made : l.makes directory = .ok ()

/-- What a request to write into a directory leaves behind. -/
def afterEmit (l : Ledger) (r : EmitRequest) (directory : String) : Ledger :=
  ((Request.run (.emit { r with output := some directory }) : StateM Ledger Outcome).run l).2

variable {l : Ledger} {r : EmitRequest} {directory : String} {given : Option String} {t : Tree}
  {dialects : List Dialect} {c : Compilation}

namespace Emits

theorem known (h : Emits l r directory given t dialects c) : ∀ d ∈ dialects, d.IsKnown := by
  obtain ⟨found, resolved, known⟩ := Dialect.run_resolveAll (r.targets ++ r.overrides) l
  exact known dialects (congrArg Prod.fst (resolved.symm.trans h.resolved))

theorem outputs_eq (h : Emits l r directory given t dialects c) : c.outputs =
    dialects.map (t.outputFor { validate := r.validate, prelude := r.prelude }) := by
  obtain ⟨source, -, loaded⟩ := h.loaded
  obtain ⟨d, built, -⟩ := Description.exists_of_load loaded
  exact Tree.outputs_of_compile (Build.reachable_of_toTree built) h.compiled

theorem afterEmit_eq (h : Emits l r directory given t dialects c) :
    ∃ n > 0, afterEmit l r directory =
      l.record ((outputPaths directory (kernelName given r.input) [] c.outputs).take n) := by
  obtain ⟨source, read, loaded⟩ := h.loaded
  have sizes : (outputPaths directory (kernelName given r.input) [] c.outputs).length ≤
      c.outputs.length := by
    rw [outputPaths_eq, List.length_map, length_fileNames]
  obtain ⟨n, some, run⟩ := run_writeAll (kernelName given r.input)
    ((outputPaths directory (kernelName given r.input) [] c.outputs).zip c.outputs) l
  rw [List.map_fst_zip sizes] at run
  refine ⟨n, some, ?_⟩
  simp only [afterEmit, Request.run, withLoaded, Ledger.run_bind, Ledger.run_pure,
    Ledger.run_read, read, loaded, Loaded.emit, h.resolved, h.compiled, writeOutputs,
    Ledger.run_createDirectories, h.made, run]

end Emits

/-- A run that does not come to the point of writing writes nothing. -/
theorem emits_or_afterEmit_eq (l : Ledger) (r : EmitRequest) (directory : String) :
    (∃ given t dialects c, Emits l r directory given t dialects c) ∨
      afterEmit l r directory = l := by
  obtain ⟨found, resolved, -⟩ := Dialect.run_resolveAll (r.targets ++ r.overrides) l
  simp only [afterEmit, Request.run, withLoaded, Ledger.run_bind, Ledger.run_read]
  split
  next => exact .inr rfl
  next source read =>
  split
  next => exact .inr rfl
  next given t loaded =>
  simp only [Loaded.emit, Ledger.run_bind, resolved]
  cases found with
  | error causes => exact .inr rfl
  | ok dialects =>
  simp only
  split
  next => exact .inr rfl
  next c compiled =>
  simp only [writeOutputs, Ledger.run_bind, Ledger.run_createDirectories]
  cases made : l.makes directory with
  | error cause => exact .inr rfl
  | ok done => exact .inl ⟨given, t, dialects, c, ⟨source, read, loaded⟩, resolved, compiled, made⟩

end CommandLine
end KernelTree
