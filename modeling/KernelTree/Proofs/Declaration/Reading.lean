import KernelTree.Proofs.Declaration.Grouping
import KernelTree.Proofs.Expr.Grammar
/-! Declarations read back from their text. The separators part it into statements and declarators,
and in each statement the base has to be told from the first declarator. -/
namespace KernelTree.VarDecl

open Text

def splitWords (piece : Leveled) : List Leveled := piece.splitOn (' ', 0)

def plain (piece : Leveled) : String := String.ofList (piece.map Prod.fst)

def unwords (words : List Leveled) : String := " ".intercalate (words.map plain)

/-- The words before a declarator, and those from there on. It begins with the first star; without
one it is a single word, with nothing or an initial value behind it. -/
def cut : List Leveled → List Leveled × List Leveled
  | w :: next :: rest =>
    if ('*', 0) ∈ w ∨ next = [('=', 0)] then ([], w :: next :: rest)
    else (w :: (cut (next :: rest)).1, (cut (next :: rest)).2)
  | words => ([], words)

/-- The base of a statement and its first declarator. The first word belongs to the base. -/
def splitBase : List Leveled → String × String
  | [] => ("", "")
  | first :: rest => (unwords (first :: (cut rest).1), unwords (cut rest).2)

/-- The declarators of one statement, each with the base before all of them. -/
def entries : List Leveled → List (String × String)
  | [] => []
  | first :: others =>
    let (base, declarator) := splitBase (splitWords first)
    (base, declarator) :: others.map fun piece => (base, plain piece)

/-- The bases and declarators of a text. -/
def read (text : String) : List (String × String) := (pieces text).flatMap entries

variable {sp : Spelling} {d : VarDecl} {vars : List VarDecl}

def baseWords (sp : Spelling) (d : VarDecl) : List Leveled :=
  splitWords (leveled (d.type.renderBase sp))

def Starless (sp : Spelling) (d : VarDecl) : Prop := ∀ w ∈ baseWords sp d, ('*', 0) ∉ w

def Unassigned (sp : Spelling) (d : VarDecl) : Prop := [('=', 0)] ∉ baseWords sp d

/-- The name is one word, unless a star shows where the declarator begins. -/
def Named (sp : Spelling) (d : VarDecl) : Prop := d.type.pointers = 0 →
  Lacks ' ' (sp.identifier d.name.text) ∧ sp.identifier d.name.text ≠ "="

instance : Decidable (Starless sp d) := inferInstanceAs (Decidable (∀ _ ∈ _, _))

instance : Decidable (Unassigned sp d) := inferInstanceAs (Decidable (_ ∉ _))

instance : Decidable (Named sp d) := inferInstanceAs (Decidable (_ → _))

/-- The base can be told from the declarator behind it. -/
structure Legible (sp : Spelling) (d : VarDecl) : Prop where
  starless : Starless sp d
  unassigned : Unassigned sp d
  named : Named sp d

section Words

variable {s : String}

theorem splitWords_append_blank (balanced : Balanced s) (u : String) :
    splitWords (leveled (s ++ " " ++ u)) = splitWords (leveled s) ++ splitWords (leveled u) := by
  have blank : Balanced " " := by decide
  have parted : leveled (s ++ " " ++ u) = leveled s ++ (' ', 0) :: leveled u := by
    rw [String.append_assoc, balanced.leveled_append, blank.leveled_append]
    rfl
  rw [splitWords, parted, List.splitOn, List.splitOnP_append_cons _ _ (by simp)]
  rfl

theorem splitWords_of_lacks (one : Lacks ' ' s) : splitWords (leveled s) = [leveled s] :=
  List.splitOn_eq_singleton one

theorem splitWords_ne_nil (piece : Leveled) : splitWords piece ≠ [] := List.splitOn_ne_nil _ _

theorem plain_intercalate (words : List Leveled) :
    plain ([(' ', 0)].intercalate words) = unwords words := by
  refine String.toList_inj.mp ?_
  rw [unwords, String.toList_intercalate, plain, String.toList_ofList]
  induction words with
  | nil => rfl
  | cons w rest ih =>
    cases rest with
    | nil => simp [plain]
    | cons next rest => simpa [plain] using ih

theorem plain_leveled (s : String) : plain (leveled s) = s := by
  rw [plain, leveled, map_fst_levels, String.ofList_toList]

theorem unwords_splitWords (s : String) : unwords (splitWords (leveled s)) = s := by
  rw [← plain_intercalate, splitWords, List.intercalate_splitOn, plain_leveled]

theorem unwords_append {front back : List Leveled} (filled : front ≠ []) (other : back ≠ []) :
    unwords (front ++ back) = unwords front ++ " " ++ unwords back := by
  rw [unwords, List.map_append, String.intercalate_append_of_ne_nil (by simpa) (by simpa)]
  rfl

/-- Nothing is lost between the two parts. -/
theorem cut_append (words : List Leveled) : (cut words).1 ++ (cut words).2 = words := by
  fun_induction cut words with
  | case1 => rfl
  | case2 w next rest inside ih => rw [List.cons_append, ih]
  | case3 => rfl

theorem cut_snd_ne_nil {words : List Leveled} (filled : words ≠ []) : (cut words).2 ≠ [] := by
  fun_induction cut words with
  | case1 => exact filled
  | case2 w next rest inside ih => exact ih (List.cons_ne_nil _ _)
  | case3 => exact filled

/-- The words of a declarator: the first has a star or only an initial value behind it. -/
def IsDeclarator : List Leveled → Prop
  | [] => False
  | w :: rest => w ≠ [('=', 0)] ∧ (('*', 0) ∈ w ∨ ∀ next ∈ rest.head?, next = [('=', 0)])

theorem cut_of_isDeclarator {front back : List Leveled}
    (legible : ∀ w ∈ front, ('*', 0) ∉ w ∧ w ≠ [('=', 0)]) (declarator : IsDeclarator back) :
    cut (front ++ back) = (front, back) := by
  -- No word before the declarator ends the search, since none has a star and an equals sign follows
  -- none; the one behind it is the next of them or the first of the declarator.
  induction front with
  | nil =>
    match back, declarator with
    | [w], _ => rfl
    | w :: next :: rest, ⟨_, first⟩ =>
      have begins : ('*', 0) ∈ w ∨ next = [('=', 0)] := first.imp_right fun h => h next rfl
      rw [List.nil_append, cut, if_pos begins]
  | cons v front ih =>
    obtain ⟨first, others⟩ := List.forall_mem_cons.mp legible
    have behind : ∃ next rest, front ++ back = next :: rest ∧ next ≠ [('=', 0)] := by
      match front, back, others, declarator with
      | [], w :: rest, _, declarator => exact ⟨w, rest, rfl, declarator.1⟩
      | w :: rest, back, others, _ => exact ⟨w, rest ++ back, rfl, (others w List.mem_cons_self).2⟩
    obtain ⟨next, rest, words, unlike⟩ := behind
    have goesOn : ¬ (('*', 0) ∈ v ∨ next = [('=', 0)]) := not_or.mpr ⟨first.1, unlike⟩
    have following := ih others
    rw [words] at following
    rw [List.cons_append, words, cut, if_neg goesOn, following]

end Words

section Entries

theorem isDeclarator_of_star {s : String} (star : s.toList.head? = some '*') :
    IsDeclarator (splitWords (leveled s)) := by
  obtain ⟨rest, spelled⟩ := List.head?_eq_some_iff.mp star
  have first : leveled s = ('*', 0) :: levels 0 rest := by
    rw [leveled, spelled]
    rfl
  obtain ⟨w, others, words⟩ := List.exists_cons_of_ne_nil (splitWords_ne_nil (levels 0 rest))
  rw [splitWords] at words
  rw [splitWords, first, List.splitOn_cons_eq_if_modifyHead, if_neg (by decide), words]
  exact ⟨by simp, .inl List.mem_cons_self⟩

variable (clean : ∀ w ∈ d.words sp, isClean w)
include clean

/-- The dimensions do not break the word that the name begins. -/
theorem closed_declared (oneWord : Lacks ' ' (sp.identifier d.name.text)) :
    Closed [' '] (sp.identifier d.name.text ++ renderDims sp d.dims) := by
  have name : Closed [' '] (sp.identifier d.name.text) :=
    ⟨(closed_name clean).balanced, List.forall_mem_singleton.mpr oneWord⟩
  exact name.append (closed_dims clean (List.forall_mem_singleton.mpr rfl))

omit clean in
theorem declared_ne (unlike : sp.identifier d.name.text ≠ "=") :
    leveled (sp.identifier d.name.text ++ renderDims sp d.dims) ≠ [('=', 0)] := by
  intro same
  have spelled : (sp.identifier d.name.text).toList ++ (renderDims sp d.dims).toList = ['='] := by
    rw [← String.toList_append, ← map_fst_levels 0 (String.toList _), ← leveled, same]
    rfl
  cases dims : d.dims with
  | nil =>
    rw [dims] at spelled
    exact unlike (String.toList_inj.mp (by simpa [renderDims] using spelled))
  | cons e rest =>
    have inside : '[' ∈ (renderDims sp d.dims).toList := by simp [dims, renderDims]
    have bracket : '[' ∈ ['='] := spelled ▸ List.mem_append_right _ inside
    exact absurd bracket (by decide)

/-- A declarator without a star is one word, up to its initial value. -/
theorem isDeclarator_of_bare (bare : d.type.pointers = 0) (legible : Legible sp d) :
    IsDeclarator (splitWords (leveled (d.renderTail sp))) := by
  obtain ⟨oneWord, unlike⟩ := legible.named bare
  have declared := closed_declared clean oneWord
  have word := splitWords_of_lacks (declared.lacks ' ' List.mem_cons_self)
  have stars : d.type.renderStars sp = "" := by rw [TypeSpec.renderStars, if_pos bare]
  rw [renderTail, stars, String.empty_append]
  cases d.init with
  | none =>
    rw [String.append_empty, word]
    exact ⟨declared_ne unlike, .inr (by simp)⟩
  | some value =>
    have sign : " = " = " " ++ "=" ++ " " := rfl
    have equals : Balanced "=" := by decide
    have parted (text : String) : text ++ (" = " ++ value.render sp) =
        text ++ " " ++ ("=" ++ " " ++ value.render sp) := by
      simp only [sign, String.append_assoc]
    rw [parted, splitWords_append_blank declared.balanced, splitWords_append_blank equals, word]
    exact ⟨declared_ne unlike, .inr fun next first => (Option.some.inj first).symm⟩

theorem isDeclarator_renderTail (legible : Legible sp d) :
    IsDeclarator (splitWords (leveled (d.renderTail sp))) := by
  by_cases bare : d.type.pointers = 0
  · exact isDeclarator_of_bare clean bare legible
  · refine isDeclarator_of_star ?_
    obtain ⟨n, count⟩ : ∃ n, d.type.pointers.toNat = n + 1 :=
      Nat.exists_eq_succ_of_ne_zero fun none => bare (UInt8.toNat_inj.mp none)
    simp [renderTail, TypeSpec.renderStars, bare, count, toList_pushn, List.replicate_succ]

/-- Taken apart, an entry in full is the base and the declarator again. -/
theorem splitBase_render : ∃ base declarator, splitBase (splitWords (leveled (d.render sp))) =
    (base, declarator) ∧ base ++ " " ++ declarator = d.render sp := by
  have balanced := (TypeSpec.closed_renderBase (isClean_type clean)).balanced
  obtain ⟨first, rest, words⟩ := List.exists_cons_of_ne_nil
    (splitWords_ne_nil (leveled (d.type.renderBase sp)))
  have behind : rest ++ splitWords (leveled (d.renderTail sp)) ≠ [] :=
    List.append_ne_nil_of_right_ne_nil _ (splitWords_ne_nil _)
  have all := splitWords_append_blank balanced (d.renderTail sp)
  rw [words, List.cons_append] at all
  refine ⟨_, _, by rw [render, all, splitBase], ?_⟩
  rw [← unwords_append (List.cons_ne_nil _ _) (cut_snd_ne_nil behind), List.cons_append, cut_append,
    ← all, unwords_splitWords, render]

theorem splitBase_render_of_legible (legible : Legible sp d) :
    splitBase (splitWords (leveled (d.render sp))) = (d.type.renderBase sp, d.renderTail sp) := by
  have balanced := (TypeSpec.closed_renderBase (isClean_type clean)).balanced
  obtain ⟨first, rest, words⟩ := List.exists_cons_of_ne_nil
    (splitWords_ne_nil (leveled (d.type.renderBase sp)))
  have behind : ∀ w ∈ rest, ('*', 0) ∉ w ∧ w ≠ [('=', 0)] := by
    intro w later
    have inside : w ∈ baseWords sp d := by
      rw [baseWords, words]
      exact .tail _ later
    exact ⟨legible.starless w inside, fun sign => legible.unassigned (sign ▸ inside)⟩
  rw [render, splitWords_append_blank balanced, words, List.cons_append, splitBase,
    cut_of_isDeclarator behind (isDeclarator_renderTail clean legible), ← words,
    unwords_splitWords, unwords_splitWords]

end Entries

/-- Whoever reads a statement finds its entries, if the base can be told from the first declarator
wherever there is a second one. -/
theorem entries_written {rest : List VarDecl}
    (same : ∀ e ∈ rest, e.type.renderBase sp = d.type.renderBase sp)
    (clean : ∀ w ∈ d.words sp, isClean w) (legible : rest ≠ [] → Legible sp d) :
    (entries ((written sp (d :: rest)).map leveled)).map (fun entry => entry.1 ++ " " ++ entry.2) =
      (d :: rest).map (render sp) := by
  -- Wherever an entry that stands alone is cut, its two parts make it up again. Behind a second one
  -- the base has to be that of the first exactly.
  by_cases alone : rest = []
  · obtain ⟨base, declarator, parted, whole⟩ := splitBase_render clean
    simp [alone, written, entries, parted, whole]
  · have parted := splitBase_render_of_legible clean (legible alone)
    rw [written, List.map_cons, entries, parted, List.map_cons, List.map_cons, List.map_map,
      List.map_map, List.map_map]
    refine congrArg (d.render sp :: ·) (List.map_congr_left fun e later => ?_)
    simp [render, same e later, plain_leveled]

/-- The text of a declaration falls into its entries at the separators outside of brackets. Every
entry is read back with its own base, if the base can be told from the declarator where it is
shared. -/
theorem read_renderGroup (sp : Spelling) (vars : List VarDecl) (filled : vars ≠ [])
    (clean : ∀ d ∈ vars, ∀ w ∈ d.words sp, isClean w) :
    (pieces (renderGroup sp vars)).map (·.map plain) = (runs sp vars).map (written sp) ∧
    ((∀ d e rest, d :: e :: rest ∈ runs sp vars → Legible sp d) →
      (read (renderGroup sp vars)).map (fun entry => entry.1 ++ " " ++ entry.2) =
        vars.map (render sp)) := by
  have parted := pieces_renderGroup filled clean
  constructor
  · rw [parted, List.map_map]
    refine List.map_congr_left fun run _ => ?_
    rw [Function.comp_apply, List.map_map]
    exact List.map_id'' plain_leveled _
  · intro legible
    have each : ∀ run ∈ runs sp vars,
        (entries ((written sp run).map leveled)).map (fun entry => entry.1 ++ " " ++ entry.2) =
          run.map (render sp) := by
      intro run listed
      obtain ⟨d, rest, rfl⟩ := List.exists_cons_of_ne_nil (List.ne_nil_of_mem_splitBy listed)
      have inside : d ∈ vars :=
        flatten_runs sp vars ▸ List.mem_flatten.mpr ⟨_, listed, List.mem_cons_self⟩
      refine entries_written (base_of_mem_runs listed) (clean d inside) fun shared => ?_
      obtain ⟨e, more, rfl⟩ := List.exists_cons_of_ne_nil shared
      exact legible d e more listed
    rw [read, parted, List.flatMap_map, List.map_flatMap, List.flatMap_congr each,
      List.flatMap_def, ← List.map_flatten, flatten_runs]

/-- Two integers on one base, the first an array with a list of initial values, and a constant. -/
theorem read_renderGroup_of_three :
    let number (text : String) : Expr := .literal (.ofSpelling text)
    let call : Expr := .call (.ident (.identifier "f")) [.ident (.identifier "x"), number "1"]
    let array : VarDecl := { name := .identifier "a", type := .named "int", dims := [number "2"],
                             init := some (.list [call, number "3"]) }
    let pointer : VarDecl := { name := .identifier "b", type := (TypeSpec.named "int").pointerTo }
    let constant : VarDecl := { name := .identifier "c",
                                type := (TypeSpec.named "float").qualify .const,
                                init := some (number "1.5") }
    let vars := [array, pointer, constant]
    (vars ≠ [] ∧ ∀ d ∈ vars, ∀ w ∈ d.words .plain, isClean w) ∧
    (∀ d e rest, d :: e :: rest ∈ runs .plain vars → Legible .plain d) ∧
    renderGroup .plain vars = "int a[2] = \x7bf(x, 1), 3\x7d, *b; const float c = 1.5" ∧
    (read (renderGroup .plain vars)).map (fun entry => entry.1 ++ " " ++ entry.2) =
      vars.map (render .plain) := by
  intro number call array pointer constant vars
  have filled : vars ≠ [] := List.cons_ne_nil _ _
  have clean : ∀ d ∈ vars, ∀ w ∈ d.words .plain, isClean w := by decide
  have legible : ∀ d e rest, d :: e :: rest ∈ runs .plain vars → Legible .plain d := by
    intro d e rest listed
    have known : runs .plain vars = [[array, pointer], [constant]] := rfl
    rw [known] at listed
    obtain ⟨first, -⟩ : d = array ∧ e = pointer ∧ rest = [] := by simpa using listed
    exact first ▸ ⟨by decide, by decide, by decide⟩
  exact ⟨⟨filled, clean⟩, legible, by decide,
    (read_renderGroup .plain vars filled clean).2 legible⟩

/-- Of declarations that meet the condition, some reader finds the entries in their text, even if it
is one that knows the spelling. -/
def Readable (p : Spelling → VarDecl → Prop) : Prop :=
  ∃ reader : Spelling → String → List String, ∀ (sp : Spelling) (vars : List VarDecl), vars ≠ [] →
    (∀ d ∈ vars, Grammar.isName d.name.text ∧ Grammar.isName d.type.name) →
    (∀ d ∈ vars, ∀ w ∈ d.words sp, isClean w) → (∀ d ∈ vars, p sp d) →
    reader sp (renderGroup sp vars) = vars.map (render sp)

/-- Two declarations with one text and different entries. -/
structure Collision (p : Spelling → VarDecl → Prop) (sp : Spelling) (vars others : List VarDecl) :
    Prop where
  filled : vars ≠ [] ∧ others ≠ []
  named : ∀ d ∈ vars ++ others, Grammar.isName d.name.text ∧ Grammar.isName d.type.name
  clean : ∀ d ∈ vars ++ others, ∀ w ∈ d.words sp, isClean w
  legible : ∀ d ∈ vars ++ others, p sp d
  text : renderGroup sp vars = renderGroup sp others
  entries : vars.map (render sp) ≠ others.map (render sp)

theorem Collision.unreadable {p : Spelling → VarDecl → Prop} {others : List VarDecl}
    (h : Collision p sp vars others) : ¬ Readable p := by
  rintro ⟨reader, reads⟩
  obtain ⟨named, named'⟩ := List.forall_mem_append.mp h.named
  obtain ⟨clean, clean'⟩ := List.forall_mem_append.mp h.clean
  obtain ⟨legible, legible'⟩ := List.forall_mem_append.mp h.legible
  have first := reads sp vars h.filled.1 named clean legible
  have second := reads sp others h.filled.2 named' clean' legible'
  exact h.entries (first.symm.trans (h.text ▸ second))

section Collisions

def plainly (type name : String) : VarDecl := { name := .identifier name, type := .named type }

/-- The name of a type stands for a pointer. -/
def pointing : Spelling :=
  { Spelling.plain with typeName := fun t => if t = "handle" then "float *restrict" else t }

theorem collision_star : Collision (fun sp d => Unassigned sp d ∧ Named sp d) pointing
    [plainly "handle" "a", plainly "handle" "b"]
    [{ plainly "float" "a" with type := (TypeSpec.named "float").pointerTo.qualify .restrict },
      plainly "float" "b"] :=
  ⟨by simp, by decide, by decide, by decide, by decide, by decide⟩

/-- The name of a type stands for the beginning of a declaration. -/
def assigning : Spelling :=
  { Spelling.plain with typeName := fun t => if t = "t" then "int x =" else t }

theorem collision_assigned : Collision (fun sp d => Starless sp d ∧ Named sp d) assigning
    [plainly "t" "a", plainly "t" "b"]
    [{ plainly "int" "x" with init := some (.ident (.identifier "a")) }, plainly "int" "b"] :=
  ⟨by simp, by decide, by decide, by decide, by decide, by decide⟩

/-- A name carries its qualifier. -/
def qualifying : Spelling :=
  { Spelling.plain with
    typeName := fun t => if t = "t" then "int volatile" else t
    identifier := fun v => if v = "v" then "volatile flag" else v }

theorem collision_blank : Collision (fun sp d => Starless sp d ∧ Unassigned sp d) qualifying
    [plainly "int" "v", plainly "int" "z"] [plainly "t" "flag", plainly "t" "z"] :=
  ⟨by simp, by decide, by decide, by decide, by decide, by decide⟩

end Collisions

/-- No reader finds the entries of all declarations, and none of the conditions can be left out:
with a star or an equals sign in the word for a type, or a blank in that for a name, two
declarations have one text. -/
theorem not_readable :
    ¬ Readable (fun _ _ => True) ∧
    ¬ Readable (fun sp d => Unassigned sp d ∧ Named sp d) ∧
    ¬ Readable (fun sp d => Starless sp d ∧ Named sp d) ∧
    ¬ Readable (fun sp d => Starless sp d ∧ Unassigned sp d) := by
  refine ⟨?_, collision_star.unreadable, collision_assigned.unreadable,
    collision_blank.unreadable⟩
  rintro ⟨reader, reads⟩
  refine collision_star.unreadable ⟨reader, fun sp vars filled named clean _ => ?_⟩
  exact reads sp vars filled named clean fun _ _ => trivial

end KernelTree.VarDecl
