/-! Names declared at one lexical level. -/
namespace KernelTree

/-- The number of a statement in its tree. Numbers are never given out twice. -/
@[ext] structure StmtId where
  index : Nat
deriving DecidableEq, Repr, Inhabited, Hashable

instance : ToString StmtId where
  toString id := "#" ++ toString id.index

/-- A finite map from names to the statements that declare them, listed by rising name. -/
structure Scope where
  entries : List (String × StmtId)
  sorted : (entries.map Prod.fst).Pairwise (· < ·) := by simp

namespace Scope

def empty : Scope := { entries := [] }

instance : Inhabited Scope := ⟨empty⟩

@[ext] theorem ext {s t : Scope} (h : s.entries = t.entries) : s = t := by
  cases s; cases t; cases h; rfl

def get? (s : Scope) (name : String) : Option StmtId :=
  s.entries.lookup name

def contains (s : Scope) (name : String) : Bool := (s.get? name).isSome

def size (s : Scope) : Nat := s.entries.length

def isEmpty (s : Scope) : Bool := s.entries.isEmpty

/-- Puts an entry in front of the first greater name. A name that is present keeps its entry. -/
def place (name : String) (id : StmtId) : List (String × StmtId) → List (String × StmtId)
  | [] => [(name, id)]
  | (other, bound) :: rest =>
    if name < other then (name, id) :: (other, bound) :: rest
    else if name = other then (other, bound) :: rest
    else (other, bound) :: place name id rest

theorem mem_names_place {name n : String} {id : StmtId} {l : List (String × StmtId)}
    (h : n ∈ (place name id l).map Prod.fst) : n = name ∨ n ∈ l.map Prod.fst := by
  induction l with
  | nil => simpa [place] using h
  | cons e rest ih =>
    obtain ⟨other, bound⟩ := e
    unfold place at h
    split at h
    · simpa using h
    · split at h
      · exact .inr h
      · simp only [List.map_cons, List.mem_cons] at h ⊢
        rcases h with rfl | h
        · exact .inr (.inl rfl)
        · exact (ih h).imp_right .inr

theorem pairwise_place {name : String} {id : StmtId} {l : List (String × StmtId)}
    (h : (l.map Prod.fst).Pairwise (· < ·)) :
    ((place name id l).map Prod.fst).Pairwise (· < ·) := by
  induction l with
  | nil => simp [place]
  | cons e rest ih =>
    obtain ⟨other, bound⟩ := e
    simp only [List.map_cons, List.pairwise_cons] at h
    unfold place
    split
    next below =>
      simp only [List.map_cons, List.pairwise_cons, List.mem_cons]
      refine ⟨?_, h.1, h.2⟩
      rintro n (rfl | member)
      · exact below
      · exact String.lt_trans below (h.1 n member)
    next notBelow =>
      split
      · simpa using h
      next differs =>
        simp only [List.map_cons, List.pairwise_cons]
        refine ⟨fun n member => ?_, ih h.2⟩
        rcases mem_names_place member with rfl | member
        · exact Std.lt_of_le_of_ne (String.not_lt.mp notBelow) (Ne.symm differs)
        · exact h.1 n member

/-- Binds a name that is not bound yet; a bound name keeps its statement. -/
def insertIfNew (s : Scope) (name : String) (id : StmtId) : Scope where
  entries := place name id s.entries
  sorted := pairwise_place s.sorted

def filter (keep : StmtId → Bool) (s : Scope) : Scope where
  entries := s.entries.filter fun e => keep e.2
  sorted := s.sorted.sublist (List.filter_sublist.map _)

/-- The entries with their statements renumbered, or the first statement that has no new number. -/
def renumberEntries (f : StmtId → Option StmtId) :
    List (String × StmtId) → Except StmtId (List (String × StmtId))
  | [] => .ok []
  | (name, id) :: rest =>
    match f id with
    | none => .error id
    | some new => (renumberEntries f rest).map ((name, new) :: ·)

theorem names_renumberEntries {f : StmtId → Option StmtId} {l r : List (String × StmtId)}
    (h : renumberEntries f l = .ok r) : r.map Prod.fst = l.map Prod.fst := by
  induction l generalizing r with
  | nil => cases h; rfl
  | cons e rest ih =>
    obtain ⟨name, id⟩ := e
    unfold renumberEntries at h
    split at h
    · cases h
    · cases hr : renumberEntries f rest with
      | error _ => rw [hr] at h; cases h
      | ok tail =>
        rw [hr] at h
        cases h
        simp [ih hr]

def renumber (f : StmtId → Option StmtId) (s : Scope) : Except StmtId Scope :=
  match h : renumberEntries f s.entries with
  | .error id => .error id
  | .ok entries => .ok { entries, sorted := names_renumberEntries h ▸ s.sorted }

end Scope
end KernelTree
