import KernelTree.Proofs.Text
import Mathlib.Data.List.TakeWhile
import Mathlib.Data.String.Basic
/-! Braces in texts. Reading a text from left to right one counts the braces that are open; a text
that leaves the count as it was can stand inside a line. -/
namespace KernelTree.Text

variable {s u : String} {text : List Char} {n k : Nat} {c : Char}

/-- What is cut off the end of a text are blanks. -/
theorem exists_trimEnd (s : String) : ∃ blanks, s.toList = (trimEnd s).toList ++ blanks ∧
    ∀ c ∈ blanks, isBlank c := by
  refine ⟨(s.toList.reverse.takeWhile isBlank).reverse, ?_, ?_⟩
  · rw [trimEnd, String.toList_ofList, ← List.reverse_append, List.takeWhile_append_dropWhile,
      List.reverse_reverse]
  · intro c inside
    exact List.mem_takeWhile_imp (List.mem_reverse.mp inside)

/-- The number of braces that are open behind a text, if `n` are open before it and none is closed
that is not open. -/
def scan (n : Nat) : List Char → Option Nat
  | [] => some n
  | c :: rest =>
    if c = '\x7b' then scan (n + 1) rest
    else if c = '\x7d' then if n = 0 then none else scan (n - 1) rest
    else scan n rest

theorem scan_append (n : Nat) (text more : List Char) :
    scan n (text ++ more) = (scan n text).bind (scan · more) := by
  induction text generalizing n with
  | nil => rfl
  | cons c rest ih =>
    rw [List.cons_append, scan, scan]
    split
    · exact ih _
    · split
      · split
        · rfl
        · exact ih _
      · exact ih _

theorem scan_plain (plain : ∀ c ∈ text, c ≠ '\x7b' ∧ c ≠ '\x7d') (n : Nat) :
    scan n text = some n := by
  induction text with
  | nil => rfl
  | cons c rest ih =>
    obtain ⟨⟨notOpen, notClose⟩, others⟩ := List.forall_mem_cons.mp plain
    rw [scan, if_neg notOpen, if_neg notClose, ih others]

theorem scan_blank (blank : ∀ c ∈ text, isBlank c) (n : Nat) : scan n text = some n := by
  refine scan_plain (fun c inside => ?_) n
  constructor <;> rintro rfl <;> cases blank _ inside

/-- The change of the count is the difference between the braces opened and closed. -/
theorem count_of_scan (counted : scan n text = some k) :
    k + text.count '\x7d' = n + text.count '\x7b' := by
  induction text generalizing n with
  | nil =>
    cases counted
    rfl
  | cons c rest ih =>
    rw [scan] at counted
    split at counted
    next opens =>
      have total := ih counted
      rw [opens, List.count_cons_self, List.count_cons_of_ne (by decide)]
      omega
    next notOpen =>
      rw [List.count_cons_of_ne notOpen]
      split at counted
      next closes =>
        split at counted
        next => cases counted
        next inside =>
          have total := ih counted
          rw [closes, List.count_cons_self]
          omega
      next notClose =>
        rw [List.count_cons_of_ne notClose]
        exact ih counted

/-- Up to any place in the text, no more braces have been closed than were open. -/
theorem count_le_of_scan (counted : scan n text = some k) {before : List Char}
    (front : before <+: text) : before.count '\x7d' ≤ n + before.count '\x7b' := by
  obtain ⟨rest, rfl⟩ := front
  rw [scan_append] at counted
  obtain ⟨j, first, -⟩ := Option.bind_eq_some_iff.mp counted
  have total := count_of_scan first
  omega

/-- No character of the text is a brace or ends a line. -/
def isPlain (s : String) : Bool := s.toList.all fun c => c != '\x7b' && c != '\x7d' && c != '\n'

/-- The text can stand inside a line: its braces are balanced and it does not end the line. -/
structure Inline (s : String) : Prop where
  balanced : ∀ n, scan n s.toList = some n
  oneLine : '\n' ∉ s.toList

theorem inline_of_isPlain (plain : isPlain s) : Inline s := by
  simp only [isPlain, List.all_eq_true, Bool.and_eq_true, bne_iff_ne, ne_eq] at plain
  constructor
  case balanced => exact scan_plain fun c inside => (plain c inside).1
  case oneLine => exact fun inside => (plain _ inside).2 rfl

namespace Inline

theorem empty : Inline "" := inline_of_isPlain rfl

theorem append (h : Inline s) (g : Inline u) : Inline (s ++ u) := by
  constructor
  case balanced =>
    intro n
    rw [String.toList_append, scan_append, h.balanced, Option.bind_some, g.balanced]
  case oneLine =>
    rw [String.toList_append, List.mem_append]
    exact fun inside => inside.elim h.oneLine g.oneLine

theorem braced (h : Inline s) : Inline ("\x7b" ++ s ++ "\x7d") := by
  have text : ("\x7b" ++ s ++ "\x7d").toList = '\x7b' :: (s.toList ++ ['\x7d']) := by simp
  constructor
  case balanced =>
    intro n
    rw [text, scan, if_pos rfl, scan_append, h.balanced]
    rfl
  case oneLine =>
    rw [text]
    simpa using h.oneLine

theorem join {texts : List String} (each : ∀ s ∈ texts, Inline s) : Inline (String.join texts) :=
  join_induction empty (fun _ _ => append) each

theorem intercalate {texts : List String} (separator : Inline u) (each : ∀ s ∈ texts, Inline s) :
    Inline (u.intercalate texts) :=
  intercalate_induction empty (fun _ _ => append) separator each

/-- Cutting blanks off the end changes no count. -/
theorem trimEnd (h : Inline s) : Inline (trimEnd s) := by
  obtain ⟨blanks, text, blank⟩ := exists_trimEnd s
  constructor
  case balanced =>
    intro n
    have counted := h.balanced n
    rw [text, scan_append] at counted
    obtain ⟨k, front, back⟩ := Option.bind_eq_some_iff.mp counted
    rw [scan_blank blank, Option.some.injEq] at back
    rw [front, back]
  case oneLine =>
    intro inside
    exact h.oneLine (text ▸ List.mem_append_left _ inside)

end Inline

end KernelTree.Text
