import Swarmotter.Lib.Percent

/-! Query strings of the form `name=value&name=value`, as the URL standard reads them. -/

namespace form

/-- The byte that separates pairs. -/
def ampersand : UInt8 := 38

/-- The byte that separates a name from its value. -/
def equals : UInt8 := 61

def plus : UInt8 := 43

def space : UInt8 := 32

/-- A plus sign stands for a space. -/
def spaced (bytes : List UInt8) : List UInt8 := bytes.map fun byte => if byte = plus then space else byte

/-- What a name or a value stands for. -/
def component (bytes : List UInt8) : List UInt8 := percent.decode (spaced bytes)

/-- The parts before and after the first equals sign. -/
def cut (piece : List UInt8) : List UInt8 × List UInt8 :=
  (piece.takeWhile fun byte => byte ≠ equals, (piece.dropWhile fun byte => byte ≠ equals).drop 1)

/-- The pieces of a query that are not empty, cut in two. -/
def pieces (query : List UInt8) : List (List UInt8 × List UInt8) :=
  ((query.splitOn ampersand).filter fun piece => piece ≠ []).map cut

/-- The names and values of a query. -/
def pairs (query : List UInt8) : List (List UInt8 × List UInt8) :=
  (pieces query).map fun piece => (component piece.1, component piece.2)

/-- A name and its value as they are written. -/
def assignment (entry : List UInt8 × List UInt8) : List UInt8 := entry.1 ++ equals :: entry.2

section
variable {name value bytes : List UInt8} {safe : UInt8 → Bool}

theorem spaced_eq_self (h : plus ∉ bytes) : spaced bytes = bytes := by
  refine (List.map_congr_left fun byte hbyte => ?_).trans (List.map_id bytes)
  exact if_neg (ne_of_mem_of_not_mem hbyte h)

theorem cut_assignment (h : equals ∉ name) : cut (assignment (name, value)) = (name, value) := by
  have hname : ∀ byte ∈ name, decide (byte ≠ equals) = true :=
    fun byte hbyte => decide_eq_true (ne_of_mem_of_not_mem hbyte h)
  rw [cut, assignment]
  simp only [List.takeWhile_append_of_pos hname, List.dropWhile_append_of_pos hname]
  simp

/-- Assignments that are joined are read back one by one. -/
theorem pieces_intercalate {entries : List (List UInt8 × List UInt8)}
    (h : ∀ entry ∈ entries, equals ∉ entry.1 ∧ ampersand ∉ entry.1 ∧ ampersand ∉ entry.2) :
    pieces ([ampersand].intercalate (entries.map assignment)) = entries := by
  cases entries with
  | nil => rfl
  | cons first rest =>
    have hfree : ∀ piece ∈ (first :: rest).map assignment, ampersand ∉ piece := by
      intro piece hpiece
      obtain ⟨entry, hentry, rfl⟩ := List.mem_map.mp hpiece
      obtain ⟨-, hname, hvalue⟩ := h entry hentry
      simp only [assignment, List.mem_append, List.mem_cons, not_or]
      exact ⟨hname, by decide, hvalue⟩
    have hfilter : ((first :: rest).map assignment).filter (fun piece => piece ≠ []) =
        (first :: rest).map assignment := by
      rw [List.filter_eq_self]
      intro piece hpiece
      obtain ⟨entry, -, rfl⟩ := List.mem_map.mp hpiece
      simp [assignment]
    rw [pieces, List.splitOn_intercalate ampersand hfree (by simp), hfilter, List.map_map]
    exact (List.map_congr_left fun entry hentry => cut_assignment (h entry hentry).1).trans (List.map_id _)

theorem not_mem_intercalate {α : Type} {x : α} {separator : List α} {texts : List (List α)}
    (hseparator : x ∉ separator) (htexts : ∀ text ∈ texts, x ∉ text) : x ∉ separator.intercalate texts := by
  induction texts with
  | nil => simp
  | cons text texts ih =>
    obtain ⟨htext, htexts⟩ := List.forall_mem_cons.mp htexts
    cases texts with
    | nil => simpa [List.intercalate] using htext
    | cons second rest =>
      rw [List.intercalate_cons_cons, List.mem_append, List.mem_append]
      exact not_or.mpr ⟨not_or.mpr ⟨htext, hseparator⟩, ih htexts⟩

/-- A byte that is escaped is not there after escaping. -/
theorem not_mem_escape {byte : UInt8} (hmark : byte ≠ percent.mark) (hvalue : hex.value byte = none)
    (hsafe : safe byte = false) : byte ∉ percent.escape safe bytes := by
  intro hmem
  rcases percent.mem_escape hmem with ⟨hkept, -⟩ | hsame | hdigit
  · simp [hsafe] at hkept
  · exact hmark hsame
  · simp [hvalue] at hdigit

end

end form
