import Synopsis.Text.Blank
import Synopsis.Text.CaseFold
import Synopsis.Text.Line

/-!
# Sections of a help text

A section is headed by a line that holds its name in any case; the lines right below that start
with a space or a tab belong to it. `Section.findAll` gives the sections of a name from top to
bottom. The search goes on below each section found, so a name inside a section heads no other.
-/

namespace Synopsis

structure Section where
  /-- The lines of the section, without the blanks around them. -/
  text : String
  /-- The number of the heading line, counted from one. -/
  line : Nat
  /-- How many characters of the help text come before the end of the section. -/
  stop : Nat
  deriving DecidableEq

namespace Section

/-- What follows the heading that starts here, the name standing somewhere before the first
newline. -/
def afterHeading? (name : List Char) : List Char → Option (List Char)
  | [] => (Text.afterLetters? name []).map fun rest => (Text.takeLine rest).2
  | c :: s =>
    match Text.afterLetters? name (c :: s) with
    | some rest => some (Text.takeLine rest).2
    | none => if c = '\n' then none else afterHeading? name s

/-- A line that starts with a space or a tab. -/
def isIndented : List Char → Bool
  | ' ' :: _ => true
  | '\t' :: _ => true
  | _ => false

theorem ne_nil_of_isIndented {s : List Char} (h : isIndented s = true) : s ≠ [] := by
  rintro rfl
  simp [isIndented] at h

/-- What follows the indented lines at the start of a text. -/
def afterIndented (s : List Char) : List Char :=
  if h : isIndented s then
    have := Text.takeLine_shorter (ne_nil_of_isIndented h)
    afterIndented (Text.takeLine s).2
  else s
termination_by s.length

/-- What follows the section that starts here. -/
def afterBlock? (name s : List Char) : Option (List Char) :=
  (afterHeading? name s).map afterIndented

theorem afterHeading?_shorter {name s rest : List Char} (hs : s ≠ [])
    (h : afterHeading? name s = some rest) : rest.length < s.length := by
  induction s with
  | nil => exact absurd rfl hs
  | cons c s ih =>
    cases hn : Text.afterLetters? name (c :: s) with
    | some tail =>
      simp only [afterHeading?, hn, Option.some.injEq] at h
      subst h
      by_cases ht : tail = []
      · simp [ht, Text.takeLine]
      · exact Nat.lt_of_lt_of_le (Text.takeLine_shorter ht) (Text.afterLetters?_length hn)
    | none =>
      simp only [afterHeading?, hn, Option.ite_none_left_eq_some] at h
      by_cases hempty : s = []
      · subst hempty
        cases name with
        | nil => simp [Text.afterLetters?] at hn
        | cons => simp [afterHeading?, Text.afterLetters?] at h
      · have := ih hempty h.2
        simp only [List.length_cons]
        omega

theorem afterIndented_length (s : List Char) : (afterIndented s).length ≤ s.length := by
  fun_induction afterIndented s with
  | case1 s _ hlt ih => omega
  | case2 => exact Nat.le_refl _

theorem afterBlock?_shorter {name s rest : List Char} (hs : s ≠ [])
    (h : afterBlock? name s = some rest) : rest.length < s.length := by
  obtain ⟨r, hr, rfl⟩ := Option.map_eq_some_iff.mp h
  exact Nat.lt_of_le_of_lt (afterIndented_length r) (afterHeading?_shorter hs hr)

/-- The last line is left with its newline, so that another line, an empty one, starts at its
end. -/
def endsLine (s : List Char) : Bool :=
  s.getLast? == some '\n'

/-- The sections from here on, where a line starts that has the given number and comes after
`offset` characters. At the end of the text only the empty name is found. -/
def scan (name : List Char) (line offset : Nat) (s : List Char) : List Section :=
  if hs : s = [] then
    if name.isEmpty then [⟨"", line, offset⟩] else []
  else
    match hb : afterBlock? name s with
    | some rest =>
      have := afterBlock?_shorter hs hb
      let block := s.take (s.length - rest.length)
      let found : Section := ⟨String.ofList (Text.trim block), line, offset + block.length⟩
      if rest.isEmpty && !endsLine block then [found]
      else found :: scan name (line + block.count '\n') (offset + block.length) rest
    | none =>
      have := Text.takeLine_shorter hs
      let first := (Text.takeLine s).1
      let rest := (Text.takeLine s).2
      if rest.isEmpty && !endsLine first then []
      else scan name (line + 1) (offset + first.length) rest
termination_by s.length

def findAll (name source : String) : List Section :=
  scan name.toList 1 0 source.toList

end Section

end Synopsis
