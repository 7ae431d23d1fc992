import Synopsis.Text.Span

/-!
# Blanks, trimming and words

A blank is a white space character of any script, the line breaks and the four information
separators included. `trim` drops the blanks at both ends of a text and `words` cuts it at every
run of blanks.
-/

namespace Synopsis.Text

/-- The white space characters. -/
def blankSpans : List Span :=
  [⟨0x09, 0x0d, 1⟩, ⟨0x1c, 0x20, 1⟩, ⟨0x85, 0x85, 1⟩, ⟨0xa0, 0xa0, 1⟩, ⟨0x1680, 0x1680, 1⟩,
   ⟨0x2000, 0x200a, 1⟩, ⟨0x2028, 0x2029, 1⟩, ⟨0x202f, 0x202f, 1⟩, ⟨0x205f, 0x205f, 1⟩,
   ⟨0x3000, 0x3000, 1⟩]

def isBlank (c : Char) : Bool :=
  blankSpans.any (Span.has · c.toNat)

theorem isBlank_space : isBlank ' ' = true := by decide

theorem isBlank_tab : isBlank '\t' = true := by decide

theorem isBlank_newline : isBlank '\n' = true := by decide

/-- The text from its first character that is no blank. -/
def trimLeft (s : List Char) : List Char :=
  s.dropWhile isBlank

/-- The text up to its last character that is no blank. -/
def trimRight : List Char → List Char
  | [] => []
  | c :: r =>
    match trimRight r with
    | [] => if isBlank c then [] else [c]
    | d :: t => c :: d :: t

/-- The text without the blanks at either end. -/
def trim (s : List Char) : List Char :=
  trimRight (trimLeft s)

/-- The maximal runs of characters that are no blanks. -/
def words : List Char → List (List Char)
  | [] => []
  | c :: r =>
    if isBlank c then words r
    else
      match r with
      | [] => [[c]]
      | d :: _ =>
        if isBlank d then [c] :: words r
        else
          match words r with
          | [] => [[c]]
          | w :: ws => (c :: w) :: ws

def strip (s : String) : String :=
  String.ofList (trim s.toList)

end Synopsis.Text
