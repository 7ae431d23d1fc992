/-!
# Newlines

Texts from outside may end their lines with a carriage return, with or without a newline after it.
Inside there is only the newline.
-/

namespace Synopsis.Text

/-- The characters with one newline for every line end. -/
def newlines : List Char → List Char
  | [] => []
  | '\r' :: '\n' :: r => '\n' :: newlines r
  | '\r' :: r => '\n' :: newlines r
  | c :: r => c :: newlines r

/-- The text with one newline for every line end. -/
def unifyNewlines (s : String) : String :=
  String.ofList (newlines s.toList)

end Synopsis.Text
