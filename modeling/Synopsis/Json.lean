import Synopsis.Bindings

/-!
# Bindings as JSON

Bindings are written as an object, one key or list item per line and each level indented by two
more spaces. Texts keep all characters but quotes, backslashes and control characters.
-/

namespace Synopsis.Json

def hexDigit (n : Nat) : Char :=
  if n < 10 then Char.ofNat ('0'.toNat + n) else Char.ofNat ('a'.toNat + (n - 10))

/-- A character as it stands between quotes. -/
def escaped (c : Char) : List Char :=
  match c with
  | '"' => ['\\', '"']
  | '\\' => ['\\', '\\']
  | '\n' => ['\\', 'n']
  | '\r' => ['\\', 'r']
  | '\t' => ['\\', 't']
  | '\x08' => ['\\', 'b']
  | '\x0c' => ['\\', 'f']
  | c =>
    if c.toNat < 0x20 then ['\\', 'u', '0', '0', hexDigit (c.toNat / 16), hexDigit (c.toNat % 16)]
    else [c]

/-- A text between quotes. -/
def quoted (s : String) : String :=
  "\"" ++ String.ofList (s.toList.flatMap escaped) ++ "\""

/-- The start of a line at the given depth. -/
def indent (depth : Nat) : String :=
  String.ofList (List.replicate (2 * depth) ' ')

/-- Items between brackets, one per line if there are any. -/
def bracketed (opening closing : String) (depth : Nat) (items : List String) : String :=
  if items.isEmpty then opening ++ closing
  else
    opening ++ "\n" ++ String.intercalate ",\n" (items.map (indent (depth + 1) ++ ·)) ++ "\n" ++
      indent depth ++ closing

mutual

def ofValue (depth : Nat) : Value → String
  | .absent => "null"
  | .flag true => "true"
  | .flag false => "false"
  | .count n => toString n
  | .text s => quoted s
  | .list vs => bracketed "[" "]" depth (ofValues (depth + 1) vs)

def ofValues (depth : Nat) : List Value → List String
  | [] => []
  | v :: vs => ofValue depth v :: ofValues depth vs

end

def ofBindings (b : Bindings) : String :=
  bracketed "\x7b" "\x7d" 0 (b.map fun (key, value) => quoted key ++ ": " ++ ofValue 1 value)

end Synopsis.Json
