import Synopsis.Keyed
import Synopsis.Value

/-!
# Output

Help and version texts are sent to whoever shows them. The handler of the program takes a text, or
the default one, which prints it. What a handler gives back is also added to the captures of the
program and to those of all programs. The captures of one program share their entries, which are
dropped when one of them is released; between captures they are kept up as well.
-/

namespace Synopsis

/-- What is known of a text that was sent: entries with distinct keys. -/
abbrev Entries := List (String × Value)

/-- Entries with others added, which prevail. -/
def Entries.update (entries added : Entries) : Entries :=
  Keyed.putAll Prod.fst added entries

inductive Handler where
  /-- Prints the text. -/
  | print
  /-- Gives back entries, if any. The tag tells handlers apart. -/
  | custom (tag : String) (reply : String → Entries)

structure Delivery where
  /-- The tag of the handler, if the text was not printed. -/
  tag : Option String
  text : String

/-- What a handler makes of a text. Giving back nothing means the text itself. -/
def Handler.deliver (h : Handler) (text : String) : Delivery × Entries :=
  match h with
  | print => (⟨none, text⟩, [("output", .text text)])
  | custom tag reply =>
    (⟨some tag, text⟩, if (reply text).isEmpty then [("output", .text text)] else reply text)

structure Output where
  /-- The handlers of programs. -/
  handlers : List (String × Handler) := []
  /-- The handler of all other programs. -/
  fallback : Handler := .print
  /-- What was captured per program. -/
  captured : List (String × Entries) := []
  /-- The programs of the open captures, the innermost first. -/
  opened : List String := []
  /-- The texts sent, the earlier ones first. -/
  delivered : List Delivery := []

namespace Output

/-- The name that stands for all programs. -/
def everyone : String := "$global"

/-- The name under which the output of a program is kept; without a name it is that of all. -/
def key (program : Option String) : String :=
  match program with
  | some name => if name.isEmpty then everyone else name
  | none => everyone

/-- The handler for a key. -/
def handler (o : Output) (key : String) : Handler :=
  ((Keyed.get? Prod.fst key o.handlers).map Prod.snd).getD o.fallback

/-- Adds entries to the captures that take the output of a key. -/
def record (key : String) (added : Entries) (captured : List (String × Entries)) :
    List (String × Entries) :=
  captured.map fun (k, entries) =>
    (k, if k = key ∨ k = everyone then entries.update added else entries)

/-- Sends a text of a program, and tells what is known of it. -/
def send (o : Output) (text : String) (program : Option String) : Output × Entries :=
  let key := key program
  let (delivery, entries) := (o.handler key).deliver text
  ({ o with captured := record key entries o.captured, delivered := o.delivered ++ [delivery] },
    entries)

/-- Sets the handler of a program, or the one of all other programs. -/
def setHandler (o : Output) (h : Handler) (program : Option String) : Output :=
  match program with
  | some name =>
    if name = everyone then { o with fallback := h }
    else { o with handlers := Keyed.put Prod.fst (name, h) o.handlers }
  | none => { o with fallback := h }

def entries (o : Output) (key : String) : Entries :=
  ((Keyed.get? Prod.fst key o.captured).map Prod.snd).getD []

/-- Opens a capture of the output of a program. -/
def capture (o : Output) (program : Option String) : Output :=
  let key := key program
  { o with
    captured := Keyed.put Prod.fst (key, o.entries key) o.captured
    opened := key :: o.opened }

/-- Closes the innermost capture and drops what was captured for its program. -/
def release? (o : Output) : Option (Output × Entries) :=
  match o.opened with
  | [] => none
  | key :: outer =>
    some ({ o with captured := Keyed.put Prod.fst (key, []) o.captured, opened := outer },
      o.entries key)

/-- Closes the innermost capture after a failure. What was captured is left as it is. -/
def abandon? (o : Output) : Option (Output × Entries) :=
  match o.opened with
  | [] => none
  | key :: outer => some ({ o with opened := outer }, o.entries key)

/-- What the open captures hold, the outermost first. -/
def openEntries (o : Output) : List Entries :=
  (o.opened.map o.entries).reverse

def programs (o : Output) : List String :=
  o.handlers.map Prod.fst

def printed (o : Output) : String :=
  String.join ((o.delivered.filter (·.tag.isNone)).map (·.text ++ "\n"))

/-- The texts that were not printed, with the tags of their handlers. -/
def log (o : Output) : List (String × String) :=
  o.delivered.filterMap fun d => d.tag.map fun tag => (tag, d.text)

end Output

end Synopsis
