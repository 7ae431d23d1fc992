import Synopsis.Keyed
import Synopsis.OptionDef

/-!
# Option tables

A table holds one definition per canonical name, in the order in which the names came up; a later
definition of a name takes the place of the earlier one. Options are found by their short form, by
their long form or by the start of it, always in table order.
-/

namespace Synopsis

/-- Option definitions with distinct canonical names. -/
structure OptionTable where
  options : List OptionDef
  distinct : (options.map OptionDef.name).Nodup
  deriving DecidableEq

namespace OptionTable

def empty : OptionTable :=
  ⟨[], List.nodup_nil⟩

instance : Inhabited OptionTable := ⟨empty⟩

def insert (t : OptionTable) (o : OptionDef) : OptionTable :=
  ⟨Keyed.put OptionDef.name o t.options, Keyed.nodup_put _ _ t.distinct⟩

/-- The table with more definitions, the later ones prevailing. -/
def insertAll (t : OptionTable) (os : List OptionDef) : OptionTable :=
  ⟨Keyed.putAll OptionDef.name os t.options, Keyed.nodup_putAll _ _ t.distinct⟩

def ofList (os : List OptionDef) : OptionTable :=
  empty.insertAll os

def names (t : OptionTable) : List String :=
  t.options.map OptionDef.name

def size (t : OptionTable) : Nat :=
  t.options.length

def get? (t : OptionTable) (name : String) : Option OptionDef :=
  Keyed.get? OptionDef.name name t.options

def byShort (t : OptionTable) (form : String) : List OptionDef :=
  t.options.filter (·.short == some form)

def byLong (t : OptionTable) (form : String) : List OptionDef :=
  t.options.filter (·.long == some form)

/-- The options whose long form starts as given. -/
def byStart (t : OptionTable) (start : String) : List OptionDef :=
  t.options.filter fun o => o.long?.any fun l => start.toList.isPrefixOf l.toList

/-- The options with the given form: long if it starts with two dashes, else short. -/
def lookup (t : OptionTable) (form : String) : List OptionDef :=
  if "--".toList.isPrefixOf form.toList then t.byLong form else t.byShort form

def describe (t : OptionTable) : String :=
  "OptionTable([" ++ String.intercalate ", " (t.options.map OptionDef.describe) ++ "])"

end OptionTable

end Synopsis
