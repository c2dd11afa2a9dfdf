import EventDialects.Value.Basic

/-!
# The form of the bundled definitions

The bundled definitions are documents like any other, so that they go through the same checks as a
file. Here are the pieces that they are put together from: slots of each kind, events, dialects, and
classes with their members.
-/

namespace EventDialects.Bundled

def fields (es : List (String × Value)) : Value := .map (es.map fun e => (.str e.1, e.2))

def slot (kind name : String) : Value := fields [("name", .str name), ("kind", .str kind)]

def number (name : String) : Value := slot "raw_integer" name

/-- A character. -/
def person (name : String) : Value := slot "character_id" name

/-- A script function or an event flag. -/
def script (name : String) : Value := slot "function_ref" name

/-- A text. -/
def label (name : String) : Value := slot "string_ref" name

/-- An undocumented operand. -/
def reserved (name : String) : Value := slot "unknown" name

def coordinate (count : Int) (name : String) : Value :=
  fields [("name", .str name), ("kind", .str "coordinate"), ("fields", .int count)]

def point (name : String) : Value := coordinate 2 name

def area (name : String) : Value := coordinate 4 name

def decoded (kind decoder name : String) : Value :=
  fields [("name", .str name), ("kind", .str kind), ("decoder", .str decoder)]

def outcome (name : String) : Value := decoded "bitflags" "battle_flags" name

def appearance (name : String) : Value := decoded "enum_value" "spawn_effects" name

def cannon (name : String) : Value := decoded "enum_value" "cannon_types" name

def event (code : Int) (name : String) (slots : List Value) : Value × Value :=
  (.int code, fields [("name", .str name), ("slots", .list slots)])

def dialect (revision title platform : String) (order operandBits : Int)
    (events : List (Value × Value)) : Value :=
  fields [("revision", .str revision), ("title", .str title), ("platform", .str platform),
    ("order", .int order), ("operand_bits", .int operandBits), ("events", .map events)]

end EventDialects.Bundled
