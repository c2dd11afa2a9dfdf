import EventDialects.Bundled.Form

/-!
# The bundled equivalences

The callbacks that are the same in several titles although their codes differ. Members name their
events; the codes are found in each title's dialect.
-/

namespace EventDialects.Bundled

def member (revision : String) : Value := fields [("revision", .str revision)]

/-- A member some of whose slots have no counterpart in other titles. -/
def memberIgnoring (revision : String) (ignored : List String) : Value :=
  fields [("revision", .str revision), ("ignore", .list (Value.ofTexts ignored))]

/-- A member whose event has another name than its class. -/
def memberNamed (revision event : String) (ignored : List String) : Value :=
  fields [("revision", .str revision), ("event", .str event),
    ("ignore", .list (Value.ofTexts ignored))]

def group (name : String) (members : List Value) : Value :=
  fields [("name", .str name), ("members", .list members)]

/-- The speakers of a talk may be stored in either order. -/
def talk : Value :=
  fields [("name", .str "Talk"),
    ("order_insensitive", .list (Value.ofTexts ["speaker", "listener"])),
    ("members", .list
      (["FE9", "FE10", "FE11", "FE12", "FE13"].map member
        ++ ["FE14", "FE15"].map (memberIgnoring · ["speaker_side", "listener_side"])))]

def equivalences : Value :=
  fields [("classes", .list
    [group "Turn" (["FE9", "FE10", "FE14"].map member),
      group "Opening" (["FE9", "FE10", "FE11", "FE12", "FE13", "FE14"].map member),
      group "Area" (["FE9", "FE10", "FE11", "FE12", "FE13", "FE14", "FE15"].map member),
      talk,
      group "Battle" (["FE10", "FE11", "FE12"].map member),
      group "Dead"
        (["FE9", "FE10", "FE11"].map member
          ++ ["FE14", "FE15"].map (memberNamed · "Defeat" ["side"]))])]

end EventDialects.Bundled
