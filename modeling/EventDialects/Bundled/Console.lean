import EventDialects.Bundled.Form

/-!
# The dialects of the console titles

Codes and slots of the titles for consoles.
-/

namespace EventDialects.Bundled

/-- Path of Radiance. Operands have 16 bits: integers are signed, offsets are not. -/
def pathOfRadiance : Value :=
  dialect "FE9" "Path of Radiance" "gcn" 1 16
    [event 0x01 "Opening" [script "script"],
      event 0x02 "Ending" [script "script"],
      event 0x03 "Turn" [number "phase", number "start_turn", number "end_turn"],
      event 0x04 "Area" [area "bounds", number "phase", script "condition"],
      event 0x05 "Visit" [point "position", number "visit_type", script "condition"],
      event 0x08 "Talk" [person "speaker", person "listener", number "flag", script "condition"],
      event 0x09 "Support" [person "first", person "second", number "level", script "condition"],
      event 0x0B "Dead" [person "unit"],
      event 0x0C "Escape" [person "unit"],
      event 0x0D "Battle" [person "attacker", person "defender", outcome "outcome"],
      event 0x0E "BattleTalk" [person "attacker", person "defender", reserved "reserved"]]

def radiantDawn : Value :=
  dialect "FE10" "Radiant Dawn" "wii" 2 16
    [event 0x01 "Opening" [script "script"],
      event 0x03 "Turn" [number "phase", number "start_turn", number "end_turn"],
      event 0x04 "Area" [area "bounds", number "phase", script "condition"],
      event 0x05 "Visit" [point "position", number "visit_type", script "condition"],
      event 0x08 "Talk" [person "speaker", person "listener", number "flag", script "condition"],
      event 0x09 "Support" [person "first", person "second", number "level", script "condition"],
      event 0x0B "Dead" [person "unit"],
      event 0x0C "Escape" [person "unit"],
      event 0x0E "BattleTalk" [person "attacker", person "defender"],
      event 0x11 "Battle" [person "attacker", person "defender", outcome "outcome",
        script "condition"],
      event 0x12 "Reinforce" [label "group", person "leader", person "target", appearance "effect",
        script "condition"],
      event 0x13 "Cannon" [person "operator", cannon "cannon_type", number "range",
        script "condition"],
      event 0x14 "Seize" [person "unit", script "condition"]]

end EventDialects.Bundled
