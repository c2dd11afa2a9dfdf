import EventDialects.Bundled.Form

/-!
# The dialects of the handheld titles

Codes and slots of the titles for handhelds, with two screens at first and with depth later.
-/

namespace EventDialects.Bundled

def shadowDragon : Value :=
  dialect "FE11" "Shadow Dragon" "ds" 3 16
    [event 0x01 "Opening" [script "script"],
      event 0x04 "Area" [area "bounds", number "phase", script "condition"],
      event 0x05 "Visit" [point "position", number "visit_type", script "condition"],
      event 0x08 "Talk" [person "speaker", person "listener", number "flag", script "condition"],
      event 0x09 "Support" [person "first", person "second", number "level", script "condition"],
      event 0x0A "Defeat" [script "condition"],
      event 0x0B "Dead" [person "unit"],
      event 0x0C "Escape" [person "unit"],
      event 0x0E "BattleTalk" [person "attacker", person "defender"],
      event 0x11 "Battle" [person "attacker", person "defender", outcome "outcome",
        script "condition"],
      event 0x12 "Reinforce" [label "group", person "leader", person "target", appearance "effect",
        script "condition"],
      event 0x13 "Cannon" [person "operator", cannon "cannon_type", number "range",
        script "condition"],
      event 0x14 "Seize" [person "unit", script "condition"]]

def newMystery : Value :=
  dialect "FE12" "New Mystery of the Emblem" "ds" 4 16
    [event 0x01 "Opening" [script "script"],
      event 0x04 "Area" [area "bounds", number "phase", script "condition"],
      event 0x05 "Visit" [point "position", number "visit_type", script "condition"],
      event 0x08 "Talk" [person "speaker", person "listener", number "flag", script "condition"],
      event 0x09 "Support" [person "first", person "second", number "level", script "condition"],
      event 0x0C "Escape" [person "unit"],
      event 0x0E "BattleTalk" [person "attacker", person "defender"],
      event 0x11 "Battle" [person "attacker", person "defender", outcome "outcome",
        script "condition"],
      event 0x12 "Reinforce" [label "group", person "leader", person "target", appearance "effect",
        script "condition"],
      event 0x13 "Cannon" [person "operator", cannon "cannon_type", number "range",
        script "condition"],
      event 0x14 "Seize" [person "unit", script "condition"],
      event 0x16 "TurnLimit" [number "turns", script "condition"]]

/-- Awakening. Operands have 32 bits: integers are signed, offsets are not. -/
def awakening : Value :=
  dialect "FE13" "Awakening" "3ds" 5 32
    [event 0x10 "Area" [area "bounds", number "phase", script "condition"],
      event 0x11 "Visit" [point "position", number "visit_type", reserved "reserved",
        script "condition"],
      event 0x12 "Talk" [person "speaker", person "listener", number "flag", script "condition"],
      event 0x13 "Support" [person "first", person "second", number "level", script "condition"],
      event 0x15 "Defeat" [person "unit", number "side", script "condition"],
      event 0x17 "BattleTalk" [person "attacker", person "defender"],
      event 0x18 "Opening" [script "script"],
      event 0x19 "Ending" [script "script"]]

def fates : Value :=
  dialect "FE14" "Fates" "3ds" 6 32
    [event 0x10 "Turn" [number "start_turn", number "end_turn", number "phase"],
      event 0x11 "TurnEnd" [number "start_turn", number "end_turn", number "phase"],
      event 0x12 "Cannon" [point "position", cannon "cannon_type"],
      event 0x13 "Spawn" [point "position", appearance "effect"],
      event 0x14 "Area" [area "bounds", number "phase", script "condition"],
      event 0x15 "Visit" [point "position", number "visit_type", number "item_id", number "flag",
        reserved "reserved_1", reserved "reserved_2", script "condition"],
      event 0x16 "Escape" [area "area", point "exit", number "phase", number "escape_flag",
        reserved "reserved_1", reserved "reserved_2", reserved "reserved_3", reserved "reserved_4",
        reserved "reserved_5"],
      event 0x17 "Talk" [person "speaker", number "speaker_side", person "listener",
        number "listener_side", number "flag", script "condition"],
      event 0x18 "Support" [person "first", number "first_side", person "second",
        number "second_side", number "level", script "condition"],
      event 0x19 "Battle" [person "attacker", outcome "outcome", number "target_side",
        reserved "reserved_1", reserved "reserved_2", script "condition"],
      event 0x1B "BattleTalk" [person "attacker", number "attacker_side", person "defender",
        number "defender_side"],
      event 0x1C "Defeat" [person "unit", number "side"],
      event 0x1D "Seize" [person "unit", number "side", script "condition"],
      event 0x1E "Opening" [script "script"],
      event 0x1F "Ending" [script "script"],
      event 0x20 "DragonVein" [script "condition", number "vein_id"]]

def shadowsOfValentia : Value :=
  dialect "FE15" "Shadows of Valentia" "3ds" 7 32
    [event 0x14 "Area" [area "bounds", number "phase", script "condition"],
      event 0x15 "Visit" [point "position", number "visit_type", number "item_id", number "flag",
        reserved "reserved_1", reserved "reserved_2", script "condition"],
      event 0x17 "Talk" [person "speaker", number "speaker_side", person "listener",
        number "listener_side", number "flag", script "condition"],
      event 0x1A "BattleTalk" [person "attacker", number "attacker_side", person "defender",
        number "defender_side"],
      event 0x1B "Defeat" [person "unit", number "side"],
      event 0x1C "Seize" [person "unit", number "side", script "condition"],
      event 0x25 "Treasure" [label "item", number "flag"],
      event 0x26 "Ambush" [label "group", script "condition"]]

end EventDialects.Bundled
