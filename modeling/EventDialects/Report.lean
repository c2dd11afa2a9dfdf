import EventDialects.Registration
import EventDialects.Resolver

/-!
# Compatibility reports

A registration is compatible with a dialect if it decodes and encodes back to the same operands. A
report keeps one outcome per registration, counts them, and counts the failures by category.

* `failures_eq`: every outcome is a success or a failure.
-/

namespace EventDialects

open Text

/-- What became of one registration. -/
structure Outcome where
  registration : Registration
  event : Value
  category : Option Category
  message : String
  mismatch : Bool

namespace Outcome

def ok (o : Outcome) : Bool := o.category.isNone && !o.mismatch

end Outcome

/-- The outcomes for one revision. -/
structure Report where
  revision : Value
  outcomes : List Outcome

namespace Report

def add (r : Report) (o : Outcome) : Report := ⟨r.revision, r.outcomes ++ [o]⟩

def successes (r : Report) : Nat := r.outcomes.countP Outcome.ok

def failures (r : Report) : Nat := r.outcomes.length - r.successes

/-- The percentage of successes; without outcomes it is zero. -/
def rate (r : Report) : Binary64 :=
  if r.outcomes.isEmpty then .ofInt 0
  else (Binary64.ofQuotient false r.successes r.outcomes.length).timesNat 100

def count (r : Report) (c : Category) : Nat := r.outcomes.countP (·.category == some c)

/-- The categories that occur, in the order of their names, with the number of outcomes in each. -/
def counts (r : Report) : List (Category × Nat) :=
  (Category.all.map fun c => (c, r.count c)).filter (·.2 ≠ 0)

def mismatches (r : Report) : Nat := r.outcomes.countP (·.mismatch)

def label (o : Outcome) : Attempt String := do
  let event ← if o.event.truthy then do pure (" (" ++ (← o.event.print) ++ ")") else pure ""
  return o.registration.source ++ " event " ++ codeText o.registration.code ++ event

/-- What follows a registration in the line of its outcome. -/
def verdict (o : Outcome) : String :=
  if o.ok then ""
  else if o.mismatch then ": output mismatch"
  else ": ["
    ++ (match o.category with
      | some c => c.name
      | none => "")
    ++ "] " ++ o.message

/-- The line of one outcome. -/
def line (o : Outcome) : Attempt String := do
  return (if o.ok then "  OK: " else "  FAILED! ") ++ (← label o) ++ verdict o

def countLine (name : String) (n : Nat) : String :=
  "  " ++ padRight 20 name ++ ": " ++ padLeft 4 ' ' (decimal n)

def totals (r : Report) : String :=
  "Successes: " ++ decimal r.successes ++ ", Failures: " ++ decimal r.failures ++ ", Rate: "
    ++ r.rate.onePlace ++ "%"

def lines (r : Report) : Attempt (List String) := do
  let revision ← r.revision.print
  let outcomes ← r.outcomes.mapM line
  return ["Compatibility report for " ++ revision, ""] ++ outcomes ++ [""]
    ++ r.counts.map (fun c => countLine c.1.name c.2)
    ++ (if r.mismatches ≠ 0 then [countLine "output_mismatch" r.mismatches] else [])
    ++ [r.totals]

def text (r : Report) : Attempt String := do return "\n".intercalate (← r.lines)

theorem failures_eq (r : Report) : r.successes + r.failures = r.outcomes.length := by
  have : r.successes ≤ r.outcomes.length := List.countP_le_length
  unfold failures
  omega

end Report

namespace Registry

/-- The event of a registration and the operands that it encodes back to. The event is known even if
decoding fails. -/
def roundTrip (g : Registry) (revision : Value) (r : Registration) :
    Value × Attempt (List Int) :=
  match g.resolve revision (.int r.code) with
  | .error e => (.null, .error e)
  | .ok schema =>
    (schema.name, do
      let record ← g.decode revision (.int r.code) r.operands
      schema.encode record)

/-- What becomes of one registration. Errors of the taxonomy are outcomes; any other failure ends
the check. -/
def check (g : Registry) (revision : Value) (r : Registration) : Attempt Outcome :=
  match g.roundTrip revision r with
  | (event, .error (.refused refusal)) => do
    let category ← refusal.classify
    return ⟨r, event, some category, refusal.message, false⟩
  | (_, .error e) => .error e
  | (event, .ok operands) => do
    let given ← r.operands.iterate
    let encoded := operands.map Value.int
    if Value.equalAll encoded given then return ⟨r, event, none, "", false⟩
    else
      let expected ← (Value.list given).display
      let got ← (Value.list encoded).display
      return ⟨r, event, none, "expected " ++ expected ++ ", got " ++ got, true⟩

def checkAll (g : Registry) (revision : Value) : List Registration → Attempt (List Outcome)
  | [] => .ok []
  | r :: rs => do
    let o ← g.check revision r
    let os ← checkAll g revision rs
    return o :: os

def report (g : Registry) (revision : Value) (rs : List Registration) : Attempt Report := do
  return ⟨revision, ← g.checkAll revision rs⟩

end Registry

end EventDialects
