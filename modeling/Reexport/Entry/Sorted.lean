import Reexport.Entry

/-!
# Sorted entries

Entries in the order of their sources, then of their exported names. Texts are compared character by
character by code point, and entries equal in both keep their order.
-/

namespace Reexport

/-- Whether `a` may stand before `b`. -/
def Entry.precedes (a b : Entry) : Bool :=
  decide (a.source < b.source) || (a.source == b.source && decide (a.exportedName ≤ b.exportedName))

/-- The entries by source and exported name. -/
def sorted (entries : List Entry) : List Entry :=
  entries.mergeSort Entry.precedes

theorem sorted_perm (entries : List Entry) : (sorted entries).Perm entries :=
  List.mergeSort_perm entries _

end Reexport
