import Reexport.Proofs.Traversal
import Reexport.Proofs.Unrolling

/-!
# When a name becomes a type

A name that is passed on from a barrel stays the entry it is, but becomes a type if the barrel passes it
on as one. A barrel may pass on one name more than once: as a value and as a type, under names of its own
or as a namespace with a name. The entry should be a type exactly if nothing else stands behind it
(`Entry.OnlyTypes`). The resolver looks for some binding that is a type and no namespace, which comes to
the same but for two mixtures.

## What is proved

* `resolveEntry_retypes` — what takes the place of a value whose source is a barrel, and when that is
  what it should be.
* `isTypeOnly_iff_of_replaced` — which names of a module are types after a run.
* `resolveEntry_mistypes` — both mixtures do occur: a value is made a type because there is a type beside
  it, and a namespace of types stays a value.
-/

namespace Reexport

open Resolving

namespace Entry

/-- A binding with the name that the entry takes from a barrel. -/
def Takes (e n : Entry) : Prop :=
  n.isBareStar = false ∧ n.exportedName = e.specifier

/-- Nothing but types stands behind the entry, and there is something. -/
def OnlyTypes (e : Entry) (found : List Entry) : Prop :=
  (∃ n ∈ found, e.Takes n) ∧ ∀ n ∈ found, e.Takes n → n.isTypeOnly = true

/-- A value stands behind the entry, and besides, a type that is no namespace. -/
def ValueBesideType (e : Entry) (found : List Entry) : Prop :=
  (∃ n ∈ found, e.Takes n ∧ n.isTypeOnly = false) ∧
    ∃ n ∈ found, e.Takes n ∧ n.isTypeOnly = true ∧ n.kind ≠ .star

/-- Nothing but namespaces of types stands behind the entry, and there is something. -/
def OnlyTypeSpaces (e : Entry) (found : List Entry) : Prop :=
  (∃ n ∈ found, e.Takes n) ∧ ∀ n ∈ found, e.Takes n → n.isTypeOnly = true ∧ n.kind = .star

instance (e n : Entry) : Decidable (e.Takes n) := inferInstanceAs (Decidable (_ ∧ _))

instance (e : Entry) (found : List Entry) : Decidable (e.OnlyTypes found) :=
  inferInstanceAs (Decidable (_ ∧ _))

variable {e : Entry} {found : List Entry}

theorem isTypeIn_iff (hvalue : e.isTypeOnly = false) :
    e.isTypeIn found = true ↔ ∃ n ∈ found, e.Takes n ∧ n.isTypeOnly = true ∧ n.kind ≠ .star := by
  unfold isTypeIn
  rw [hvalue, Bool.not_false, Bool.true_and, List.any_eq_true]
  refine exists_congr fun n => and_congr_right fun _ => ?_
  simp only [Bool.and_eq_true, decide_eq_true_eq]
  constructor
  · rintro ⟨⟨hkind, hname⟩, htype⟩
    exact ⟨⟨by simp [isBareStar, hkind], hname⟩, htype, hkind⟩
  · rintro ⟨⟨-, hname⟩, htype, hkind⟩
    exact ⟨⟨hkind, hname⟩, htype⟩

/-- What the resolver looks for is there exactly if there are only types, but for the two mixtures. -/
theorem isTypeIn_iff_onlyTypes_iff (hvalue : e.isTypeOnly = false) :
    (e.isTypeIn found = true ↔ e.OnlyTypes found) ↔
      ¬e.ValueBesideType found ∧ ¬e.OnlyTypeSpaces found := by
  rw [isTypeIn_iff hvalue]
  constructor
  · refine fun h => ⟨fun ⟨⟨n, hn, htakes, hval⟩, htype⟩ => ?_, fun ⟨hsome, hall⟩ => ?_⟩
    · rw [(h.1 htype).2 n hn htakes] at hval
      cases hval
    · obtain ⟨n, hn, htakes, -, hkind⟩ := h.2 ⟨hsome, fun n hn htakes => (hall n hn htakes).1⟩
      exact hkind (hall n hn htakes).2
  · rintro ⟨hmixed, hspaces⟩
    constructor
    · rintro ⟨n, hn, htakes, htype⟩
      refine ⟨⟨n, hn, htakes⟩, fun other hother hother' => ?_⟩
      by_contra hval
      exact hmixed ⟨⟨other, hother, hother', by simpa using hval⟩, n, hn, htakes, htype⟩
    · rintro ⟨hsome, hall⟩
      by_contra hnone
      refine hspaces ⟨hsome, fun n hn htakes => ⟨hall n hn htakes, ?_⟩⟩
      by_contra hkind
      exact hnone ⟨n, hn, htakes, hall n hn htakes, hkind⟩

theorem inlined_of_value (hkind : e.kind ≠ .star) (hne : found ≠ []) :
    e.inlined found = if e.isTypeIn found then [{ e with isTypeOnly := true }] else [e] := by
  unfold inlined
  rw [if_neg (by simpa using hne), if_neg (by simp [isBareStar, hkind]), if_neg hkind]

/-- What becomes of a value that is taken from a barrel with the given list. -/
structure Retyped (e : Entry) (found : List Entry) (x : Entry) : Prop where
  /-- It stays the entry it is, or becomes a type. -/
  kept : x = e ∨ x = { e with isTypeOnly := true }
  /-- It becomes a type if the barrel passes the name on as a type that is no namespace. -/
  type : x.isTypeOnly = true ↔ ∃ n ∈ found, e.Takes n ∧ n.isTypeOnly = true ∧ n.kind ≠ .star
  /-- That is what it should be, but for two mixtures. -/
  fits : (x.isTypeOnly = true ↔ e.OnlyTypes found) ↔
    ¬e.ValueBesideType found ∧ ¬e.OnlyTypeSpaces found

theorem exists_retyped (hkind : e.kind ≠ .star) (hvalue : e.isTypeOnly = false) (hne : found ≠ []) :
    ∃ x, e.inlined found = [x] ∧ e.Retyped found x := by
  rw [inlined_of_value hkind hne]
  have hfits : (e.isTypeIn found = true ↔ e.OnlyTypes found) ↔
      ¬e.ValueBesideType found ∧ ¬e.OnlyTypeSpaces found := isTypeIn_iff_onlyTypes_iff hvalue
  cases htype : e.isTypeIn found with
  | true =>
    rw [htype] at hfits
    exact ⟨_, rfl, .inr rfl, by simp [← isTypeIn_iff hvalue, htype], hfits⟩
  | false =>
    rw [htype] at hfits
    exact ⟨e, rfl, .inl rfl, by rw [← isTypeIn_iff hvalue, htype, hvalue], by rwa [hvalue]⟩

end Entry

/-! ### Names that become types in a run -/

section

open Resolver

/-- The name is passed on as a value, from a barrel that, by the list a run has for it, passes it on
as a type. -/
def BecomesType (files : Files) (c : Context) (directory : String) (e : Entry) : Prop :=
  e.kind ≠ .star ∧ ∃ target content, Leads files directory e target content ∧
    isBarrel (moduleEntries content) = true ∧
    e.isTypeIn ((c.recorded? (Path.normalize target)).getD []) = true

theorem Entry.inlined_eq_self_iff {e : Entry} {nested : List Entry} (hname : e.isBareStar = false) :
    e.inlined nested = [e] ↔ ¬(e.kind ≠ .star ∧ e.isTypeIn nested = true) := by
  unfold inlined
  split
  · rename_i hempty
    rw [List.isEmpty_iff.1 hempty]
    simp [isTypeIn]
  rw [if_neg (by simp [hname])]
  split
  · rename_i hkind
    simp [hkind]
  · rename_i hkind
    split
    · rename_i htype
      refine iff_of_false (fun heq => ?_) fun h => h ⟨hkind, htype⟩
      have htrue : e.isTypeOnly = true := by
        rw [← List.singleton_inj.1 heq]
      simp [isTypeIn, htrue] at htype
    · rename_i htype
      simp [htype]

/-- A name of its own stays as it is unless it becomes a type. -/
theorem eq_singleton_iff_of_replaced {r : Resolver} {c : Context} {directory : String} {e : Entry}
    {new : List Entry} (h : Replaced r directory (Listed c) e new) (hname : e.isBareStar = false) :
    new = [e] ↔ ¬BecomesType r.files c directory e := by
  cases h with
  | astray hnone =>
    refine iff_of_true rfl ?_
    rintro ⟨-, target, content, lead, -⟩
    exact hnone _ _ lead
  | @barrel target content nested lead hbarrel hlist =>
    obtain ⟨-, rfl⟩ := hlist
    rw [Entry.inlined_eq_self_iff hname, not_iff_not]
    constructor
    · rintro ⟨hkind, htype⟩
      exact ⟨hkind, target, content, lead, hbarrel, htype⟩
    · rintro ⟨hkind, target', content', lead', -, htype⟩
      obtain ⟨rfl, -⟩ := lead.unique lead'
      exact ⟨hkind, htype⟩
  | leaf lead hleaf hnew =>
    rw [leafResult_of_not_isBareStar hname] at hnew
    refine iff_of_true (Except.ok.inj hnew).symm ?_
    rintro ⟨-, target, content, lead', hbarrel, -⟩
    obtain ⟨-, rfl⟩ := lead.unique lead'
    rw [hleaf] at hbarrel
    cases hbarrel

/-- **The flavour of a name of its own** after a run: it is a type if it was one, or if it becomes
one. -/
theorem isTypeOnly_iff_of_replaced {r : Resolver} {c : Context} {directory : String} {e x : Entry}
    (h : Replaced r directory (Listed c) e [x]) (hname : e.isBareStar = false) :
    x.isTypeOnly = true ↔ e.isTypeOnly = true ∨ BecomesType r.files c directory e := by
  have hself := eq_singleton_iff_of_replaced h hname
  obtain ⟨t, hx, ht⟩ := h.of_not_isBareStar hname
  obtain rfl := List.singleton_inj.1 hx
  cases htype : e.isTypeOnly with
  | true => exact iff_of_true (ht htype) (.inl rfl)
  | false =>
    have hsame : [{ e with isTypeOnly := t }] = [e] ↔ t = false := by
      rw [List.singleton_inj]
      refine ⟨fun h => (congrArg Entry.isTypeOnly h).trans htype, ?_⟩
      rintro rfl
      rw [← htype]
    rw [hsame, ← not_iff_not, not_not, Bool.not_eq_false] at hself
    simpa using hself

end

namespace Resolver

variable {r : Resolver} {directory target content : String} {e : Entry} {p q : Progress}
  {found : List Entry}

/-- An entry whose source is a barrel takes what the barrel passes on. -/
theorem yields_resolveEntry_of_barrel {descend : String → Resolving (List Entry)}
    (lead : Leads r.files directory e target content)
    (hbarrel : isBarrel (moduleEntries content) = true) (h : Yields (descend target) p found q) :
    Yields (r.resolveEntry descend directory e) p (e.inlined found) q := by
  rw [resolveEntry_of_leads lead, if_pos hbarrel]
  exact yields_bind_iff.2 ⟨found, q, h, yields_pure_iff.2 ⟨rfl, rfl⟩⟩

/-- **When a value becomes a type**: where its source is a barrel for which the resolver finds a list,
one entry takes its place. It is a type exactly if the list has the name as a type that is no namespace.
That is the case exactly if nothing but types stands behind the name, unless there is a value beside
such a type, or nothing but namespaces of types. -/
theorem resolveEntry_retypes (hkind : e.kind ≠ .star) (hvalue : e.isTypeOnly = false)
    (lead : Leads r.files directory e target content)
    (hbarrel : isBarrel (moduleEntries content) = true)
    (h : Yields (r.resolveFile target) p found q) (hne : found ≠ []) :
    ∃ x, Yields (r.resolveEntry r.resolveFile directory e) p [x] q ∧ e.Retyped found x := by
  have hstep := yields_resolveEntry_of_barrel lead hbarrel h
  obtain ⟨x, hx, hretyped⟩ := Entry.exists_retyped hkind hvalue hne
  rw [hx] at hstep
  exact ⟨x, hstep, hretyped⟩

/-- A barrel that passes on a type and a value. -/
def viewFiles : MemoryFiles := .ofList
  [("/p/index.ts", "export { Props } from \"./ui\";\n"),
    ("/p/ui.ts", "export type { Props } from \"./view\";\nexport { View } from \"./view\";\n"),
    ("/p/view.ts", "export interface Props {}\nexport class View {}\n")]

/-- The name of the type, taken from the barrel. -/
def propsEntry : Entry where
  specifier := "Props"
  source := "./ui"
  kind := .named
  originLine := 1
  specifier_ne_empty := by decide
  source_ne_empty := by decide
  specifier_of_star := nofun

/-- The name becomes a type. -/
theorem resolveEntry_retypes_props : propsEntry.kind ≠ .star ∧ propsEntry.isTypeOnly = false ∧
    ∃ content found q, Leads viewFiles.files "/p" propsEntry "/p/ui.ts" content ∧
      isBarrel (moduleEntries content) = true ∧
      Yields (Resolver.resolveFile ⟨viewFiles.files, false⟩ "/p/ui.ts") {} found q ∧ found ≠ [] ∧
      ∃ x, Yields (Resolver.resolveEntry ⟨viewFiles.files, false⟩
        (Resolver.resolveFile ⟨viewFiles.files, false⟩) "/p" propsEntry) {} [x] q ∧
          propsEntry.Retyped found x := by
  have lead : Leads viewFiles.files "/p" propsEntry "/p/ui.ts"
      "export type { Props } from \"./view\";\nexport { View } from \"./view\";\n" :=
    ⟨by decide +kernel, by decide +kernel⟩
  obtain ⟨found, q, h, hne⟩ := exists_yields_of_map (p := {}) (f := List.isEmpty) (b := false)
    (x := Resolver.resolveFile ⟨viewFiles.files, false⟩ "/p/ui.ts") (by decide +kernel)
  have hne : found ≠ [] := by
    rintro rfl
    cases hne
  have hbarrel : isBarrel (moduleEntries
      "export type { Props } from \"./view\";\nexport { View } from \"./view\";\n") = true := by
    decide +kernel
  exact ⟨by decide, rfl, _, found, q, lead, hbarrel, h, hne,
    resolveEntry_retypes (r := ⟨viewFiles.files, false⟩) (by decide) rfl lead hbarrel h hne⟩

/-! ### The two mixtures -/

/-- A barrel that passes on a value and a type of one name. -/
def valueBesideTypeFiles : MemoryFiles := .ofList
  [("/p/index.ts", "export { N } from \"./b\";\n"),
    ("/p/b.ts", "export { N } from \"./x\";\nexport type { N } from \"./y\";\n"),
    ("/p/x.ts", "export const N = 1;\n"),
    ("/p/y.ts", "export type N = 1;\n")]

/-- A barrel that passes on a namespace as a type. -/
def typeSpaceFiles : MemoryFiles := .ofList
  [("/p/index.ts", "export { N } from \"./b\";\n"),
    ("/p/b.ts", "export type * as N from \"./x\";\n"),
    ("/p/x.ts", "export const v = 1;\n")]

/-- The name taken from either barrel. -/
def nEntry : Entry where
  specifier := "N"
  source := "./b"
  kind := .named
  originLine := 1
  specifier_ne_empty := by decide
  source_ne_empty := by decide
  specifier_of_star := nofun

/-- **Both mixtures go wrong.** A value becomes a type because a type stands beside it, and a name
behind which there is nothing but a namespace of types stays a value. So it does when the module is
resolved. -/
theorem resolveEntry_mistypes :
    moduleEntries "export { N } from \"./b\";\n" = [nEntry] ∧
    (∃ found q, Yields (Resolver.resolveFile ⟨valueBesideTypeFiles.files, false⟩ "/p/b.ts") {} found q ∧
      found ≠ [] ∧ ¬nEntry.OnlyTypes found ∧
      Yields (Resolver.resolveEntry ⟨valueBesideTypeFiles.files, false⟩
        (Resolver.resolveFile ⟨valueBesideTypeFiles.files, false⟩) "/p" nEntry) {}
          [{ nEntry with isTypeOnly := true }] q) ∧
    (∃ q, Yields (Resolver.resolveFile ⟨valueBesideTypeFiles.files, false⟩ "/p/index.ts") {}
      [{ nEntry with isTypeOnly := true }] q) ∧
    (∃ found q, Yields (Resolver.resolveFile ⟨typeSpaceFiles.files, false⟩ "/p/b.ts") {} found q ∧
      found ≠ [] ∧ nEntry.OnlyTypes found ∧
      Yields (Resolver.resolveEntry ⟨typeSpaceFiles.files, false⟩
        (Resolver.resolveFile ⟨typeSpaceFiles.files, false⟩) "/p" nEntry) {} [nEntry] q) ∧
    ∃ q, Yields (Resolver.resolveFile ⟨typeSpaceFiles.files, false⟩ "/p/index.ts") {} [nEntry] q := by
  have hrun (files : Files) (content : String) (found : List Entry) (x : Entry)
      (lead : Leads files "/p" nEntry "/p/b.ts" content)
      (hbarrel : isBarrel (moduleEntries content) = true)
      (hfound : ((Resolver.resolveFile ⟨files, false⟩ "/p/b.ts").run.run {}).1 = .ok found)
      (hx : nEntry.inlined found = [x]) :
      ∃ q, Yields (Resolver.resolveFile ⟨files, false⟩ "/p/b.ts") {} found q ∧
        Yields (Resolver.resolveEntry ⟨files, false⟩ (Resolver.resolveFile ⟨files, false⟩) "/p" nEntry)
          {} [x] q := by
    obtain ⟨q, hq⟩ := exists_yields_of_run hfound
    exact ⟨q, hq, hx ▸ yields_resolveEntry_of_barrel lead hbarrel hq⟩
  refine ⟨by decide +kernel, ?_, exists_yields_of_run (by decide +kernel), ?_,
    exists_yields_of_run (by decide +kernel)⟩
  · let found : List Entry :=
      [{ nEntry with source := "./x", source_ne_empty := by decide },
        { nEntry with
          source := "./y", isTypeOnly := true, originLine := 2, source_ne_empty := by decide }]
    obtain ⟨q, hq, hstep⟩ := hrun valueBesideTypeFiles.files
      "export { N } from \"./x\";\nexport type { N } from \"./y\";\n" found
      { nEntry with isTypeOnly := true } ⟨by decide +kernel, by decide +kernel⟩ (by decide +kernel)
      (by decide +kernel) (by decide)
    exact ⟨found, q, hq, by decide, by decide, hstep⟩
  · let found : List Entry :=
      [{ specifier := "*", source := "./x", kind := .star, asName := some "N", isTypeOnly := true,
         originLine := 1, specifier_ne_empty := by decide, source_ne_empty := by decide,
         specifier_of_star := fun _ => rfl }]
    obtain ⟨q, hq, hstep⟩ := hrun typeSpaceFiles.files "export type * as N from \"./x\";\n" found
      nEntry ⟨by decide +kernel, by decide +kernel⟩ (by decide +kernel) (by decide +kernel) (by decide)
    exact ⟨found, q, hq, by decide, by decide, hstep⟩

end Resolver

end Reexport
