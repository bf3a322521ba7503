import Reexport.Proofs.Readback

/-!
# Where barrels are followed, nothing is found twice

There are two notions of entries that are the same. Merging tells entries apart by their keys, in
which the source counts for a bare `export *` alone; duplicates are dropped by identity, in which it
counts for every entry. A key is coarser than an identity only if it can be told from the identity
whether an entry is a bare `export *`, and the identity does not say so: it has the exported name, and
an alias could be a star. What is found has no such alias, however deep it comes from, since an
`export * as` binds a word. So the entries found, which merging has left with different keys, have
different identities, and there are no duplicates to drop.

## What is proved

* `Entry.Formed.mergeKey_eq` — entries that are found and have one identity have one key.
* `Resolver.nodup_identities` — no identity is found twice.
* `Transformer.collect_removing` — so dropping duplicates changes neither the entries nor the events.
-/

namespace Reexport

open Resolving Resolver

/-- **Identities are finer than keys**, for entries that can be found. -/
theorem Entry.Formed.mergeKey_eq {files : Files} {x y : Entry} (hx : x.Formed files)
    (hy : y.Formed files) (h : x.identity = y.identity) : x.mergeKey = y.mergeKey := by
  simp only [identity, Identity.mk.injEq] at h
  obtain ⟨hname, hsource, hkind, htype⟩ := h
  -- The name of a bare `export *` is that of no `export * as`.
  have hstar {e e' : Entry} (he' : e'.Formed files) (hname : e.exportedName = e'.exportedName)
      (hkind : e.kind = e'.kind) (hbare : e.isBareStar = true) : e'.isBareStar = true := by
    by_contra hnot
    have hformed := he'.wellFormed (.inl (hkind ▸ (isBareStar_iff.1 hbare).1))
    apply hformed.exportedName_ne_star (by simpa using hnot)
    rw [← hname, exportedName_of_isBareStar hbare]
  have hbare : x.isBareStar = y.isBareStar :=
    Bool.eq_iff_iff.2 ⟨hstar hy hname hkind, hstar hx hname.symm hkind.symm⟩
  exact mergeKey_eq_iff.2 ⟨hname, hkind, htype, hbare, fun _ => hsource⟩

/-- **No identity is found twice** for a module, over any files. -/
theorem Resolver.nodup_identities (r : Resolver) {source path : String} {p q : Progress}
    {found : List Entry} (hp : p.context = {})
    (h : Yields (r.resolveSource source path) p found q) : (found.map Entry.identity).Nodup := by
  obtain ⟨news, hnews, rfl⟩ := resolveSource_replaced (carried_formed r) hp h
  have hformed := formed_of_merged hnews
  have hkeys := nodup_keys_merged news.flatten
  rw [List.nodup_iff_pairwise_ne, List.pairwise_map] at hkeys ⊢
  refine hkeys.imp_of_mem fun hx hy hne hidentity => hne ?_
  exact (hformed _ hx).mergeKey_eq (hformed _ hy) hidentity

namespace Transformer

open Transforming

/-- The transformer that drops duplicates or leaves them, and is the same else. -/
def removing (t : Transformer) (on : Bool) : Transformer :=
  { t with options := { t.options with removeDuplicates := on } }

/-- Where no identity is there twice, the stage for duplicates does nothing. -/
theorem removeDuplicates_of_nodup (t : Transformer) (path : String) {entries : List Entry}
    (h : (entries.map Entry.identity).Nodup) : t.removeDuplicates path entries = pure entries := by
  have hdistinct : distinct entries = entries := firsts_of_nodup h
  unfold removeDuplicates
  rw [hdistinct, if_neg (Nat.lt_irrefl _)]
  split
  · rfl
  · rfl

/-- **Dropping duplicates changes nothing** where barrels are followed. Let the entries of a barrel be
found without interruption, over any files, whatever its path and text and whatever the other stages.

No two of the entries have one identity. And they are collected with the same result and the same
events whether or not duplicates are to be dropped: they are left as they were found, or sorted if
that is asked for. -/
theorem collect_removing (t : Transformer) (hon : t.options.resolveBarrels = true)
    {source path : String} {found : List Entry} {log : List Event} {q : Progress}
    (h : Yields (t.resolver.resolveSource source path) ⟨{}, log⟩ found q) :
    (found.map Entry.identity).Nodup ∧ ∃ log', ∀ on : Bool,
      Yields ((t.removing on).collect source path) log
        (if t.options.sort then sorted found else found) log' := by
  have hnodup := t.resolver.nodup_identities rfl h
  refine ⟨hnodup, ?_⟩
  have hentries (on : Bool) : Yields ((t.removing on).entriesOf source path) log found q.log := by
    unfold entriesOf
    rw [if_pos (show (t.removing on).options.resolveBarrels = true from hon)]
    exact yields_resolving_iff.2 ⟨q, h, rfl⟩
  -- What comes after the entries are found, without the stages that do nothing.
  let after : Transforming (List Entry) := do
    report (.collected path found.length (found.countP (·.isTypeOnly)) (found.countP (·.isBareStar)))
    if found.isEmpty then return found
    t.sort path found
  have hafter : Reports after (if t.options.sort then sorted found else found) := by
    refine (reports_report _).bind ?_
    split
    · rename_i hempty
      rw [List.isEmpty_iff.1 hempty, (sorted_perm []).eq_nil, ite_self]
      exact reports_pure []
    · exact reports_sort t path found
  obtain ⟨log', hlog⟩ := hafter q.log
  refine ⟨log', fun on => yields_bind_iff.2 ⟨found, q.log, hentries on, ?_⟩⟩
  rw [nameStars_eq_pure (t := t.removing on) (.inr hon), pure_bind,
    removeDuplicates_of_nodup _ _ hnodup, pure_bind]
  exact hlog

/-- A barrel that is written three times, once for its types; a value and a type of one name in it. -/
def repeatedSource : String :=
  "export * from \"./a\";\nexport * from \"./a\";\nexport type * from \"./a\";\n" ++
    "export * as all from \"./a\";\n"

/-- The barrel, and the module behind it. -/
def repeatedFiles : MemoryFiles := .ofList
  [("/p/a.ts", "export { N } from \"./x\";\nexport type { N } from \"./y\";\nexport * from \"pkg\";\n"),
    ("/p/x.ts", "export const N = 1;\n")]

/-- A transformer for these modules that sorts entries. -/
def repeatedTransformer : Transformer :=
  ⟨repeatedFiles.files, { sort := true, resolveBarrels := true }, ["index.ts"]⟩

theorem collect_removing_repeated : repeatedTransformer.options.resolveBarrels = true ∧
    ∃ found q,
      Yields (repeatedTransformer.resolver.resolveSource repeatedSource "/p/index.ts") {} found q ∧
      found.map Entry.identity = [⟨"N", "./a", .named, false⟩, ⟨"N", "./a", .named, true⟩,
        ⟨"*", "./a", .star, false⟩, ⟨"*", "./a", .star, true⟩, ⟨"all", "./a", .star, false⟩] ∧
      (found.map Entry.identity).Nodup ∧ ∃ log', ∀ on : Bool,
        Yields ((repeatedTransformer.removing on).collect repeatedSource "/p/index.ts") []
          (sorted found) log' := by
  have hon : repeatedTransformer.options.resolveBarrels = true := rfl
  obtain ⟨found, q, h, hfound⟩ := exists_yields_of_map (p := {})
    (x := repeatedTransformer.resolver.resolveSource repeatedSource "/p/index.ts")
    (f := List.map Entry.identity)
    (b := [⟨"N", "./a", .named, false⟩, ⟨"N", "./a", .named, true⟩, ⟨"*", "./a", .star, false⟩,
      ⟨"*", "./a", .star, true⟩, ⟨"all", "./a", .star, false⟩])
    (by decide +kernel)
  exact ⟨hon, found, q, h, hfound, collect_removing repeatedTransformer hon h⟩

end Transformer

end Reexport
