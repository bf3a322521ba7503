import Reexport.Files.Memory
import Reexport.Proofs.Inlining
import Reexport.Proofs.Merging
import Reexport.Proofs.NormalPath
import Reexport.Proofs.Runs

/-!
# What takes the place of an entry

A run of the resolver replaces each entry of a module by a list of entries and merges these lists.
`Replaced` says what the list for one entry can be: the entry itself where its source leads nowhere,
what the entry makes of the list of a barrel, or what it makes of a module that is no barrel
(`leafResult`). The lists of barrels come from further down the run, or from the context; all that
`Replaced` says of them is that they have a property `Q`.

## What is proved

* `resolvePath_lists` — one call of the resolver: if the lists recorded so far have `Q`, and those
  that the calls below it give have it, then so do the lists recorded afterwards and the list that
  the call gives.
* `resolveWithin_lists` — hence every call, however deep. A property of lists is carried through the
  whole traversal, whatever cycles the modules form, by showing that it is `Carried`: merging lists
  that replace the entries of a module gives a list with the property.
-/

namespace Reexport

open Resolving

namespace Resolver

variable {r : Resolver} {descend : String → Resolving (List Entry)} {directory : String}
  {p q : Progress}

/-- The source of an entry leads, from a directory, to a module that can be read. -/
structure Leads (files : Files) (directory : String) (e : Entry) (target content : String) :
    Prop where
  located : locate files moduleExtensions e.source directory = some target
  read : files.read target = .ok content

/-- It leads to one module. -/
theorem Leads.unique {files : Files} {e : Entry} {target target' content content' : String}
    (h : Leads files directory e target content) (h' : Leads files directory e target' content') :
    target' = target ∧ content' = content := by
  obtain rfl := Option.some.inj (h.located.symm.trans h'.located)
  exact ⟨rfl, Except.ok.inj (h'.read.symm.trans h.read)⟩

theorem Leads.holds {files : Files} {e : Entry} {target content : String}
    (h : Leads files directory e target content) : files.holds target = true := by
  have hloc := h.located
  unfold locate at hloc
  split at hloc
  · exact List.find?_some hloc
  · cases hloc

/-! ### Steps that look at one module -/

/-- The text of a module, where it can be had. -/
def readResult (files : Files) (path : String) : Except Interruption (Option String) :=
  match files.read path with
  | .ok content => .ok (some content)
  | .error why =>
    match why.interruption? with
    | some interruption => .error interruption
    | none => .ok none

theorem readResult_eq_some_iff {files : Files} {path content : String} :
    readResult files path = .ok (some content) ↔ files.read path = .ok content := by
  unfold readResult
  split
  · rename_i c hread
    rw [hread, Except.ok.injEq, Except.ok.injEq, Option.some.injEq]
  · rename_i why hread
    rw [hread]
    split <;> simp

theorem read_ne_ok_of_readResult {files : Files} {path : String}
    (h : readResult files path = .ok none) (content : String) : files.read path ≠ .ok content := by
  intro hread
  rw [readResult_eq_some_iff.2 hread] at h
  cases h

theorem tells_readModule (r : Resolver) (path : String) :
    Tells (r.readModule path) (readResult r.files path) := by
  unfold readModule readResult
  cases r.files.read path with
  | ok content => exact tells_pure _
  | error why =>
    have reported : Tells (do report (.sourceUnreadable path why.reason); pure none)
        (.ok (none : Option String)) := (tells_report (by nofun)).bind fun _ _ => tells_pure _
    cases why with
    | absent | locked | refused _ => exact reported
    | tooLarge size limit => exact (tells_report (by nofun)).bind fun _ _ => reported
    | unnamable | broken _ => exact tells_throw_bind _ _

theorem quiet_readModule (r : Resolver) (path : String) :
    Quiet (r.readModule path) (readResult r.files path) :=
  (tells_readModule r path).quiet

theorem tells_scanModule (path content : String) :
    Tells (scanModule path content) ((scan path content).mapError .declared) :=
  ⟨[], nofun, fun p => by rw [List.append_nil]; rfl⟩

theorem quiet_scanModule (path content : String) :
    Quiet (scanModule path content) ((scan path content).mapError .declared) :=
  (tells_scanModule path content).quiet

theorem tells_typeNames (e : Entry) (target content : String) :
    Tells (typeNames e target content)
      ((scan target content).mapError .declared >>= fun s => .ok (e.typeNamesOf s)) := by
  refine (tells_scanModule target content).bind fun s _ => ?_
  by_cases hne : (e.typeNamesOf s).isEmpty = true
  · simp only [hne, if_true]
    exact tells_pure _
  · simp only [hne]
    exact (tells_report (by nofun)).bind fun _ _ => tells_pure _

/-- The types of a module in place of an `export *`, where the module is taken for one of types. -/
def typesResult (e : Entry) (target content : String) : Except Interruption (List Entry) :=
  if e.isBareStar && (moduleEntries content).isEmpty && isTypesModule e.source target then
    (scan target content).mapError .declared >>= fun s => .ok (e.typeNamesOf s)
  else .ok []

/-- The names of a module in place of an `export *`, where they are to be written out. -/
def namesResult (r : Resolver) (e : Entry) (target content : String) :
    Except Interruption (List Entry) :=
  if r.flatten && e.isBareStar then
    (scan target content).mapError .declared >>= fun s => .ok (e.namesOf s)
  else .ok []

/-- What takes the place of an entry whose source is no barrel. -/
def leafResult (r : Resolver) (e : Entry) (target content : String) :
    Except Interruption (List Entry) :=
  typesResult e target content >>= fun types =>
    if !types.isEmpty then .ok types
    else r.namesResult e target content >>= fun names => .ok (if names.isEmpty then [e] else names)

theorem tells_leafEntries (r : Resolver) (e : Entry) (target content : String) :
    Tells (r.leafEntries e target content) (r.leafResult e target content) := by
  have named (names : List Entry) : Tells (pure (if names.isEmpty then [e] else names))
      (.ok (if names.isEmpty then [e] else names)) := tells_pure _
  have typed (types : List Entry) : Tells
      (if !types.isEmpty then pure types
        else if r.flatten && e.isBareStar then do
          let s ← scanModule target content
          let names ← pure (e.namesOf s)
          pure (if names.isEmpty then [e] else names)
        else do
          let names ← pure []
          pure (if names.isEmpty then [e] else names))
      (if !types.isEmpty then .ok types
        else r.namesResult e target content >>= fun names =>
          .ok (if names.isEmpty then [e] else names)) := by
    split
    · exact tells_pure _
    · unfold namesResult
      split
      · rw [bind_assoc]
        exact (tells_scanModule target content).bind fun s _ => named _
      · exact named _
  unfold leafEntries leafResult typesResult
  by_cases hc : (e.isBareStar && (moduleEntries content).isEmpty &&
      isTypesModule e.source target) = true
  · simp only [if_pos hc]
    exact (tells_typeNames e target content).bind fun types _ => typed types
  · simp only [if_neg hc]
    exact typed []

theorem quiet_leafEntries (r : Resolver) (e : Entry) (target content : String) :
    Quiet (r.leafEntries e target content) (r.leafResult e target content) :=
  (tells_leafEntries r e target content).quiet

/-- An entry made of a name that a module declares, in the place of an `export *`. -/
def OfDeclared (e : Entry) (target content : String) (x : Entry) : Prop :=
  e.isBareStar = true ∧ ∃ s d t, scan target content = .ok s ∧ d ∈ s.exports ∧
    x = e.ofDeclared t d ∧ (t = false → e.isTypeOnly = false ∧ d.isTypeOnly = false)

theorem ofDeclared_of_mem_typesResult {e x : Entry} {target content : String} {types : List Entry}
    (h : typesResult e target content = .ok types) (hx : x ∈ types) :
    OfDeclared e target content x := by
  unfold typesResult at h
  split at h
  · rename_i hc
    obtain ⟨s, hscan, h⟩ := bind_eq_ok_iff.1 h
    obtain rfl := Except.ok.inj h
    obtain ⟨d, hd, rfl⟩ := Entry.mem_typeNamesOf hx
    simp only [Bool.and_eq_true] at hc
    exact ⟨hc.1.1, s, d, true, mapError_eq_ok_iff.1 hscan, hd, rfl, nofun⟩
  · cases h
    cases hx

theorem ofDeclared_of_mem_namesResult {e x : Entry} {target content : String} {names : List Entry}
    (h : r.namesResult e target content = .ok names) (hx : x ∈ names) :
    OfDeclared e target content x := by
  unfold namesResult at h
  split at h
  · rename_i hc
    obtain ⟨s, hscan, h⟩ := bind_eq_ok_iff.1 h
    obtain rfl := Except.ok.inj h
    obtain ⟨d, hd, rfl⟩ := Entry.mem_namesOf hx
    rw [Bool.and_eq_true] at hc
    exact ⟨hc.2, s, d, _, mapError_eq_ok_iff.1 hscan, hd, rfl, by simp⟩
  · cases h
    cases hx

/-- What takes the place of an entry whose source is no barrel are the types of the module, or its
names, or the entry alone where there are none. -/
theorem leafResult_eq_ok {e : Entry} {target content : String} {new : List Entry}
    (h : r.leafResult e target content = .ok new) :
    typesResult e target content = .ok new ∧ new ≠ [] ∨
      r.namesResult e target content = .ok new ∧ new ≠ [] ∨ new = [e] := by
  obtain ⟨types, htypes, h⟩ := bind_eq_ok_iff.1 h
  split at h
  · rename_i hne
    obtain rfl := Except.ok.inj h
    exact .inl ⟨htypes, by simpa using hne⟩
  · obtain ⟨names, hnames, h⟩ := bind_eq_ok_iff.1 h
    split at h
    · exact .inr (.inr (Except.ok.inj h).symm)
    · rename_i hne
      obtain rfl := Except.ok.inj h
      exact .inr (.inl ⟨hnames, by simpa using hne⟩)

/-- What takes the place of an entry whose source is no barrel is the entry alone, or names that the
module declares. -/
theorem leafResult_eq_or {e : Entry} {target content : String} {new : List Entry}
    (h : r.leafResult e target content = .ok new) :
    new = [e] ∨ ∀ x ∈ new, OfDeclared e target content x := by
  rcases leafResult_eq_ok h with ⟨htypes, -⟩ | ⟨hnames, -⟩ | hself
  · exact .inr fun x hx => ofDeclared_of_mem_typesResult htypes hx
  · exact .inr fun x hx => ofDeclared_of_mem_namesResult hnames hx
  · exact .inl hself

theorem mem_leafResult {e x : Entry} {target content : String} {new : List Entry}
    (h : r.leafResult e target content = .ok new) (hx : x ∈ new) :
    x = e ∨ OfDeclared e target content x := by
  rcases leafResult_eq_or h with rfl | hall
  · exact .inl (List.mem_singleton.1 hx)
  · exact .inr (hall x hx)

/-- An `export *` is left only where no names were found in its place. -/
theorem leafResult_of_mem_star {e x : Entry} {target content : String} {new : List Entry}
    (h : r.leafResult e target content = .ok new) (hx : x ∈ new) (hbare : x.isBareStar = true) :
    new = [e] := by
  rcases leafResult_eq_or h with rfl | hall
  · rfl
  · obtain ⟨-, s, d, t, -, -, rfl, -⟩ := hall x hx
    cases hbare

/-- A name of its own stays as it is before a module that is no barrel. -/
theorem leafResult_of_not_isBareStar {e : Entry} (hname : e.isBareStar = false)
    (target content : String) : r.leafResult e target content = .ok [e] := by
  unfold leafResult typesResult namesResult
  simp only [hname, Bool.false_and, Bool.and_false, Bool.false_eq_true, if_false, bind, Except.bind,
    List.isEmpty_nil, Bool.not_true, if_true]

/-- Something always takes the place of an entry. -/
theorem ne_nil_of_leafResult {e : Entry} {target content : String} {new : List Entry}
    (h : r.leafResult e target content = .ok new) : new ≠ [] := by
  rcases leafResult_eq_ok h with ⟨-, hne⟩ | ⟨-, hne⟩ | rfl
  · exact hne
  · exact hne
  · simp

/-! ### Entries and lists of entries -/

/-- What can take the place of an entry, where the lists of barrels have the property `Q`. -/
inductive Replaced (r : Resolver) (directory : String) (Q : String → List Entry → Prop)
    (e : Entry) : List Entry → Prop where
  /-- The source leads to no module that can be read: the entry stays. -/
  | astray (h : ∀ target content, ¬Leads r.files directory e target content) :
      Replaced r directory Q e [e]
  /-- The source leads to a barrel. -/
  | barrel {target content : String} {nested : List Entry}
      (lead : Leads r.files directory e target content)
      (hbarrel : isBarrel (moduleEntries content) = true) (hnested : Q target nested) :
      Replaced r directory Q e (e.inlined nested)
  /-- The source leads to another module. -/
  | leaf {target content : String} {new : List Entry}
      (lead : Leads r.files directory e target content)
      (hleaf : isBarrel (moduleEntries content) = false)
      (hnew : r.leafResult e target content = .ok new) : Replaced r directory Q e new

/-- Of the lists of barrels, only those behind the entry count. -/
theorem Replaced.imp {Q Q' : String → List Entry → Prop} {e : Entry} {new : List Entry}
    (h : Replaced r directory Q e new) (hQ : ∀ {target content nested},
      Leads r.files directory e target content → isBarrel (moduleEntries content) = true →
        Q target nested → Q' target nested) : Replaced r directory Q' e new := by
  cases h with
  | astray hnone => exact .astray hnone
  | barrel lead hbarrel hnested => exact .barrel lead hbarrel (hQ lead hbarrel hnested)
  | leaf lead hleaf hnew => exact .leaf lead hleaf hnew

/-- A name of its own stays one entry, whatever its source leads to, and at most becomes a type. -/
theorem Replaced.of_not_isBareStar {Q : String → List Entry → Prop} {e : Entry} {new : List Entry}
    (h : Replaced r directory Q e new) (hname : e.isBareStar = false) :
    ∃ t, new = [{ e with isTypeOnly := t }] ∧ (e.isTypeOnly = true → t = true) := by
  cases h with
  | astray => exact ⟨e.isTypeOnly, rfl, id⟩
  | barrel => exact Entry.inlined_of_not_isBareStar _ hname
  | leaf _ _ hnew =>
    rw [leafResult_of_not_isBareStar hname] at hnew
    exact ⟨e.isTypeOnly, (Except.ok.inj hnew).symm, id⟩

/-- What an entry has from the one whose place it takes. -/
structure Derived (e x : Entry) : Prop where
  source : x.source = e.source
  line : x.originLine = e.originLine
  /-- A type stays a type. -/
  type : e.isTypeOnly = true → x.isTypeOnly = true

theorem Derived.refl (e : Entry) : Derived e e := ⟨rfl, rfl, id⟩

theorem derived_of_mem_inlined {e x : Entry} {nested : List Entry} (hx : x ∈ e.inlined nested) :
    Derived e x := by
  rcases Entry.mem_inlined hx with rfl | ⟨-, n, -, hthrough⟩ | ⟨-, rfl⟩
  · exact .refl x
  · obtain ⟨hsource, hline, htype, -, -⟩ := Entry.through_eq_some hthrough
    exact ⟨hsource, hline, fun he => by rw [htype, he, Bool.or_true]⟩
  · exact ⟨rfl, rfl, fun _ => rfl⟩

theorem OfDeclared.derived {e x : Entry} {target content : String}
    (h : OfDeclared e target content x) : Derived e x := by
  obtain ⟨-, s, d, t, -, -, rfl, ht⟩ := h
  refine ⟨rfl, rfl, fun he => ?_⟩
  cases t with
  | true => rfl
  | false => exact absurd he (by simp [(ht rfl).1])

/-- What takes the place of an entry has its source and its line, and is a type if it is one. -/
theorem Replaced.derived {Q : String → List Entry → Prop} {e x : Entry} {new : List Entry}
    (h : Replaced r directory Q e new) (hx : x ∈ new) : Derived e x := by
  cases h with
  | astray =>
    rw [List.mem_singleton.1 hx]
    exact .refl e
  | barrel => exact derived_of_mem_inlined hx
  | leaf _ _ hnew =>
    rcases mem_leafResult hnew hx with rfl | hdeclared
    · exact .refl x
    · exact hdeclared.derived

/-- What takes the place of an entry has its source. -/
theorem Replaced.source_eq {Q : String → List Entry → Prop} {e x : Entry} {new : List Entry}
    (h : Replaced r directory Q e new) (hx : x ∈ new) : x.source = e.source :=
  (h.derived hx).source

/-- One list takes the place of an entry, where one list is found for each barrel. -/
theorem Replaced.unique {Q Q' : String → List Entry → Prop} {e : Entry} {new new' : List Entry}
    (h : Replaced r directory Q e new) (h' : Replaced r directory Q' e new')
    (hQ : ∀ target nested nested', Q target nested → Q' target nested' → nested' = nested) :
    new' = new := by
  cases h with
  | astray hnone =>
    cases h' with
    | astray => rfl
    | barrel lead => exact absurd lead (hnone _ _)
    | leaf lead => exact absurd lead (hnone _ _)
  | barrel lead hbarrel hnested =>
    cases h' with
    | astray hnone => exact absurd lead (hnone _ _)
    | barrel lead' _ hnested' =>
      obtain ⟨rfl, -⟩ := lead.unique lead'
      rw [hQ _ _ _ hnested hnested']
    | leaf lead' hleaf =>
      obtain ⟨-, rfl⟩ := lead.unique lead'
      rw [hbarrel] at hleaf
      cases hleaf
  | leaf lead hleaf hnew =>
    cases h' with
    | astray hnone => exact absurd lead (hnone _ _)
    | barrel lead' hbarrel =>
      obtain ⟨-, rfl⟩ := lead.unique lead'
      rw [hbarrel] at hleaf
      cases hleaf
    | leaf lead' _ hnew' =>
      obtain ⟨rfl, rfl⟩ := lead.unique lead'
      exact Except.ok.inj (hnew'.symm.trans hnew)

theorem Replaced.ne_nil {Q : String → List Entry → Prop} {e : Entry} {new : List Entry}
    (h : Replaced r directory Q e new) : new ≠ [] := by
  cases h with
  | astray => simp
  | barrel => exact Entry.inlined_ne_nil _ _
  | leaf _ _ hnew => exact ne_nil_of_leafResult hnew

/-- An entry of a merged list took the place of an entry. -/
theorem exists_of_mem_merged {R : Entry → List Entry → Prop} {entries : List Entry} {x : Entry}
    {news : List (List Entry)} (h : List.Forall₂ R entries news) (hx : x ∈ merged news.flatten) :
    ∃ e ∈ entries, ∃ new, R e new ∧ x ∈ new := by
  obtain ⟨new, hnew, hx⟩ := List.mem_flatten.1 (mem_of_mem_merged hx)
  obtain ⟨e, he, hR⟩ := exists_of_mem_right h hnew
  exact ⟨e, he, new, hR, hx⟩

/-- Where there are entries, a list is found. -/
theorem merged_ne_nil_of_replaced {Q : String → List Entry → Prop} {entries : List Entry}
    {news : List (List Entry)} (h : List.Forall₂ (Replaced r directory Q) entries news)
    (hne : entries ≠ []) : merged news.flatten ≠ [] := by
  obtain ⟨e, he⟩ := List.exists_mem_of_ne_nil _ hne
  obtain ⟨new, hnew, hrep⟩ := exists_of_mem_left h he
  obtain ⟨x, hx⟩ := List.exists_mem_of_ne_nil _ hrep.ne_nil
  obtain ⟨y, hy, -⟩ := exists_mem_merged_iff.2 ⟨x, List.mem_flatten.2 ⟨new, hnew, hx⟩, rfl⟩
  exact List.ne_nil_of_mem hy

theorem isRelative_of_locate {files : Files} {e : Entry} {target : String}
    (h : locate files moduleExtensions e.source directory = some target) : e.isRelative = true := by
  by_cases hrel : Entry.isRelativeSource e.source = true
  · exact hrel
  · rw [locate, if_neg hrel] at h
    cases h

/-- A module with an entry that leads somewhere is a barrel. -/
theorem isBarrel_of_leads {files : Files} {target content : String} {e : Entry}
    {entries : List Entry} (he : e ∈ entries) (lead : Leads files directory e target content) :
    isBarrel entries = true :=
  List.any_eq_true.2 ⟨e, he, isRelative_of_locate lead.located⟩

/-- What the resolver can do for one entry. -/
inductive EntryCall (r : Resolver) (descend : String → Resolving (List Entry)) (directory : String)
    (e : Entry) (p : Progress) : List Entry → Progress → Prop where
  /-- The source leads to no module that can be read. -/
  | astray {q : Progress} (h : ∀ target content, ¬Leads r.files directory e target content)
      (hq : q.context = p.context) : EntryCall r descend directory e p [e] q
  /-- The source leads to a barrel, whose entries are found by a call. -/
  | barrel {o q : Progress} {target content : String} {nested : List Entry}
      (lead : Leads r.files directory e target content)
      (hbarrel : isBarrel (moduleEntries content) = true) (ho : o.context = p.context)
      (hnested : Yields (descend target) o nested q) :
      EntryCall r descend directory e p (e.inlined nested) q
  /-- The source leads to another module. -/
  | leaf {q : Progress} {target content : String} {new : List Entry}
      (lead : Leads r.files directory e target content)
      (hleaf : isBarrel (moduleEntries content) = false)
      (hnew : r.leafResult e target content = .ok new) (hq : q.context = p.context) :
      EntryCall r descend directory e p new q

theorem resolveEntry_call {e : Entry} {new : List Entry}
    (h : Yields (r.resolveEntry descend directory e) p new q) :
    EntryCall r descend directory e p new q := by
  unfold resolveEntry at h
  split at h
  · rename_i hrel
    obtain ⟨rfl, rfl⟩ := yields_pure_iff.1 h
    refine .astray (fun target content lead => ?_) rfl
    simp [isRelative_of_locate lead.located] at hrel
  split at h
  · rename_i hloc
    obtain ⟨_, o, ho, h⟩ := yields_bind_iff.1 h
    obtain ⟨rfl, rfl⟩ := yields_pure_iff.1 h
    refine .astray (fun target content lead => ?_) (by rw [yields_report_iff.1 ho])
    simp [lead.located] at hloc
  rename_i target hloc
  obtain ⟨out, o, hread, h⟩ := yields_bind_iff.1 h
  obtain ⟨hout, ho⟩ := (quiet_readModule r target).yields hread
  split at h
  · obtain ⟨rfl, rfl⟩ := yields_pure_iff.1 h
    refine .astray (fun target' content lead => ?_) ho
    obtain rfl : target = target' := by simpa [hloc] using lead.located
    simp [readResult_eq_some_iff.2 lead.read] at hout
  rename_i content
  have lead : Leads r.files directory e target content := ⟨hloc, readResult_eq_some_iff.1 hout⟩
  split at h
  · rename_i hbarrel
    obtain ⟨nested, o', hnested, h⟩ := yields_bind_iff.1 h
    obtain ⟨rfl, rfl⟩ := yields_pure_iff.1 h
    exact .barrel lead hbarrel ho hnested
  · rename_i hleaf
    obtain ⟨hnew, hq⟩ := (quiet_leafEntries r e target content).yields h
    exact .leaf lead (by simpa using hleaf) hnew (hq.trans ho)

/-- One step of the traversal. -/
theorem resolveEntry_replaced (Inv : Context → Prop) {Q : String → List Entry → Prop}
    (hdescend : ∀ {target p nested q}, Inv p.context → Yields (descend target) p nested q →
      Inv q.context ∧ Q target nested)
    {e : Entry} {new : List Entry} (hp : Inv p.context)
    (h : Yields (r.resolveEntry descend directory e) p new q) :
    Inv q.context ∧ Replaced r directory Q e new := by
  cases resolveEntry_call h with
  | astray hnone hq => exact ⟨hq ▸ hp, .astray hnone⟩
  | barrel lead hbarrel ho hnested =>
    rw [← ho] at hp
    obtain ⟨hq, hQ⟩ := hdescend hp hnested
    exact ⟨hq, .barrel lead hbarrel hQ⟩
  | leaf lead hleaf hnew hq => exact ⟨hq ▸ hp, .leaf lead hleaf hnew⟩

/-- A run over entries merges what takes their place. -/
theorem yields_resolveAll_iff {entries found out : List Entry} :
    Yields (r.resolveAll descend directory found entries) p out q ↔
      ∃ news, Yields (entries.mapM (r.resolveEntry descend directory)) p news q ∧
        out = news.flatten.foldl mergeEntry found := by
  induction entries generalizing p found with
  | nil =>
    rw [resolveAll, List.mapM_nil, yields_pure_iff]
    constructor
    · rintro ⟨rfl, rfl⟩
      exact ⟨[], yields_pure_iff.2 ⟨rfl, rfl⟩, rfl⟩
    · rintro ⟨news, h, rfl⟩
      obtain ⟨rfl, rfl⟩ := yields_pure_iff.1 h
      exact ⟨rfl, rfl⟩
  | cons e entries ih =>
    rw [resolveAll, List.mapM_cons, yields_bind_iff]
    simp only [yields_bind_iff, yields_pure_iff, ih]
    constructor
    · rintro ⟨new, o, hnew, news, hnews, rfl⟩
      exact ⟨new :: news, ⟨new, o, hnew, news, q, hnews, rfl, rfl⟩, by simp⟩
    · rintro ⟨_, ⟨new, o, hnew, news, _, hnews, rfl, rfl⟩, rfl⟩
      exact ⟨new, o, hnew, news, hnews, by simp⟩

/-- A run over the entries of a module. -/
theorem resolveContent_yields {path content : String} {found : List Entry}
    (h : Yields (r.resolveContent descend path content) p found q) :
    ∃ news o, Yields ((moduleEntries content).mapM
      (r.resolveEntry descend (Path.directory path))) p news o ∧ found = merged news.flatten ∧
      q.context = o.context := by
  obtain ⟨out, o, hall, h⟩ := yields_bind_iff.1 h
  obtain ⟨_, o', hreport, h⟩ := yields_bind_iff.1 h
  obtain ⟨rfl, rfl⟩ := yields_pure_iff.1 h
  obtain ⟨news, hnews, rfl⟩ := yields_resolveAll_iff.1 hall
  exact ⟨news, o, hnews, rfl, by rw [yields_report_iff.1 hreport]⟩

/-! ### Modules -/

/-- What a call of the resolver for the module at a normal path can do. -/
inductive Call (r : Resolver) (descend : String → Resolving (List Entry)) (path : String)
    (p : Progress) : List Entry → Progress → Prop where
  /-- The module is finished. -/
  | recorded {found : List Entry} (h : p.context.recorded? path = some found) :
      Call r descend path p found p
  /-- The module is still being resolved, or it could not be read before. -/
  | cycle {q : Progress} (hnew : p.context.recorded? path = none)
      (hvisited : path ∈ p.context.visited) (hq : q.context = p.context) : Call r descend path p [] q
  /-- The module cannot be read. -/
  | unreadable {q : Progress} (hnew : p.context.recorded? path = none)
      (hvisited : path ∉ p.context.visited) (hread : readResult r.files path = .ok none)
      (hq : q.context = p.context.visit path) : Call r descend path p [] q
  /-- The module is resolved. -/
  | resolved {o o' q : Progress} {content : String} {news : List (List Entry)}
      (hnew : p.context.recorded? path = none) (hvisited : path ∉ p.context.visited)
      (hread : r.files.read path = .ok content) (ho : o.context = p.context.visit path)
      (hnews : Yields ((moduleEntries content).mapM
        (r.resolveEntry descend (Path.directory path))) o news o')
      (hq : q.context = o'.context.record path (merged news.flatten)) :
      Call r descend path p (merged news.flatten) q

theorem resolvePath_call {path : String} {found : List Entry}
    (h : Yields (r.resolvePath descend path) p found q) :
    Call r descend (Path.normalize path) p found q := by
  obtain ⟨known, o, ho, h⟩ := yields_bind_iff.1 h
  obtain ⟨rfl, rfl⟩ := yields_context_iff.1 ho
  split at h
  · rename_i entries hrec
    obtain ⟨rfl, rfl⟩ := yields_pure_iff.1 h
    exact .recorded hrec
  rename_i hrec
  split at h
  · rename_i hvisited
    obtain ⟨_, o', ho', h⟩ := yields_bind_iff.1 h
    obtain ⟨rfl, rfl⟩ := yields_pure_iff.1 h
    exact .cycle hrec hvisited (by rw [yields_report_iff.1 ho'])
  rename_i hvisited
  obtain ⟨_, o₁, ho₁, h⟩ := yields_bind_iff.1 h
  rw [yields_updateContext_iff] at ho₁
  obtain ⟨out, o₂, hread, h⟩ := yields_bind_iff.1 h
  obtain ⟨hout, ho₂⟩ := (quiet_readModule r _).yields hread
  rw [ho₁] at ho₂
  split at h
  · obtain ⟨rfl, rfl⟩ := yields_pure_iff.1 h
    exact .unreadable hrec hvisited hout ho₂
  · obtain ⟨entries, o₃, hcontent, h⟩ := yields_bind_iff.1 h
    obtain ⟨_, o₄, ho₄, h⟩ := yields_bind_iff.1 h
    obtain ⟨rfl, rfl⟩ := yields_pure_iff.1 h
    rw [yields_updateContext_iff] at ho₄
    obtain ⟨news, o₅, hnews, rfl, ho₅⟩ := resolveContent_yields hcontent
    exact .resolved hrec hvisited (readResult_eq_some_iff.1 hout) ho₂ hnews
      (by rw [ho₄, ho₅])

/-- A call of a depth is one that may go down to the depth below. -/
theorem resolveWithin_call {depth : Nat} {path : String} {found : List Entry}
    (h : Yields (r.resolveWithin (depth + 1) path) p found q) :
    Call r (r.resolveWithin depth) (Path.normalize path) p found q :=
  resolvePath_call h

/-- All lists recorded in a context have a property. -/
def Records (Q : String → List Entry → Prop) (c : Context) : Prop :=
  ∀ known ∈ c.resolved, Q known.1 known.2

theorem records_empty (Q : String → List Entry → Prop) : Records Q {} := nofun

theorem Records.recorded? {Q : String → List Entry → Prop} {c : Context} (h : Records Q c)
    {path : String} {found : List Entry} (hrec : c.recorded? path = some found) : Q path found := by
  obtain ⟨before, after, heq, -⟩ := List.lookup_eq_some_iff.1 hrec
  exact h (path, found) (by simp [heq])

theorem Records.visit {Q : String → List Entry → Prop} {c : Context} (h : Records Q c)
    (path : String) : Records Q (c.visit path) := by
  unfold Context.visit
  split <;> exact h

theorem Records.record {Q : String → List Entry → Prop} {c : Context} (h : Records Q c)
    {path : String} {found : List Entry} (hfound : Q path found) :
    Records Q (c.record path found) := by
  intro known hk
  unfold Context.record at hk
  split at hk
  · obtain ⟨old, hold, heq⟩ := List.mem_map.1 hk
    split at heq
    · rw [← heq]
      exact hfound
    · rw [← heq]
      exact h old hold
  · rcases List.mem_append.1 hk with hk | hk
    · exact h known hk
    · rw [List.mem_singleton.1 hk]
      exact hfound

/-- A property of lists that the traversal carries from module to module. -/
structure Carried (r : Resolver) (Q : String → List Entry → Prop) : Prop where
  /-- A module that gives nothing has it. -/
  nil (path : String) : Q path []
  /-- A path has what its normal spelling has. -/
  spelled {path : String} {found : List Entry} : Q (Path.normalize path) found → Q path found
  /-- A module has it if the lists of the barrels that its entries lead to have it. -/
  merged {path content : String} {news : List (List Entry)} (hpath : Path.normalize path = path)
    (hread : r.files.read path = .ok content)
    (hnews : List.Forall₂ (Replaced r (Path.directory path) Q) (moduleEntries content) news) :
    Q path (merged news.flatten)

variable {Q : String → List Entry → Prop}

/-- One call of the resolver carries a property if the calls below it do. -/
theorem resolvePath_lists (hQ : Carried r Q)
    (hdescend : ∀ {target p nested q}, Records Q p.context →
      Yields (descend target) p nested q → Records Q q.context ∧ Q target nested)
    {path : String} {found : List Entry} (hp : Records Q p.context)
    (h : Yields (r.resolvePath descend path) p found q) : Records Q q.context ∧ Q path found := by
  cases resolvePath_call h with
  | recorded hrec => exact ⟨hp, hQ.spelled (hp.recorded? hrec)⟩
  | cycle _ _ hq => exact ⟨by rwa [hq], hQ.nil path⟩
  | unreadable _ _ _ hq => exact ⟨by rw [hq]; exact hp.visit _, hQ.nil path⟩
  | resolved _ _ hread ho hnews hq =>
    obtain ⟨ho', hall⟩ := yields_mapM (fun p => Records Q p.context)
      (fun e _ _ _ _ hp h => resolveEntry_replaced (Records Q) hdescend hp h)
      (by rw [ho]; exact hp.visit _) hnews
    have hfound := hQ.merged (Path.normalize_normalize path) hread hall
    exact ⟨by rw [hq]; exact ho'.record hfound, hQ.spelled hfound⟩

/-- **What is carried holds of every run**: from a context whose lists have the property, a run of
any depth gives a list that has it, and records none that has it not. -/
theorem resolveWithin_lists (hQ : Carried r Q) (depth : Nat) {path : String} {found : List Entry}
    (hp : Records Q p.context) (h : Yields (r.resolveWithin depth path) p found q) :
    Records Q q.context ∧ Q path found := by
  induction depth generalizing path found p q with
  | zero =>
    obtain ⟨rfl, rfl⟩ := yields_pure_iff.1 h
    exact ⟨hp, hQ.nil path⟩
  | succ depth ih => exact resolvePath_lists hQ ih hp h

/-- The list found from scratch for a module that can be read: its entries are replaced, and the
lists in their place are merged. -/
theorem resolveFile_replaced (hQ : Carried r Q) {root : String} {found : List Entry}
    (h : Yields (r.resolveFile root) {} found q) :
    (∀ content, r.files.read (Path.normalize root) ≠ .ok content) ∧ found = [] ∨
      ∃ content news, r.files.read (Path.normalize root) = .ok content ∧
        List.Forall₂ (Replaced r (Path.directory (Path.normalize root)) Q) (moduleEntries content)
          news ∧ found = merged news.flatten := by
  cases resolvePath_call h with
  | recorded hrec => cases hrec
  | cycle _ hvisited => exact absurd hvisited List.not_mem_nil
  | unreadable _ _ hread =>
    exact .inl ⟨read_ne_ok_of_readResult hread, rfl⟩
  | resolved _ _ hread ho hnews =>
    obtain ⟨-, hall⟩ := yields_mapM (fun p => Records Q p.context)
      (fun e _ _ _ _ hp h => resolveEntry_replaced (Records Q)
        (resolveWithin_lists hQ _) hp h)
      (by rw [ho]; exact (records_empty Q).visit _) hnews
    exact .inr ⟨_, _, hread, hall, rfl⟩

/-- The list found from scratch for a module whose text is at hand. -/
theorem resolveSource_replaced (hQ : Carried r Q) {content path : String} {found : List Entry}
    (hp : p.context = {}) (h : Yields (r.resolveSource content path) p found q) :
    ∃ news, List.Forall₂ (Replaced r (Path.directory (Path.normalize path)) Q)
      (moduleEntries content) news ∧ found = merged news.flatten := by
  obtain ⟨_, o, ho, h⟩ := yields_bind_iff.1 h
  rw [yields_updateContext_iff, hp] at ho
  obtain ⟨news, o', hnews, rfl, -⟩ := resolveContent_yields h
  obtain ⟨-, hall⟩ := yields_mapM (fun p => Records Q p.context)
    (fun e _ _ _ _ hp h => resolveEntry_replaced (Records Q) (resolveWithin_lists hQ _) hp h)
    (by rw [ho]; exact (records_empty Q).visit _) hnews
  exact ⟨news, hall, rfl⟩

end Resolver

end Reexport
