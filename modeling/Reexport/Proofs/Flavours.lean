import Reexport.Proofs.Exports
import Reexport.Proofs.ModuleTexts

/-!
# Types and values of one name

A module may export one name more than once: an interface and a constant of one name, a type alias and
a function, the signatures of an overloaded function, a declaration and an item of a list. The name is a
type only if all of these are types. What a module offers follows from the statements that it is made
of (`isText`), however they are read.

A scan lists every name once, with what it sees first (`Script.Records`, kept by each name that is
added). So it is right about every name except the ones that come first as a type and later as a value
(`Demoted`): these are listed as types, and the value is lost.

## What is proved

* `Script.records_of_scan` — a scan lists the first that is seen of each name.
* `scan_flavour_iff` — hence the names of a module, each once, and which of them are listed rightly.
* `scan_demotes` — an interface in front of a constant.

## Modules of which nothing is said

A scan misses some names, or sees other ones, for reasons that have nothing to do with flavours. So
the statements of a module have to be plain. A statement is plain unless one of these stands in it:

* a line break behind the word `export`,
* a namespace with a path for its name, as in `namespace A.B`,
* a namespace passed on by `export type * as`,
* an alias for an import, as in `export import A = B.C`,
* the name `undefined` for a whole target inside of a pattern,
* an escape in a name, or a name in quotes that is empty or has quotes at its ends.
-/

namespace Reexport

namespace Script

/-! ### What a scan lists -/

/-- A scan lists the first of each of these names, other than the default export. -/
structure Records (s : DeclarationScan) (names : List (String × Bool)) : Prop where
  /-- What is listed comes first. -/
  first : ∀ d ∈ s.exports, names.find? (·.1 = d.name) = some (d.name, d.isTypeOnly)
  /-- Nothing is left out. -/
  listed : ∀ n ∈ names, n.1 ≠ defaultSpecifier → n.1 ∈ s.exports.map Declared.name

variable {s before after : DeclarationScan} {names : List (String × Bool)} {line : Nat}

theorem make?_eq_ok {name : String} {isTypeOnly : Bool} {form : Form} {line : Int} {d : Declared}
    (h : Declared.make? name isTypeOnly form line = .ok d) :
    d.name = name ∧ d.isTypeOnly = isTypeOnly := by
  unfold Declared.make? at h
  split at h
  · cases h
  · cases h
    exact ⟨rfl, rfl⟩

/-- A name that is not listed has not come before. -/
theorem Records.find?_eq_none {name : String} (h : Records s names)
    (hne : name ≠ defaultSpecifier) (hnew : name ∉ s.exports.map Declared.name) :
    names.find? (·.1 = name) = none := by
  rw [List.find?_eq_none]
  intro n hn heq
  obtain rfl : n.1 = name := by simpa using heq
  exact hnew (h.listed n hn hne)

/-- What is listed still comes first when more names follow. -/
theorem Records.find?_append (h : Records s names) (more : List (String × Bool)) {d : Declared}
    (hd : d ∈ s.exports) :
    (names ++ more).find? (·.1 = d.name) = some (d.name, d.isTypeOnly) := by
  rw [List.find?_append, h.first d hd]
  rfl

/-- The default export and names that are listed already change nothing. -/
theorem Records.pass (h : Records s names) {n : String × Bool}
    (hn : n.1 = defaultSpecifier ∨ n.1 ∈ s.exports.map Declared.name) :
    Records s (names ++ [n]) := by
  refine ⟨fun d hd => h.find?_append _ hd, fun n' hn' hne => ?_⟩
  rcases List.mem_append.1 hn' with hn' | hn'
  · exact h.listed n' hn' hne
  · rw [List.mem_singleton.1 hn'] at hne ⊢
    exact hn.resolve_left hne

/-- A new name is listed with its flavour. -/
theorem Records.add (h : Records s names) {d : Declared} (hne : d.name ≠ defaultSpecifier)
    (hnew : d.name ∉ s.exports.map Declared.name) :
    Records { s with exports := s.exports ++ [d] } (names ++ [(d.name, d.isTypeOnly)]) := by
  refine ⟨fun d' hd' => ?_, fun n hn hne' => ?_⟩
  · rcases List.mem_append.1 hd' with hd' | hd'
    · exact h.find?_append _ hd'
    · rw [List.mem_singleton.1 hd', List.find?_append, h.find?_eq_none hne hnew]
      simp
  · rw [List.map_append, List.mem_append]
    rcases List.mem_append.1 hn with hn | hn
    · exact .inl (h.listed n hn hne')
    · rw [List.mem_singleton.1 hn]
      exact .inr (by simp)

theorem Records.addFound {found : List Found} (hbefore : Records before names)
    (h : addFound line found before = .ok after) :
    Records after (names ++ found.map Found.flavoured) := by
  induction found generalizing before names with
  | nil =>
    cases h
    rwa [List.map_nil, List.append_nil]
  | cons f fs ih =>
    obtain ⟨d, hmake, hrest⟩ := bind_eq_ok_iff.1 h
    obtain ⟨hname, htype⟩ := make?_eq_ok hmake
    have hflavoured : f.flavoured = (d.name, d.isTypeOnly) := by
      rw [Found.flavoured, hname, htype]
    have hknown : (d.name == "default" || before.exports.any (·.name == d.name)) = true ↔
        d.name = defaultSpecifier ∨ d.name ∈ before.exports.map Declared.name := by
      simp [defaultSpecifier]
    rw [List.map_cons, ← List.singleton_append, ← List.append_assoc, hflavoured]
    apply ih _ hrest
    split
    · rename_i hpassed
      exact hbefore.pass (hknown.1 hpassed)
    · rename_i hadded
      rw [hknown, not_or] at hadded
      exact hbefore.add hadded.1 hadded.2

/-- Statement by statement, what is seen is listed. -/
theorem Records.foldlM {statements : List (Nat × Exported)} (hbefore : Records before names)
    (h : statements.foldlM addStatement before = .ok after) :
    Records after
      (names ++ (statements.map Prod.snd).flatMap Exported.flavoured) := by
  induction statements generalizing before names with
  | nil =>
    cases h
    simpa using hbefore
  | cons statement statements ih =>
    rw [List.foldlM_cons] at h
    obtain ⟨next, hadd, hrest⟩ := bind_eq_ok_iff.1 h
    rw [List.map_cons, List.flatMap_cons, ← List.append_assoc]
    apply ih _ hrest
    obtain ⟨line, star | found⟩ := statement
    · cases hadd
      simpa [Exported.flavoured] using ⟨hbefore.first, hbefore.listed⟩
    · exact hbefore.addFound hadd

end Script

open Script

variable {path source : String} {ms : List TopStatement} {s : DeclarationScan}

/-- A scan lists the first that is seen of each name. -/
theorem Script.records_of_scan (h : scan path source = .ok s) : Records s (namesSeen path source) := by
  have hempty : Records {} [] := ⟨nofun, nofun⟩
  have hrecords := hempty.foldlM h
  rwa [List.nil_append] at hrecords

/-! ### Values that are taken for types -/

/-- The names that statements export, in their order. -/
def offersOf (ms : List TopStatement) : List Offer :=
  ms.flatMap TopStatement.offers

/-- The name is offered as a type first, and later as a value. -/
def Demoted (offers : List Offer) (name : String) : Prop :=
  ∃ o, offers.find? (·.name = name) = some o ∧ o.isType = true ∧
    ∃ o' ∈ offers, o'.name = name ∧ o'.isType = false

variable {os : List Offer} {o : Offer} {name : String}

/-- The first offer of a name tells the flavour that the name has, unless values are lost. -/
theorem isType_first_iff (h : os.find? (·.name = name) = some o) :
    (o.isType = true ↔ ∀ o' ∈ os, o'.name = name → o'.isType = true) ↔ ¬Demoted os name := by
  have hname : o.name = name := by simpa using List.find?_some h
  constructor
  · rintro hall ⟨o₁, hfirst, htype, o', ho', hname', hvalue⟩
    obtain rfl : o = o₁ := Option.some.inj (h.symm.trans hfirst)
    rw [hall.1 htype o' ho' hname'] at hvalue
    cases hvalue
  · intro hkept
    refine ⟨fun htype o' ho' hname' => ?_, fun hall => hall o (List.mem_of_find?_eq_some h) hname⟩
    by_contra hvalue
    exact hkept ⟨o, h, htype, o', ho', hname', by simpa using hvalue⟩

/-- A listed name has the flavour of its first offer. -/
theorem exists_first_offer (h : Records s (os.map Offer.flavoured)) {d : Declared}
    (hd : d ∈ s.exports) : ∃ o, os.find? (·.name = d.name) = some o ∧ o.isType = d.isTypeOnly := by
  have hfind := h.first d hd
  rw [List.find?_map] at hfind
  obtain ⟨o, ho, hflavour⟩ := Option.map_eq_some_iff.1 hfind
  exact ⟨o, ho, congrArg Prod.snd hflavour⟩

/-- A name that is offered is listed. -/
theorem mem_names_of_offer (h : Records s (os.map Offer.flavoured)) (ho : o ∈ os)
    (hne : o.name ≠ defaultSpecifier) : o.name ∈ s.exports.map Declared.name :=
  h.listed o.flavoured (List.mem_map_of_mem ho) hne

/-- Plain statements can be scanned. -/
theorem exists_scan_of_isPlain (htext : isText ms path source = true)
    (hplain : ∀ m ∈ ms, m.isPlain = true) : ∃ s, scan path source = .ok s := by
  rw [exists_scan_iff,
    exportsEmptyName_iff htext fun m hm => m.breaks_of_isPlain (hplain m hm)]
  rintro ⟨m, hm, i, hi, hblank⟩
  rw [m.not_isBlank_of_isPlain (hplain m hm) i hi] at hblank
  cases hblank

/-- **The flavour of names**: a module that is made of plain statements can be scanned. The scan lists
each name once that the statements offer, other than the default export. It lists a name as a type
exactly if all of its offers are types, unless the name is offered as a type first and later as a
value. -/
theorem scan_flavour_iff (htext : isText ms path source = true)
    (hplain : ∀ m ∈ ms, m.isPlain = true) :
    ∃ s, scan path source = .ok s ∧ (s.exports.map Declared.name).Nodup ∧
      (∀ name, name ∈ s.exports.map Declared.name ↔
        name ≠ defaultSpecifier ∧ ∃ o ∈ offersOf ms, o.name = name) ∧
      ∀ d ∈ s.exports,
        (d.isTypeOnly = true ↔ ∀ o ∈ offersOf ms, o.name = d.name → o.isType = true) ↔
        ¬Demoted (offersOf ms) d.name := by
  obtain ⟨s, hscan⟩ := exists_scan_of_isPlain htext hplain
  have hrecords := records_of_scan hscan
  rw [namesSeen_of_isPlain htext hplain, ← offersOf] at hrecords
  refine ⟨s, hscan, nodup_names_of_scan hscan, fun name => ?_, fun d hd => ?_⟩
  · constructor
    · intro hname
      obtain ⟨d, hd, rfl⟩ := List.mem_map.1 hname
      obtain ⟨o, hfind, -⟩ := exists_first_offer hrecords hd
      refine ⟨name_ne_default_of_scan hscan d hd, o, List.mem_of_find?_eq_some hfind, ?_⟩
      simpa using List.find?_some hfind
    · rintro ⟨hne, o, ho, rfl⟩
      exact mem_names_of_offer hrecords ho hne
  · obtain ⟨o, hfind, htype⟩ := exists_first_offer hrecords hd
    rw [← htype]
    exact isType_first_iff hfind

/-- A constant in front of an interface of the same name, and a type that is passed on. -/
def valueFirst : String :=
  "export const X = 1;\nexport interface X \x7b\x7d\nexport type \x7b T \x7d from \"t\";\n"

/-- The statements of which it is made. -/
def valueFirstStatements : List TopStatement :=
  [.exporting 0 0 false (.declaration (.bindings [.name "X"])),
    .exporting 0 0 false (.declaration (.named .interface "X")),
    .exporting 0 0 false (.list true [⟨false, .word "T", none⟩])]

/-- The value comes first, so that no flavour is lost. -/
theorem scan_flavour_iff_valueFirst :
    isText valueFirstStatements "/p/x.ts" valueFirst = true ∧
    (∀ m ∈ valueFirstStatements, m.isPlain = true) ∧
    offersOf valueFirstStatements = [⟨"X", false⟩, ⟨"X", true⟩, ⟨"T", true⟩] ∧
    ∃ s, scan "/p/x.ts" valueFirst = .ok s ∧
      (∀ name, name ∈ s.exports.map Declared.name ↔ name ≠ defaultSpecifier ∧
        ∃ o ∈ offersOf valueFirstStatements, o.name = name) ∧
      ∀ d ∈ s.exports, d.isTypeOnly = true ↔
        ∀ o ∈ offersOf valueFirstStatements, o.name = d.name → o.isType = true := by
  have htext : isText valueFirstStatements "/p/x.ts" valueFirst = true := by decide +kernel
  have hplain : ∀ m ∈ valueFirstStatements, m.isPlain = true := by decide +kernel
  have hoffers : offersOf valueFirstStatements = [⟨"X", false⟩, ⟨"X", true⟩, ⟨"T", true⟩] := by
    decide +kernel
  have hkept (name : String) : ¬Demoted (offersOf valueFirstStatements) name := by
    rw [hoffers]
    rintro ⟨o, hfirst, htype, o', ho', rfl, hvalue⟩
    -- The only value is the constant, and it comes first.
    obtain rfl : o' = ⟨"X", false⟩ := by
      revert hvalue
      simp only [List.mem_cons, List.not_mem_nil, or_false] at ho'
      rcases ho' with rfl | rfl | rfl <;> decide
    rw [List.find?_cons_of_pos (by decide), Option.some.injEq] at hfirst
    rw [← hfirst] at htype
    cases htype
  obtain ⟨s, hscan, -, hnames, hflavour⟩ := scan_flavour_iff htext hplain
  exact ⟨htext, hplain, hoffers, s, hscan, hnames, fun d hd => (hflavour d hd).2 (hkept d.name)⟩

/-- An interface in front of a constant of the same name. -/
def typeFirst : String :=
  "export interface X \x7b\x7d\nexport const X = 1;\n"

/-- The statements of which it is made. -/
def typeFirstStatements : List TopStatement :=
  [.exporting 0 0 false (.declaration (.named .interface "X")),
    .exporting 0 0 false (.declaration (.bindings [.name "X"]))]

/-- **A value is taken for a type**: the name is listed as a type, although a constant has it. -/
theorem scan_demotes :
    isText typeFirstStatements "/p/x.ts" typeFirst = true ∧
    (∀ m ∈ typeFirstStatements, m.isPlain = true) ∧
    offersOf typeFirstStatements = [⟨"X", true⟩, ⟨"X", false⟩] ∧
    Demoted (offersOf typeFirstStatements) "X" ∧
    (∃ s, scan "/p/x.ts" typeFirst = .ok s ∧
      s.exports.map (fun d => (d.name, d.isTypeOnly)) = [("X", true)]) ∧
    ¬∀ o ∈ offersOf typeFirstStatements, o.name = "X" → o.isType = true := by
  have hoffers : offersOf typeFirstStatements = [⟨"X", true⟩, ⟨"X", false⟩] := by decide +kernel
  refine ⟨by decide +kernel, by decide +kernel, hoffers, ?_,
    ⟨⟨[⟨"X", true, .interface, 1, by decide⟩], false⟩, by decide +kernel, rfl⟩, ?_⟩
  · rw [hoffers]
    exact ⟨⟨"X", true⟩, by decide, rfl, ⟨"X", false⟩, by decide, rfl, rfl⟩
  · rw [hoffers]
    decide

end Reexport
