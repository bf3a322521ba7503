import Mathlib.Data.List.Basic
import Reexport.Proofs.ExportedVariables
import Reexport.Statement.Reader

/-!
# Export statements as they are written

What stands behind the word `export` is a declaration, a list of names, a star, or one of the forms
that export the default or no name at all. `ExportForm` is its tree, and `ExportForm.past?` tells
whether a form is what is written at a cursor, as `Binding.past?` does for a pattern. Only the part
in which names stand is written out in the tree: the head of a function and not its body, the list
and not the module behind `from`.

A form offers names (`ExportForm.offers`), each as a type or as a value. These follow from the tree
alone. A scan sees names in the text (`ExportForm.seen`), which are not always the same:

* the word `type` in front of `* as` is passed over,
* of a namespace `A.B` the whole path is seen,
* an alias for an import is not seen,
* a whole target `undefined` in a pattern is not seen,
* escapes stay in names as they are written, and all quotes at the two ends of a name are dropped.

A form in which none of this matters is plain.

## What is proved

* `map_flavoured_listNames` — a list is read item by item.
* `Declaration.flavoured_exported` — a declaration is read with its names.
* `ExportForm.flavoured_exported` — so a scan sees of every form what `seen` says, wherever the form
  is written.
-/

namespace Reexport.Script

open Cursor

/-! ### Names -/

/-- A name in an export list or behind a star. -/
inductive ExportName where
  /-- A word, which may be a keyword. -/
  | word (text : String)
  /-- A text between two quotes. -/
  | quoted (quote : Char) (text : String)

namespace ExportName

/-- The name itself. -/
def text : ExportName → String
  | word text => text
  | quoted _ text => text

/-- The name with its quotes. -/
def written : ExportName → String
  | word text => text
  | quoted quote text => String.ofList (quote :: (text.toList ++ [quote]))

/-- Past the name, if it is what is written at the cursor. -/
def past? : ExportName → Cursor → Option Cursor
  | word text, c => if text = "" then none else c.word? text
  | quoted quote text, c =>
    c.string?.filter fun d => c.pastGap.textUpTo d = (quoted quote text).written

/-- Whether nothing but quotes stands between the quotes of the name. -/
def isBlank : ExportName → Bool
  | word _ => false
  | quoted _ text => text.toList.all Statement.isQuote

/-- Whether the name has a text, no escape in it and no quotes at its two ends. -/
def isPlain : ExportName → Bool
  | word text => '\\' ∉ text.toList
  | quoted _ text => text ≠ "" ∧ '\\' ∉ text.toList ∧
      text.toList.head?.all (!Statement.isQuote ·) ∧ text.toList.getLast?.all (!Statement.isQuote ·)

end ExportName

/-- An item of an export list. -/
structure ExportItem where
  /-- Whether the item is marked as a type. -/
  isType : Bool
  /-- The name of what is exported. -/
  name : ExportName
  /-- The name under which it is exported, if another one is given. -/
  alias? : Option ExportName

namespace ExportItem

/-- The name under which the item is exported. -/
def exported (i : ExportItem) : ExportName :=
  i.alias?.getD i.name

/-- The texts of which the item is made. -/
def words (i : ExportItem) : List String :=
  (if i.isType then ["type"] else []) ++ i.name.written ::
    (i.alias?.map fun a => ["as", a.written]).getD []

end ExportItem

/-- Past the word `type`, if it is to stand there. -/
def pastType? (types : Bool) (c : Cursor) : Option Cursor :=
  if types then c.word? "type" else some c

/-- Past an item, if it is what is written at the cursor. -/
def ExportItem.past? (i : ExportItem) (c : Cursor) : Option Cursor := do
  let d ← i.name.past? (← pastType? i.isType c)
  match i.alias? with
  | none => some d
  | some a => a.past? (← d.word? "as")

/-- Past the items of a list and its brace, from behind the first brace. A comma may stand behind
the last item. -/
def pastItems? : List ExportItem → Cursor → Option Cursor
  | [], c => c.char? '\x7d'
  | i :: is, c => do pastMore? '\x7d' is.isEmpty (pastItems? is) (← i.past? c)

/-! ### Declarations -/

/-- The declarations of a single name. -/
inductive Keyword where
  /-- A function, which may be asynchronous, a generator, or only the signature of one. -/
  | function
  /-- A class, which may be abstract. -/
  | classForm
  /-- An enumeration, which may be constant. -/
  | enumeration
  /-- An interface. -/
  | interface
  /-- A type alias. -/
  | typeAlias

namespace Keyword

/-- Whether such a declaration leaves nothing behind at run time. -/
def isErased : Keyword → Bool
  | interface | typeAlias => true
  | _ => false

/-- Past the words in front of the name. -/
def past? : Keyword → Cursor → Option Cursor
  | function, c => ((c.skip (·.word? "async")).word? "function").map (·.skip (·.mark? "*"))
  | classForm, c => (c.skip (·.word? "abstract")).word? "class"
  | enumeration, c => (c.skip (·.word? "const")).word? "enum"
  | interface, c => c.word? "interface"
  | typeAlias, c => c.word? "type"

end Keyword

/-- A declaration, as far as its names are concerned. -/
inductive Declaration where
  /-- Variables. -/
  | bindings (bs : List Binding)
  /-- One name behind a keyword. -/
  | named (keyword : Keyword) (name : String)
  /-- A namespace, with what stands between the name and the brace if it is a path. -/
  | space (name path : String)
  /-- An addition to another module or to the global scope. -/
  | augmentation

/-- A name, exported as a type or as a value. -/
structure Offer where
  /-- The name. -/
  name : String
  /-- Whether it is exported as a type only. -/
  isType : Bool
  deriving DecidableEq

namespace Declaration

/-- Past the declaration up to behind its names, if it is what is written at the cursor. -/
def past? (read : Reader) : Declaration → Cursor → Option Cursor
  | bindings bs, c => pastDeclaration? read bs c
  | named keyword name, c => do pastName? name (← keyword.past? (c.skip (·.word? "declare")))
  | space name path, c => do
    let d ← (c.skip (·.word? "declare")).wordOf? ["namespace", "module"]
    let e ← pastName? name d
    let f ← pastDottedName d
    if e.textUpTo f = path then f.char? '\x7b' else none
  | augmentation, c =>
    let d := c.skip (·.word? "declare")
    ((d.word? "module").bind (·.string?)).or ((d.word? "global").bind (·.char? '\x7b'))

/-- The names that the declaration declares. A namespace counts as a value, whatever it holds. -/
def offers : Declaration → List Offer
  | bindings bs => (boundBy bs).map (⟨·.word, false⟩)
  | named keyword name => [⟨name, keyword.isErased⟩]
  | space name _ => [⟨name, false⟩]
  | augmentation => []

/-- What a scan sees of the declaration: names with their flavours. -/
def seen : Declaration → List (String × Bool)
  | bindings bs => (listed (boundBy bs)).map (stripQuotes ·, false)
  | named keyword name => [(stripQuotes name, keyword.isErased)]
  | space name path => [(stripQuotes (name ++ path), false)]
  | augmentation => []

/-- Whether a scan sees the names as they are. -/
def isPlain : Declaration → Bool
  | bindings bs => ⟨"undefined", true⟩ ∉ boundBy bs ∧
      (boundBy bs).all ('\\' ∉ ·.word.toList)
  | named _ name => '\\' ∉ name.toList
  | space name path => '\\' ∉ name.toList ∧ path = ""
  | augmentation => true

end Declaration

/-! ### Forms -/

/-- What stands behind the word `export`. -/
inductive ExportForm where
  /-- A declaration. -/
  | declaration (declared : Declaration)
  /-- A list of names, which may be one of types. -/
  | list (types : Bool) (items : List ExportItem)
  /-- All names of another module. -/
  | star (types : Bool)
  /-- A name that stands for another module. -/
  | gathered (types : Bool) (name : ExportName)
  /-- The default export. -/
  | default
  /-- A value that takes the place of all exports. -/
  | assigned
  /-- A name for the whole module in the global scope. -/
  | global (name : String)
  /-- A name for something that is imported in the same statement. -/
  | imported (types : Bool) (name : String)

namespace ExportForm

/-- Past the form up to behind its names, if it is what is written at the cursor. -/
def past? (read : Reader) : ExportForm → Cursor → Option Cursor
  | declaration declared, c => declared.past? read c
  | list types items, c => do pastItems? items (← (← pastType? types c).char? '\x7b')
  | star types, c => do (← (← pastType? types c).mark? "*").word? "from"
  | gathered types name, c => do
    name.past? (← (← (← pastType? types c).mark? "*").word? "as")
  | default, c => c.word? "default"
  | assigned, c => c.mark? "="
  | global name, c => do pastName? name (← (← c.word? "as").word? "namespace")
  | imported types name, c => do
    (← pastName? name (← pastType? types (← c.word? "import"))).mark? "="

/-- The names that are exported, other than the default. -/
def offers : ExportForm → List Offer
  | declaration declared => declared.offers
  | list types items => items.map fun i => ⟨i.exported.text, types || i.isType⟩
  | gathered types name => [⟨name.text, types⟩]
  | imported types name => [⟨name, types⟩]
  | star _ | default | assigned | global _ => []

/-- What a scan sees of the form: names with their flavours. -/
def seen : ExportForm → List (String × Bool)
  | declaration declared => declared.seen
  | list types items => items.map fun i => (stripQuotes i.exported.written, types || i.isType)
  | gathered _ name =>
    if stripQuotes name.written = "" then [] else [(stripQuotes name.written, false)]
  | star _ | default | assigned | global _ | imported _ _ => []

/-- The items of the form, if it is a list. -/
def items : ExportForm → List ExportItem
  | list _ items => items
  | _ => []

/-- Whether a scan sees the names as they are. -/
def isPlain : ExportForm → Bool
  | declaration declared => declared.isPlain
  | list _ items => items.all (·.exported.isPlain)
  | gathered types name => !types && name.isPlain
  | imported _ _ => false
  | star _ | default | assigned | global _ => true

end ExportForm

/-- What is found, as it is seen. -/
def Found.flavoured (f : Found) : String × Bool :=
  (stripQuotes f.text, f.isTypeOnly)

/-- What is found in a statement, as it is seen. -/
def Exported.flavoured : Exported → List (String × Bool)
  | star => []
  | names found => found.map Found.flavoured

/-! ### Reading a list -/

variable {c d e : Cursor}

namespace ExportName

variable {name : ExportName}

theorem specifierText?_eq (h : name.past? c = some d) :
    specifierText? c = some (name.written, d) := by
  cases name with
  | word text =>
    obtain ⟨-, hword⟩ := Option.ite_none_left_eq_some.mp h
    have hfound := word?_eq_some_iff.mp hword
    simp [specifierText?, string?_eq_none_of_anyWord? hfound, hfound, written]
  | quoted quote text =>
    obtain ⟨hstring, htext⟩ := Option.filter_eq_some_iff.mp h
    simp [specifierText?, hstring, of_decide_eq_true htext]

theorem past?_ahead_lt (h : name.past? c = some d) : d.ahead < c.ahead := by
  cases name with
  | word text =>
    obtain ⟨hne, hword⟩ := Option.ite_none_left_eq_some.mp h
    exact anyWord?_ahead_lt (word?_eq_some_iff.mp hword) hne
  | quoted quote text => exact string?_ahead_lt (Option.filter_eq_some_iff.mp h).1

theorem mark?_comma_eq_none (h : name.past? c = some d) : c.mark? "," = none := by
  cases name with
  | word text =>
    obtain ⟨-, hword⟩ := Option.ite_none_left_eq_some.mp h
    obtain ⟨ch, hnext, hch⟩ := opensWord_of_anyWord? (word?_eq_some_iff.mp hword)
    exact mark?_eq_none hnext rfl (opensWord_ne hch (by decide))
  | quoted quote text =>
    obtain ⟨ch, cs, hrest, hch, -⟩ := string?_eq_some (Option.filter_eq_some_iff.mp h).1
    refine mark?_eq_none (by rw [next?, hrest, List.head?_cons]) rfl ?_
    obtain rfl | rfl := hch <;> decide

end ExportName

/-- More texts in the first of some items. -/
def inFront (texts : List String) : List (List String) → List (List String)
  | [] => [texts]
  | item :: rest => (texts ++ item) :: rest

/-- The items that are read at a cursor are those behind another one with more texts in the first
one of them. -/
def LeadsItems (texts : List String) (c d : Cursor) : Prop :=
  ∀ fuel, c.ahead < fuel → ∃ fuel', d.ahead < fuel' ∧
    items fuel c = inFront texts (items fuel' d)

theorem ExportName.leadsItems {name : ExportName} (h : name.past? c = some d) :
    LeadsItems [name.written] c d := by
  intro fuel hfuel
  obtain ⟨fuel, rfl⟩ : ∃ n, fuel = n + 1 := ⟨fuel - 1, by omega⟩
  have := name.past?_ahead_lt h
  refine ⟨fuel, by omega, ?_⟩
  simp only [items, name.mark?_comma_eq_none h, name.specifierText?_eq h]
  cases items fuel d <;> rfl

theorem LeadsItems.trans {texts more : List String} (h : LeadsItems texts c d)
    (hmore : LeadsItems more d e) : LeadsItems (texts ++ more) c e := by
  intro fuel hfuel
  obtain ⟨fuel', hfuel', htexts⟩ := h fuel hfuel
  obtain ⟨fuel'', hfuel'', hmore⟩ := hmore fuel' hfuel'
  refine ⟨fuel'', hfuel'', ?_⟩
  rw [htexts, hmore]
  cases items fuel'' e <;> simp [inFront]

theorem leadsItems_of_word? {word : String} (hword : word ≠ "") (h : c.word? word = some d) :
    LeadsItems [word] c d := by
  have hname : (ExportName.word word).past? c = some d := by rwa [ExportName.past?, if_neg hword]
  exact ExportName.leadsItems hname

/-- An item is read as the texts of which it is made. -/
theorem ExportItem.leadsItems {i : ExportItem} (h : i.past? c = some d) :
    LeadsItems i.words c d := by
  obtain ⟨isType, name, alias?⟩ := i
  simp only [ExportItem.past?, Option.bind_eq_bind, Option.bind_eq_some_iff] at h
  obtain ⟨e, htype, f, hname, halias⟩ := h
  have hbehind : LeadsItems (name.written ::
      (alias?.map fun a => ["as", a.written]).getD []) e d := by
    cases alias? with
    | none =>
      obtain rfl : f = d := by simpa using halias
      exact name.leadsItems hname
    | some a =>
      obtain ⟨g, has, ha⟩ := Option.bind_eq_some_iff.mp halias
      exact (name.leadsItems hname).trans
        ((leadsItems_of_word? (by decide) has).trans (a.leadsItems ha))
  cases isType with
  | false =>
    obtain rfl : c = e := by simpa [pastType?] using htype
    exact hbehind
  | true => exact (leadsItems_of_word? (by decide) htype).trans hbehind

theorem items_of_brace {fuel : Nat} (h : c.char? '\x7d' = some d) : items (fuel + 1) c = [[]] := by
  have hnext := (char?_eq_some_iff.mp h).1
  have hcomma : c.mark? "," = none := mark?_eq_none hnext rfl (by decide)
  have hstring : c.string? = none := string?_eq_none hnext (by decide) (by decide)
  have hword : c.anyWord? = none := anyWord?_eq_none hnext (by decide)
  simp [items, hcomma, specifierText?, hstring, hword]

/-- What is read of a list are its items, and nothing behind a last comma. -/
theorem flatMap_itemName_items {types : Bool} {is : List ExportItem} {fuel : Nat}
    (h : pastItems? is c = some d) (hfuel : c.ahead < fuel) :
    (items fuel c).flatMap (itemName types) = is.flatMap fun i => itemName types i.words := by
  induction is generalizing c fuel with
  | nil =>
    obtain ⟨fuel, rfl⟩ : ∃ n, fuel = n + 1 := ⟨fuel - 1, by omega⟩
    simp [items_of_brace h, itemName]
  | cons i is ih =>
    obtain ⟨e, hitem, hmore⟩ := Option.bind_eq_some_iff.mp h
    obtain ⟨fuel', hfuel', hitems⟩ := i.leadsItems hitem fuel hfuel
    obtain ⟨fuel', rfl⟩ : ∃ n, fuel' = n + 1 := ⟨fuel' - 1, by omega⟩
    rw [hitems, List.flatMap_cons]
    obtain ⟨f, hcomma, hf⟩ | ⟨hlast, -, hclose⟩ := pastMore?_eq_some hmore
    · have := mark?_ahead_lt hcomma rfl
      rw [← ih hf (by omega : f.ahead < fuel')]
      simp [items, hcomma, inFront]
    · obtain rfl : is = [] := by simpa using hlast
      simp [items_of_brace hclose, inFront]

/-- An item is exported under its second name, if it has one, with its own mark or that of the
list. -/
theorem map_flavoured_itemName (types : Bool) (i : ExportItem) :
    (itemName types i.words).map Found.flavoured =
      [(stripQuotes i.exported.written, types || i.isType)] := by
  obtain ⟨isType, name, alias?⟩ := i
  cases isType <;> cases alias? <;>
    simp [ExportItem.words, ExportItem.exported, itemName, Found.flavoured]

theorem map_flavoured_listNames {types : Bool} {is : List ExportItem}
    (h : pastItems? is c = some d) : (listNames types c).map Found.flavoured =
      is.map fun i => (stripQuotes i.exported.written, types || i.isType) := by
  have hfuel : c.ahead < c.rest.length + 1 := Nat.lt_succ_self c.ahead
  rw [listNames, flatMap_itemName_items h hfuel, List.map_flatMap, List.map_eq_flatMap]
  exact List.flatMap_congr fun i _ => map_flavoured_itemName types i

/-! ### Reading a declaration -/

section Declarations

variable {read : Reader} {name : String}

/-- A statement that goes on with a word is a declaration by that word, if the word is none in front
of a list or a star. -/
theorem exported_of_anyWord? (h : (c.skip (·.word? "declare")).anyWord? = some (word, d))
    (htype : word = "type" → ∃ found, d.anyWord? = some found) :
    exported read c = .names (foundIn read word d) := by
  have hfound : foundDeclaration read c = foundIn read word d := by simp [foundDeclaration, h]
  have hfirst : ∃ first e, c.anyWord? = some (first, e) ∧
      (first = "type" → ∃ found, e.anyWord? = some found) := by
    cases hdeclare : c.word? "declare" with
    | some e => exact ⟨"declare", e, word?_eq_some_iff.mp hdeclare, (absurd · (by decide))⟩
    | none =>
      rw [skip, hdeclare] at h
      exact ⟨word, d, h, htype⟩
  obtain ⟨first, e, hword, hbehind⟩ := hfirst
  have hnone {f : Cursor} (hf : ∃ found, f.anyWord? = some found) :
      f.mark? "*" = none ∧ f.char? '\x7b' = none := by
    obtain ⟨found, hf⟩ := hf
    obtain ⟨ch, hnext, hch⟩ := opensWord_of_anyWord? hf
    exact ⟨mark?_eq_none hnext rfl (opensWord_ne hch (by decide)),
      char?_eq_none hnext (opensWord_ne hch (by decide))⟩
  by_cases hfirst : first = "type"
  · obtain ⟨hstar, hbrace⟩ := hnone (hbehind hfirst)
    have htype : c.word? "type" = some e := word?_eq_some_iff.mpr (hfirst ▸ hword)
    simp [exported, htype, hstar, hbrace, hfound]
  · obtain ⟨hstar, hbrace⟩ := hnone ⟨_, hword⟩
    have htype : c.word? "type" = none := by simp [word?, hword, hfirst]
    simp [exported, htype, hstar, hbrace, hfound]

/-- The name behind a keyword is what is found. -/
theorem Keyword.foundIn_eq (read : Reader) {k : Keyword} (h : k.past? c = some d)
    (hname : ∃ found, d.anyWord? = some found) :
    ∃ word e form, c.anyWord? = some (word, e) ∧ (word = "type" → ∃ found, e.anyWord? = some found) ∧
      foundIn read word e = foundName k.isErased form d := by
  cases k with
  | function =>
    obtain ⟨f, hkeyword, rfl⟩ := Option.map_eq_some_iff.mp h
    cases hasync : c.word? "async" with
    | some e =>
      rw [skip, hasync, Option.getD_some] at hkeyword
      exact ⟨"async", e, .function, word?_eq_some_iff.mp hasync, (absurd · (by decide)),
        by simp [foundIn, hkeyword, isErased]⟩
    | none =>
      rw [skip, hasync, Option.getD_none] at hkeyword
      exact ⟨"function", f, .function, word?_eq_some_iff.mp hkeyword, (absurd · (by decide)), rfl⟩
  | classForm =>
    cases habstract : c.word? "abstract" with
    | some e =>
      rw [past?, skip, habstract, Option.getD_some] at h
      exact ⟨"abstract", e, .classForm, word?_eq_some_iff.mp habstract, (absurd · (by decide)),
        by simp [foundIn, h, isErased]⟩
    | none =>
      rw [past?, skip, habstract, Option.getD_none] at h
      exact ⟨"class", d, .classForm, word?_eq_some_iff.mp h, (absurd · (by decide)), rfl⟩
  | enumeration =>
    cases hconst : c.word? "const" with
    | some e =>
      rw [past?, skip, hconst, Option.getD_some] at h
      exact ⟨"const", e, .enumeration, word?_eq_some_iff.mp hconst, (absurd · (by decide)),
        by simp [foundIn, h, isErased]⟩
    | none =>
      rw [past?, skip, hconst, Option.getD_none] at h
      exact ⟨"enum", d, .enumeration, word?_eq_some_iff.mp h, (absurd · (by decide)), rfl⟩
  | interface =>
    exact ⟨"interface", d, .interface, word?_eq_some_iff.mp h, (absurd · (by decide)), rfl⟩
  | typeAlias => exact ⟨"type", d, .typeAlias, word?_eq_some_iff.mp h, fun _ => hname, rfl⟩

theorem flavoured_exported_named {k : Keyword}
    (h : (Declaration.named k name).past? read c = some d) :
    (exported read c).flavoured = [(stripQuotes name, k.isErased)] := by
  obtain ⟨e, hkeyword, hname⟩ := Option.bind_eq_some_iff.mp h
  have hfound := (pastName?_eq_some_iff.mp hname).2
  obtain ⟨word, f, form, hword, htype, hnames⟩ := k.foundIn_eq read hkeyword ⟨_, hfound⟩
  rw [exported_of_anyWord? hword htype, hnames]
  simp [Exported.flavoured, foundName, hfound, Found.flavoured]

/-- The text up to a later place goes on from the end of a word. -/
theorem textUpTo_of_append {c d e : Cursor} (h : c.rest = name.toList ++ d.rest)
    (he : e.ahead ≤ d.ahead) : c.textUpTo e = name ++ d.textUpTo e := by
  have hlength : c.rest.length - e.rest.length =
      name.toList.length + (d.rest.length - e.rest.length) := by
    simp only [ahead] at he
    rw [h, List.length_append]
    omega
  rw [textUpTo, hlength, h, List.take_length_add_append, String.ofList_append, String.ofList_toList,
    textUpTo]

/-- Of a namespace the name is found with the path behind it. -/
theorem flavoured_exported_space {path : String}
    (h : (Declaration.space name path).past? read c = some d) :
    (exported read c).flavoured = [(stripQuotes (name ++ path), false)] := by
  simp only [Declaration.past?, Option.bind_eq_bind, Option.bind_eq_some_iff,
    Option.ite_none_right_eq_some] at h
  obtain ⟨e, hkeyword, f, hname, g, hpath, rfl, -⟩ := h
  obtain ⟨word, hword, hfound⟩ := wordOf?_eq_some_iff.mp hkeyword
  have hnamed := (pastName?_eq_some_iff.mp hname).2
  have hstring : e.string? = none := string?_eq_none_of_anyWord? hnamed
  have hbehind : g.ahead ≤ f.ahead := by
    simp only [pastDottedName, hstring, hnamed] at hpath
    obtain rfl := Option.some.inj hpath
    exact pastDottedName_go_ahead_le
  have hspace : foundSpace e = [⟨name ++ f.textUpTo g, false, .space⟩] := by
    simp [foundSpace, hstring, hpath, textUpTo_of_append (rest_of_anyWord? hnamed).1 hbehind]
  simp only [List.mem_cons, List.not_mem_nil, or_false] at hword
  obtain rfl | rfl := hword <;>
    rw [exported_of_anyWord? hfound (absurd · (by decide))] <;>
      exact congrArg (List.map Found.flavoured) hspace

theorem flavoured_exported_augmentation (h : Declaration.augmentation.past? read c = some d) :
    (exported read c).flavoured = [] := by
  rcases Option.or_eq_some_iff.mp h with h | ⟨-, h⟩
  · obtain ⟨e, hword, hstring⟩ := Option.bind_eq_some_iff.mp h
    rw [exported_of_anyWord? (word?_eq_some_iff.mp hword) (absurd · (by decide))]
    simp [foundIn, foundSpace, hstring, Exported.flavoured]
  · obtain ⟨e, hword, -⟩ := Option.bind_eq_some_iff.mp h
    rw [exported_of_anyWord? (word?_eq_some_iff.mp hword) (absurd · (by decide))]
    rfl

/-- A scan sees what is declared. -/
theorem Declaration.flavoured_exported {r : OnwardReader} {declared : Declaration}
    (h : declared.past? r.read c = some d) : (exported r.read c).flavoured = declared.seen := by
  cases declared with
  | bindings bs =>
    rw [exported_variables h, Exported.flavoured, List.map_map]
    rfl
  | named k name => exact flavoured_exported_named h
  | space name path => exact flavoured_exported_space h
  | augmentation => exact flavoured_exported_augmentation h

end Declarations

/-! ### Reading a form -/

section Forms

variable {r : OnwardReader} {types : Bool}

/-- A word in front of which no `declare` stands. -/
theorem exported_of_word? {word : String} (h : c.word? word = some d)
    (hword : word ≠ "declare" ∧ word ≠ "type") :
    exported r.read c = .names (foundIn r.read word d) := by
  have hfound := word?_eq_some_iff.mp h
  have hskip : c.skip (·.word? "declare") = c := by simp [skip, word?, hfound, hword.1]
  exact exported_of_anyWord? (by rwa [hskip]) (absurd · hword.2)

/-- Behind an optional word `type`, a star tells the form. -/
theorem exported_of_star (h : pastType? types c = some d) (hstar : d.mark? "*" = some e) :
    exported r.read c = exportedStar e := by
  cases types with
  | true =>
    have htype : c.word? "type" = some d := h
    simp [exported, htype, hstar]
  | false =>
    obtain rfl : c = d := by simpa [pastType?] using h
    have htype : c.word? "type" = none := by
      simp [word?, anyWord?_eq_none (next?_of_mark? hstar rfl) (by decide)]
    simp [exported, htype, hstar]

/-- Behind an optional word `type`, a brace tells the form. -/
theorem exported_of_brace (h : pastType? types c = some d) (hopen : d.char? '\x7b' = some e) :
    exported r.read c = .names (listNames types e) := by
  have hnext := (char?_eq_some_iff.mp hopen).1
  have hstar : d.mark? "*" = none := mark?_eq_none hnext rfl (by decide)
  cases types with
  | true =>
    have htype : c.word? "type" = some d := h
    simp [exported, htype, hstar, hopen]
  | false =>
    obtain rfl : c = d := by simpa [pastType?] using h
    have htype : c.word? "type" = none := by simp [word?, anyWord?_eq_none hnext (by decide)]
    simp [exported, htype, hstar, hopen]

theorem flavoured_exported_list {is : List ExportItem}
    (h : (ExportForm.list types is).past? r.read c = some d) :
    (exported r.read c).flavoured =
      is.map fun i => (stripQuotes i.exported.written, types || i.isType) := by
  simp only [ExportForm.past?, Option.bind_eq_bind, Option.bind_eq_some_iff] at h
  obtain ⟨e, htype, f, hopen, hitems⟩ := h
  rw [exported_of_brace htype hopen]
  exact map_flavoured_listNames hitems

theorem flavoured_exported_star (h : (ExportForm.star types).past? r.read c = some d) :
    (exported r.read c).flavoured = [] := by
  simp only [ExportForm.past?, Option.bind_eq_bind, Option.bind_eq_some_iff] at h
  obtain ⟨e, htype, f, hstar, hfrom⟩ := h
  have has : f.word? "as" = none := by simp [word?, word?_eq_some_iff.mp hfrom]
  rw [exported_of_star htype hstar]
  simp [exportedStar, has, Exported.flavoured]

theorem flavoured_exported_gathered {name : ExportName}
    (h : (ExportForm.gathered types name).past? r.read c = some d) :
    (exported r.read c).flavoured =
      if stripQuotes name.written = "" then [] else [(stripQuotes name.written, false)] := by
  simp only [ExportForm.past?, Option.bind_eq_bind, Option.bind_eq_some_iff] at h
  obtain ⟨e, htype, f, hstar, g, has, hname⟩ := h
  rw [exported_of_star htype hstar]
  simp only [exportedStar, has, name.specifierText?_eq hname]
  split <;> rfl

theorem flavoured_exported_assigned (h : c.mark? "=" = some d) :
    (exported r.read c).flavoured = [] := by
  have hnext := next?_of_mark? h rfl
  have hword : c.anyWord? = none := anyWord?_eq_none hnext (by decide)
  have hstar : c.mark? "*" = none := mark?_eq_none hnext rfl (by decide)
  have hbrace : c.char? '\x7b' = none := char?_eq_none hnext (by decide)
  simp [exported, word?, hword, hstar, hbrace, foundDeclaration, skip, Exported.flavoured]

/-- A scan sees of each form what `seen` says. -/
theorem ExportForm.flavoured_exported {form : ExportForm} (h : form.past? r.read c = some d) :
    (exported r.read c).flavoured = form.seen := by
  cases form with
  | declaration declared => exact declared.flavoured_exported h
  | list types items => exact flavoured_exported_list h
  | star types => exact flavoured_exported_star h
  | gathered types name => exact flavoured_exported_gathered h
  | default =>
    rw [exported_of_word? h (by decide)]
    rfl
  | assigned => exact flavoured_exported_assigned h
  | global name =>
    simp only [past?, Option.bind_eq_bind, Option.bind_eq_some_iff] at h
    obtain ⟨e, has, -⟩ := h
    rw [exported_of_word? has (by decide)]
    rfl
  | imported types name =>
    simp only [past?, Option.bind_eq_bind, Option.bind_eq_some_iff] at h
    obtain ⟨e, himport, -⟩ := h
    rw [exported_of_word? himport (by decide)]
    rfl

end Forms

end Reexport.Script
