import Reexport.Proofs.Arrangement
import Reexport.Proofs.WrittenStatements

/-!
# The text of a barrel is read back

The text that is written for well-formed entries holds these entries again, in the order in which
they are written, and the prologue before them holds none.

`Spells rows entries` says of a list of lines that they are statements and which entries they spell
out. It is built up as the lines are, and whatever is read from the lines follows by induction.

## What is proved

* `spells_statements` — the statements of a barrel spell out its arranged entries.
* `unplaced_moduleEntries_barrelText` — so these are what is read from the text of a barrel.
* `prologue_barrelText` — the prologue of the text is the one with which it was written.
* `barrelText_eq_iff` — two lists of entries give one text only if they are arranged alike.
-/

namespace Reexport

open Text

/-! ### Lines without breaks -/

namespace Text

theorem isBlank_of_isLineBreak {c : Char} (h : isLineBreak c = true) : isBlank c = true := by
  simp only [isLineBreak, isBlank, Bool.or_eq_true, Bool.and_eq_true, decide_eq_true_eq,
    beq_iff_eq] at h ⊢
  omega

theorem not_isLineBreak_of_isWordChar {c : Char} (h : isWordChar c = true) :
    isLineBreak c = false := by
  rw [← Bool.not_eq_true]
  intro hbreak
  have hblank := not_isBlank_of_isWordChar h
  rw [isBlank_of_isLineBreak hbreak] at hblank
  cases hblank

/-- A text that fits on one line. -/
def OneLine (cs : List Char) : Prop :=
  ∀ c ∈ cs, isLineBreak c = false

instance (cs : List Char) : Decidable (OneLine cs) :=
  decidable_of_iff (cs.all (!isLineBreak ·) = true) (by simp [OneLine])

theorem OneLine.append {left right : List Char} (hleft : OneLine left) (hright : OneLine right) :
    OneLine (left ++ right) := by
  intro c hc
  rcases List.mem_append.1 hc with hc | hc
  · exact hleft c hc
  · exact hright c hc

theorem IsWord.oneLine {w : List Char} (h : IsWord w) : OneLine w :=
  fun c hc => not_isLineBreak_of_isWordChar (h.2 c hc)

end Text

variable {e : Entry}

theorem oneLine_keyword (t : Bool) : OneLine (keyword t) := by
  cases t <;> decide

theorem Entry.WellFormed.oneLine_sourceText (h : e.WellFormed) : OneLine (sourceText e.source) := by
  have hstart : OneLine " from \"".toList := by decide
  have hend : OneLine "\";".toList := by decide
  exact (hstart.append fun c hc => (h.source c hc).2).append hend

theorem Entry.WellFormed.oneLine_itemText (h : e.WellFormed) (hkind : e.kind ≠ .star) :
    OneLine (Reexport.itemText e) := by
  have hname := (h.specifier hkind).oneLine
  have hmid : OneLine " as ".toList := by decide
  rw [h.itemText]
  cases has : e.asName with
  | none => exact hname
  | some a => exact (hname.append hmid).append (h.asName has).oneLine

/-! ### Lines that spell out entries -/

/-- The lines are statements that spell out the entries. -/
inductive Spells : List (List Char) → List Entry → Prop where
  /-- No line. -/
  | nil : Spells [] []
  /-- The statement of a whole namespace. -/
  | star {e : Entry} {rows : List (List Char)} {entries : List Entry} (h : e.WellFormed)
      (hkind : e.kind = .star) (rest : Spells rows entries) :
      Spells (starText e.isTypeOnly e.source e.asName :: rows) (e.unplaced :: entries)
  /-- The statement of a list. -/
  | list {t : Bool} {source : String} {items : List Entry} {rows : List (List Char)}
      {entries : List Entry} (hne : items ≠ [])
      (h : ∀ e ∈ items, e.WellFormed ∧ e.kind ≠ .star ∧ e.source = source ∧ e.isTypeOnly = t)
      (rest : Spells rows entries) :
      Spells (listText t source (items.map itemText) :: rows) (items.map Entry.unplaced ++ entries)

namespace Spells

variable {rows rows' : List (List Char)} {entries entries' : List Entry}

theorem append (h : Spells rows entries) (h' : Spells rows' entries') :
    Spells (rows ++ rows') (entries ++ entries') := by
  induction h with
  | nil => exact h'
  | star h hkind _ ih => exact .star h hkind ih
  | list hne h _ ih =>
    rw [List.append_assoc]
    exact .list hne h ih

theorem flatMap {α : Type} {f : α → List (List Char)} {g : α → List Entry} {xs : List α}
    (h : ∀ a ∈ xs, Spells (f a) (g a)) : Spells (xs.flatMap f) (xs.flatMap g) := by
  induction xs with
  | nil => exact .nil
  | cons a xs ih =>
    rw [List.forall_mem_cons] at h
    rw [List.flatMap_cons, List.flatMap_cons]
    exact h.1.append (ih h.2)

/-- The entries are read from the lines. -/
theorem unplaced_linesEntries (h : Spells rows entries) (number : Nat) :
    (linesEntries number rows).map Entry.unplaced = entries := by
  induction h generalizing number with
  | nil => rfl
  | star h hkind _ ih =>
    rw [linesEntries, lineEntries_starText h hkind, List.map_append, ih]
    rfl
  | list hne h _ ih =>
    rw [linesEntries, lineEntries_listText hne h, List.map_append, ih, List.map_map]
    rfl

/-- Every line holds an entry. -/
theorem lineEntries_ne_nil (h : Spells rows entries) :
    ∀ row ∈ rows, ∀ number, lineEntries row number ≠ [] := by
  induction h with
  | nil => exact nofun
  | star h hkind _ ih =>
    refine List.forall_mem_cons.2 ⟨fun number hnil => ?_, ih⟩
    have hread := lineEntries_starText h hkind number
    rw [hnil] at hread
    cases hread
  | list hne h _ ih =>
    refine List.forall_mem_cons.2 ⟨fun number hnil => ?_, ih⟩
    have hread := lineEntries_listText hne h number
    rw [hnil] at hread
    exact hne (List.map_eq_nil_iff.1 hread.symm)

theorem oneLine (h : Spells rows entries) : ∀ row ∈ rows, OneLine row := by
  induction h with
  | nil => exact nofun
  | @star e rows entries h hkind _ ih =>
    refine List.forall_mem_cons.2 ⟨?_, ih⟩
    have hstar : OneLine " *".toList := by decide
    have has : OneLine " * as ".toList := by decide
    have hbare := ((oneLine_keyword e.isTypeOnly).append hstar).append h.oneLine_sourceText
    unfold starText
    split
    · rename_i a hname
      split
      · exact hbare
      · exact (((oneLine_keyword _).append has).append (h.asName hname).oneLine).append
          h.oneLine_sourceText
    · exact hbare
  | @list t source items rows entries hne h _ ih =>
    refine List.forall_mem_cons.2 ⟨?_, ih⟩
    obtain ⟨first, hfirst⟩ := List.exists_mem_of_ne_nil _ hne
    obtain ⟨hwf, -, rfl, -⟩ := h first hfirst
    have hopen : OneLine " \x7b ".toList := by decide
    have hclose : OneLine " \x7d".toList := by decide
    have hcomma : OneLine ", ".toList := by decide
    have hitems : OneLine (join ", ".toList (items.map itemText)) := by
      intro c hc
      rcases mem_of_mem_join hc with hc | ⟨text, htext, hc⟩
      · exact hcomma c hc
      · obtain ⟨x, hx, rfl⟩ := List.mem_map.1 htext
        exact (h x hx).1.oneLine_itemText (h x hx).2.1 c hc
    exact ((((oneLine_keyword t).append hopen).append hitems).append hclose).append
      hwf.oneLine_sourceText

/-- Every line begins with `export`. -/
theorem isExportLine (h : Spells rows entries) : ∀ row ∈ rows, isExportLine row = true := by
  have hkeyword (t : Bool) (body : List Char) (source : String) :
      Reexport.isExportLine (keyword t ++ body ++ sourceText source) = true := by
    unfold Reexport.isExportLine
    rw [Statement.trim_written, List.isPrefixOf_iff_prefix, List.append_assoc]
    have hexport : "export".toList <+: keyword t := by
      cases t with
      | false => exact List.prefix_rfl
      | true => exact List.isPrefixOf_iff_prefix.1 (by decide)
    exact hexport.trans (List.prefix_append _ _)
  induction h with
  | nil => exact nofun
  | @star e rows entries h hkind _ ih =>
    refine List.forall_mem_cons.2 ⟨?_, ih⟩
    unfold starText
    split
    · split
      · exact hkeyword _ _ _
      · rename_i a hname hne
        have htext := hkeyword e.isTypeOnly (" * as ".toList ++ a.toList) e.source
        rwa [← List.append_assoc] at htext
    · exact hkeyword _ _ _
  | @list t source items rows entries hne h _ ih =>
    refine List.forall_mem_cons.2 ⟨?_, ih⟩
    have htext := hkeyword t (" \x7b ".toList ++ (join ", ".toList (items.map itemText) ++
      " \x7d".toList)) source
    simp only [← List.append_assoc] at htext
    exact htext

end Spells

/-! ### The statements of a barrel -/

/-- Entries of one source and flavour. -/
def Grouped (t : Bool) (source : String) (entries : List Entry) : Prop :=
  ∀ e ∈ entries, e.WellFormed ∧ e.source = source ∧ e.isTypeOnly = t

section Grouped

variable {t : Bool} {source : String} {entries : List Entry}

theorem Grouped.ofKind (h : Grouped t source entries) (kind : Kind) :
    Grouped t source (ofKind kind entries) :=
  fun e he => h e (List.mem_filter.1 he).1

theorem kind_of_mem_ofKind {kind : Kind} (h : e ∈ ofKind kind entries) : e.kind = kind := by
  simpa using (List.mem_filter.1 h).2

theorem Grouped.firsts (h : Grouped t source entries) :
    Grouped t source (firsts Entry.unplaced entries) :=
  fun e he => h e (mem_of_mem_firsts he)

/-- Whole namespaces, one statement each. -/
theorem spells_stars (h : Grouped t source entries) :
    Spells ((firsts id ((ofKind .star entries).map (·.asName))).map (starText t source))
      (firsts id ((ofKind .star entries).map Entry.unplaced)) := by
  have hsame : firsts (·.asName) (ofKind .star entries) =
      firsts Entry.unplaced (ofKind .star entries) := by
    refine firsts_congr fun x hx y hy => ?_
    obtain ⟨-, hsx, htx⟩ := h.ofKind .star x hx
    obtain ⟨-, hsy, hty⟩ := h.ofKind .star y hy
    have hkx := kind_of_mem_ofKind hx
    have hky := kind_of_mem_ofKind hy
    rw [Entry.unplaced_eq_iff, x.specifier_of_star hkx, y.specifier_of_star hky, hsx, hsy, htx, hty,
      hkx, hky]
    simp
  have hgroup := (h.ofKind .star).firsts
  have hkind : ∀ e ∈ firsts Entry.unplaced (ofKind .star entries), e.kind = .star :=
    fun e he => kind_of_mem_ofKind (mem_of_mem_firsts he)
  rw [firsts_map (fun e : Entry => e.asName), hsame, firsts_map Entry.unplaced]
  generalize firsts Entry.unplaced (Reexport.ofKind .star entries) = xs at hgroup hkind
  induction xs with
  | nil => exact .nil
  | cons x xs ih =>
    obtain ⟨hx, hgroup⟩ := List.forall_mem_cons.1 hgroup
    rw [List.forall_mem_cons] at hkind
    obtain ⟨hwf, rfl, rfl⟩ := hx
    exact .star hwf hkind.1 (ih hgroup hkind.2)

/-- Items are told apart by their texts. -/
theorem itemTexts_eq {kind : Kind} (h : Grouped t source entries) (hkind : kind ≠ .star) :
    itemTexts (ofKind kind entries) =
      (firsts Entry.unplaced (ofKind kind entries)).map itemText := by
  have hsame : firsts itemText (ofKind kind entries) =
      firsts Entry.unplaced (ofKind kind entries) := by
    refine firsts_congr fun x hx y hy => ?_
    obtain ⟨hwx, hsx, htx⟩ := h.ofKind kind x hx
    obtain ⟨hwy, hsy, hty⟩ := h.ofKind kind y hy
    have hkx := kind_of_mem_ofKind hx
    have hky := kind_of_mem_ofKind hy
    constructor
    · intro htext
      have hx' := Item.read?_itemText hwx (by rwa [hkx])
      rw [htext, Item.read?_itemText hwy (by rwa [hky]), Option.some.injEq, Item.ext_iff] at hx'
      obtain ⟨hname, has, -⟩ := hx'
      exact Entry.unplaced_eq_iff.2 ⟨hname.symm, hsx.trans hsy.symm, hkx.trans hky.symm, has.symm,
        htx.trans hty.symm⟩
    · intro heq
      rw [← x.itemText_unplaced, heq, y.itemText_unplaced]
  rw [itemTexts, firsts_map itemText, hsame]

/-- Default bindings, one statement each. -/
theorem spells_defaults (h : Grouped t source entries) :
    Spells ((itemTexts (ofKind .default entries)).map fun item => listText t source [item])
      (firsts id ((ofKind .default entries).map Entry.unplaced)) := by
  have hgroup := (h.ofKind .default).firsts
  have hkind : ∀ e ∈ firsts Entry.unplaced (ofKind .default entries), e.kind = .default :=
    fun e he => kind_of_mem_ofKind (mem_of_mem_firsts he)
  rw [itemTexts_eq h (by decide), firsts_map Entry.unplaced]
  generalize firsts Entry.unplaced (Reexport.ofKind .default entries) = xs at hgroup hkind
  induction xs with
  | nil => exact .nil
  | cons x xs ih =>
    obtain ⟨hx, hgroup⟩ := List.forall_mem_cons.1 hgroup
    rw [List.forall_mem_cons] at hkind
    have hitem : ∀ e ∈ [x], e.WellFormed ∧ e.kind ≠ .star ∧ e.source = source ∧
        e.isTypeOnly = t := by
      intro e he
      rw [List.mem_singleton.1 he, hkind.1]
      exact ⟨hx.1, by decide, hx.2⟩
    exact .list (by simp) hitem (ih hgroup hkind.2)

/-- Names, all in one statement. -/
theorem spells_names (h : Grouped t source entries) :
    Spells (if (itemTexts (ofKind .named entries)).isEmpty then []
        else [listText t source (itemTexts (ofKind .named entries))])
      (firsts id ((ofKind .named entries).map Entry.unplaced)) := by
  have hgroup := (h.ofKind .named).firsts
  have hkind : ∀ e ∈ firsts Entry.unplaced (ofKind .named entries), e.kind = .named :=
    fun e he => kind_of_mem_ofKind (mem_of_mem_firsts he)
  rw [itemTexts_eq h (by decide), firsts_map Entry.unplaced]
  generalize firsts Entry.unplaced (Reexport.ofKind .named entries) = xs at hgroup hkind
  cases xs with
  | nil => exact .nil
  | cons x xs =>
    have hitems : ∀ e ∈ x :: xs, e.WellFormed ∧ e.kind ≠ .star ∧ e.source = source ∧
        e.isTypeOnly = t := by
      intro e he
      rw [hkind e he]
      exact ⟨(hgroup e he).1, by decide, (hgroup e he).2⟩
    have hspells := Spells.list (List.cons_ne_nil x xs) hitems .nil
    rwa [List.append_nil] at hspells

end Grouped

/-- The statements of a barrel spell out its arranged entries. -/
theorem spells_statements {entries : List Entry} (h : ∀ e ∈ entries, e.WellFormed) :
    Spells ((sources entries).flatMap (sourceStatements entries)) (arranged entries) := by
  refine Spells.flatMap fun source _ => ?_
  have hgroup (t : Bool) : Grouped t source (flavoured source t entries) := by
    intro e he
    obtain ⟨he, hpart⟩ := List.mem_filter.1 he
    rw [Bool.and_eq_true, decide_eq_true_eq, decide_eq_true_eq] at hpart
    exact ⟨h e he, hpart⟩
  have hflavour (t : Bool) : Spells (statementTexts t source (flavoured source t entries))
      ([Kind.star, .default, .named].flatMap fun kind =>
        firsts id ((part source (t, kind) entries).map Entry.unplaced)) := by
    rw [List.flatMap_cons, List.flatMap_cons, List.flatMap_singleton, ← List.append_assoc]
    exact ((spells_stars (hgroup t)).append (spells_defaults (hgroup t))).append
      (spells_names (hgroup t))
  have hforms : (forms.flatMap fun form => firsts id ((part source form entries).map
      Entry.unplaced)) = ([Kind.star, .default, .named].flatMap fun kind =>
          firsts id ((part source (false, kind) entries).map Entry.unplaced)) ++
        ([Kind.star, .default, .named].flatMap fun kind =>
          firsts id ((part source (true, kind) entries).map Entry.unplaced)) := by
    simp [forms, List.flatMap_cons]
  rw [hforms]
  exact (hflavour false).append (hflavour true)

/-! ### The text of a barrel -/

variable {entries : List Entry}

/-- Every entry is written in some statement. -/
theorem statements_ne_nil (hne : entries ≠ []) :
    (sources entries).flatMap (sourceStatements entries) ≠ [] := by
  obtain ⟨e, he⟩ := List.exists_mem_of_ne_nil _ hne
  intro hnil
  have hnone := List.flatMap_eq_nil_iff.1 hnil e.source (mem_sources_iff.2 ⟨e, he, rfl⟩)
  obtain ⟨hvalues, htypes⟩ := List.append_eq_nil_iff.1 hnone
  have hflavour : statementTexts e.isTypeOnly e.source
      (flavoured e.source e.isTypeOnly entries) = [] := by
    cases he : e.isTypeOnly with
    | false => exact hvalues
    | true => exact htypes
  have hmem : e ∈ ofKind e.kind (flavoured e.source e.isTypeOnly entries) := by
    simp [ofKind, flavoured, he]
  have hitem {β : Type} [DecidableEq β] (f : Entry → β) (kind : Kind) (hkind : e.kind = kind) :
      firsts id ((ofKind kind (flavoured e.source e.isTypeOnly entries)).map f) ≠ [] :=
    List.ne_nil_of_mem (mem_firsts_id_iff.2 (List.mem_map_of_mem (hkind ▸ hmem)))
  obtain ⟨hleft, hnames⟩ := List.append_eq_nil_iff.1 hflavour
  obtain ⟨hstars, hdefaults⟩ := List.append_eq_nil_iff.1 hleft
  cases hkind : e.kind with
  | star => exact hitem (·.asName) .star hkind (List.map_eq_nil_iff.1 hstars)
  | default => exact hitem itemText .default hkind (List.map_eq_nil_iff.1 hdefaults)
  | named =>
    rw [if_neg (by simpa [itemTexts] using hitem itemText .named hkind)] at hnames
    cases hnames

theorem oneLine_of_mem_prologue {before row : List Char} (h : row ∈ prologue before) :
    OneLine row := by
  have hmem := (List.takeWhile_sublist _).subset (List.mem_filter.1 h).1
  exact fun c hc => not_isLineBreak_of_mem_lines hmem hc

theorem not_isExportLine_of_mem_prologue {before row : List Char} (h : row ∈ prologue before) :
    isExportLine row = false := by
  simpa using List.mem_takeWhile_imp (List.mem_filter.1 h).1

/-- Lines without breaks stay what they are, whatever is put below them. -/
theorem lines_joinLines_append {rows below : List (List Char)} (hrows : ∀ row ∈ rows, OneLine row)
    (hne : below ≠ []) :
    lines (joinLines (rows ++ below) ++ ['\n']) = rows ++ lines (joinLines below ++ ['\n']) := by
  induction rows with
  | nil => rfl
  | cons row rows ih =>
    rw [List.forall_mem_cons] at hrows
    obtain ⟨next, rest, hnext⟩ := List.exists_cons_of_ne_nil (l := rows ++ below) (by simp [hne])
    rw [List.cons_append, hnext, joinLines, List.append_assoc, List.cons_append,
      lines_append_lineFeed hrows.1, ← hnext, ih hrows.2, List.cons_append]

/-- The text of a barrel has the lines of the prologue, and then those of the statements. -/
theorem lines_barrelText_append (before : String) (hne : entries ≠ []) :
    lines (barrelText before entries).toList = prologue before.toList ++
      lines (joinLines ((sources entries).flatMap (sourceStatements entries)) ++ ['\n']) := by
  have hempty : entries.isEmpty = false := by simpa using hne
  rw [barrelText, hempty, if_neg (by simp), String.toList_ofList,
    lines_joinLines_append (fun row hrow => oneLine_of_mem_prologue hrow) (statements_ne_nil hne)]

/-- For well-formed entries, each statement is a line. -/
theorem lines_barrelText (before : String) (hne : entries ≠ []) (h : ∀ e ∈ entries, e.WellFormed) :
    lines (barrelText before entries).toList = prologue before.toList ++
      (sources entries).flatMap (sourceStatements entries) := by
  rw [lines_barrelText_append before hne,
    lines_joinLines (statements_ne_nil hne) (spells_statements h).oneLine]

/-- A line that does not begin with `export` holds no entry. -/
theorem lineEntries_of_not_isExportLine {row : List Char} (h : isExportLine row = false)
    (number : Nat) : lineEntries row number = [] := by
  have hdrop : dropText? "export".toList (trim row) = none := by
    have h : "export".toList.isPrefixOf (trim row) = false := h
    rw [dropText?, h, if_neg (by decide)]
  rw [lineEntries, Statement.ofLine?, Statement.read?, hdrop]
  rfl

theorem linesEntries_of_not_isExportLine {rows : List (List Char)}
    (h : ∀ row ∈ rows, isExportLine row = false) (number : Nat) (rest : List (List Char)) :
    linesEntries number (rows ++ rest) = linesEntries (number + rows.length) rest := by
  induction rows generalizing number with
  | nil => rfl
  | cons row rows ih =>
    rw [List.forall_mem_cons] at h
    rw [List.cons_append, linesEntries, lineEntries_of_not_isExportLine h.1, List.nil_append,
      ih h.2, List.length_cons, Nat.add_right_comm, Nat.add_assoc]

/-- **The entries of a written text**: they are those it was written for, in their order. -/
theorem unplaced_moduleEntries_barrelText (before : String) (hne : entries ≠ [])
    (h : ∀ e ∈ entries, e.WellFormed) :
    (moduleEntries (barrelText before entries)).map Entry.unplaced = arranged entries := by
  rw [moduleEntries, lines_barrelText before hne h, linesEntries_of_not_isExportLine
    fun row hrow => not_isExportLine_of_mem_prologue hrow]
  exact (spells_statements h).unplaced_linesEntries _

/-- The prologue stays the same. -/
theorem prologue_barrelText (before : String) (hne : entries ≠ [])
    (h : ∀ e ∈ entries, e.WellFormed) :
    prologue (barrelText before entries).toList = prologue before.toList := by
  have hkept : ∀ row ∈ prologue before.toList, (!isExportLine row) = true := fun row hrow => by
    rw [not_isExportLine_of_mem_prologue hrow]
    rfl
  have hstop : ((sources entries).flatMap (sourceStatements entries)).takeWhile
      (!isExportLine ·) = [] := by
    rw [List.takeWhile_eq_nil_iff]
    intro hlen
    rw [(spells_statements h).isExportLine _ (List.get_mem _ _)]
    decide
  have htelling : ∀ row ∈ prologue before.toList, isTelling row = true := fun row hrow =>
    (List.mem_filter.1 hrow).2
  rw [prologue, lines_barrelText before hne h, List.takeWhile_append_of_pos hkept, hstop,
    List.append_nil, List.filter_eq_self.2 htelling]

/-- Of the text before, only the prologue counts. -/
theorem barrelText_congr {before before' : String} (hne : entries ≠ [])
    (h : prologue before.toList = prologue before'.toList) :
    barrelText before entries = barrelText before' entries := by
  have hempty : entries.isEmpty = false := by simpa using hne
  rw [barrelText, barrelText, hempty, h]
  rfl

/-- Entries arranged alike are written alike. -/
theorem barrelText_arranged (before : String) (entries : List Entry) :
    barrelText before (arranged entries) = barrelText before entries := by
  have hempty : (arranged entries).isEmpty = entries.isEmpty := by
    rw [Bool.eq_iff_iff, List.isEmpty_iff, List.isEmpty_iff, List.eq_nil_iff_forall_not_mem,
      List.eq_nil_iff_forall_not_mem]
    simp [mem_arranged_iff]
  rw [barrelText, hempty, sources_arranged, funext (sourceStatements_arranged entries)]
  rfl

/-- **One text, one arrangement.** Written after one prologue, two lists of entries give one text
exactly if they are arranged alike. -/
theorem barrelText_eq_iff (before : String) {left right : List Entry} (hleft : left ≠ [])
    (hright : right ≠ []) (hwl : ∀ e ∈ left, e.WellFormed) (hwr : ∀ e ∈ right, e.WellFormed) :
    barrelText before left = barrelText before right ↔ arranged left = arranged right := by
  constructor
  · intro h
    rw [← unplaced_moduleEntries_barrelText before hleft hwl, h,
      unplaced_moduleEntries_barrelText before hright hwr]
  · intro h
    rw [← barrelText_arranged before left, h, barrelText_arranged]

end Reexport
