import Mathlib.Data.List.AList
import JumpIR.Proofs.Symbol.Definitions

/-!
# Histories of a symbol table

A table comes about by insertions, some of which are rejected, and by types that are recorded
later. Whatever their order, its entries are the first insertions of each name, numbered in that
order, and a name finds the one entry that carries it. `Indexed` keeps an index of names beside its
entries; it gives the same answers, so the index and the entries stay inverse to each other. Main
statement: `table_of_history`.
-/

set_option autoImplicit false

namespace JumpIR.SymbolTable

open JumpIR.Tree (untyped)

/-! ### Changes -/

/-- What a table may be asked for: a name that may be taken, or another type for an entry. -/
inductive Change where
  | insert (info : SymbolInfo)
  | retype (id : SymbolId) (type : Option Tree.TypeExpr)

/-- The new symbol, or else the one that holds the name. -/
def Insertion.answer : Insertion → Except SymbolId SymbolId
  | .added id _ => .ok id
  | .taken holder => .error holder

/-- The table with that type, or none, in the entry of a symbol. -/
def retype (table : SymbolTable) (id : SymbolId) (type : Option Tree.TypeExpr) : SymbolTable :=
  ⟨table.infos.modify id.index fun info => { info with type := type }⟩

/-- A rejected insertion leaves the table as it is. -/
def change (table : SymbolTable) : Change → SymbolTable
  | .insert info =>
      match table.insert info with
      | .added _ grown => grown
      | .taken _ => table
  | .retype id type => table.retype id type

def after (table : SymbolTable) (changes : List Change) : SymbolTable := changes.foldl change table

/-- The symbols that are given out in a history, each with what was inserted under it. -/
def added (table : SymbolTable) : List Change → List (SymbolId × SymbolInfo)
  | [] => []
  | .insert info :: rest =>
      match table.insert info with
      | .added id grown => (id, info) :: grown.added rest
      | .taken _ => table.added rest
  | .retype id type :: rest => (table.retype id type).added rest

/-- The insertions of names that are not known and that no earlier insertion has. -/
def firstInsertions (known : List String) : List Change → List SymbolInfo
  | [] => []
  | .insert info :: rest =>
      if info.name ∈ known then firstInsertions known rest
      else info :: firstInsertions (known ++ [info.name]) rest
  | .retype _ _ :: rest => firstInsertions known rest

/-- Items with the symbols that are given to them in order. -/
def numbered (first : Nat) (infos : List SymbolInfo) : List (SymbolId × SymbolInfo) :=
  (infos.zipIdx first).map fun (info, index) => (⟨index⟩, info)

/-! ### Single changes -/

variable {infos : List SymbolInfo} {info : SymbolInfo} {name : String} {id : SymbolId}

theorem eq_ofList (table : SymbolTable) : table = ofList table.infos.toList := rfl

/-- A look-up depends on the names alone. -/
theorem lookup?_names : (ofList infos).lookup? name =
    ((infos.map (·.name)).findIdx? (· == name)).map SymbolId.mk := by
  rw [lookup?_ofList, List.findIdx?_map]
  rfl

theorem map_modify {α β : Type} {f : α → α} {g : α → β} (same : ∀ a, g (f a) = g a)
    (list : List α) : ∀ index, (list.modify index f).map g = list.map g := by
  induction list with
  | nil => intro index; cases index <;> rfl
  | cons a rest ih =>
      intro index
      cases index with
      | zero => rw [List.modify_zero_cons, List.map_cons, List.map_cons, same]
      | succ index => rw [List.modify_succ_cons, List.map_cons, List.map_cons, ih]

/-- Another type leaves all else of the entries as it is. -/
theorem exists_retype (infos : List SymbolInfo) (id : SymbolId) (type : Option Tree.TypeExpr) :
    ∃ later, (ofList infos).retype id type = ofList later ∧
      later.map untyped = infos.map untyped ∧ later.map (·.name) = infos.map (·.name) := by
  let typed (info : SymbolInfo) : SymbolInfo := { info with type := type }
  have rest : ∀ info, untyped (typed info) = untyped info := fun _ => rfl
  have name : ∀ info, (typed info).name = info.name := fun _ => rfl
  refine ⟨infos.modify id.index typed, ?_, map_modify rest infos id.index,
    map_modify name infos id.index⟩
  unfold retype ofList
  congr 1
  apply Array.ext'
  rw [Array.toList_modify]

/-! ### Histories -/

/-- The entries are the first insertions, in order and but for their types. -/
theorem after_ofList (changes : List Change) : ∀ {infos : List SymbolInfo},
    (infos.map (·.name)).Nodup → ∃ later, (ofList infos).after changes = ofList later ∧
      later.map untyped =
        (infos ++ firstInsertions (infos.map (·.name)) changes).map untyped ∧
      (later.map (·.name)).Nodup ∧
      (ofList infos).added changes =
        numbered infos.length (firstInsertions (infos.map (·.name)) changes) := by
  induction changes with
  | nil =>
      intro infos distinct
      refine ⟨infos, rfl, ?_, distinct, rfl⟩
      rw [firstInsertions, List.append_nil]
  | cons first rest ih =>
      intro infos distinct
      cases first with
      | insert info =>
          by_cases there : info.name ∈ infos.map (·.name)
          · rcases insert_taken there with ⟨holder, _entry, taken, _found⟩
            rw [after, List.foldl_cons, change, added, taken, firstInsertions, if_pos there]
            exact ih distinct
          · have grown := insert_fresh there
            rw [after, List.foldl_cons, change, added, grown, firstInsertions, if_neg there]
            rcases ih (Tree.Definitions.nodup_concat info distinct there)
              with ⟨later, reached, entries, apart, given⟩
            have names : (infos ++ [info]).map (·.name) = infos.map (·.name) ++ [info.name] :=
              List.map_append
            rw [names] at entries given
            refine ⟨later, reached, ?_, apart, ?_⟩
            · rw [entries, List.append_assoc, List.singleton_append]
            · dsimp only
              rw [given, List.length_append]
              rfl
      | retype id type =>
          rcases exists_retype infos id type with ⟨typed, same, entries, names⟩
          rw [after, List.foldl_cons, change, added, same, firstInsertions]
          rcases ih (names.symm ▸ distinct) with ⟨later, reached, listed, apart, given⟩
          have size := congrArg List.length names
          rw [List.length_map, List.length_map] at size
          rw [List.map_append, entries, names, ← List.map_append] at listed
          rw [names, size] at given
          exact ⟨later, reached, listed, apart, given⟩

/-! ### Variants -/

theorem mem_entries {table : SymbolTable} :
    (id, info) ∈ table.entries ↔ table.get? id = some info := by
  unfold entries get?
  rw [List.mem_map]
  constructor
  · intro listed
    rcases listed with ⟨⟨entry, index⟩, position, same⟩
    cases same
    rw [List.mem_zipIdx_iff_getElem?, Array.getElem?_toList] at position
    exact position
  · intro here
    refine ⟨(info, id.index), ?_, rfl⟩
    rw [List.mem_zipIdx_iff_getElem?, Array.getElem?_toList]
    exact here

theorem mem_variantsOf {table : SymbolTable} {parent : SymbolId} :
    (id, info) ∈ table.variantsOf parent ↔
      table.get? id = some info ∧ info.parent = some parent := by
  unfold variantsOf
  rw [List.mem_filter, mem_entries]
  simp

theorem indices_entries (table : SymbolTable) :
    table.entries.map (·.1.index) = List.range table.size := by
  unfold entries
  rw [List.map_map]
  rw [List.range_eq_range']
  exact List.zipIdx_map_snd 0 _

theorem variantsOf_increasing (table : SymbolTable) (parent : SymbolId) :
    (table.variantsOf parent).Pairwise fun a b => a.1.index < b.1.index := by
  have increasing := List.pairwise_lt_range (n := table.size)
  rw [← indices_entries, List.pairwise_map] at increasing
  exact increasing.filter _

/-! ### An index of names -/

/-- A table with an index that tells the symbol of each name. -/
structure Indexed where
  infos : Array SymbolInfo
  symbols : AList fun _ : String => SymbolId

namespace Indexed

def empty : Indexed := ⟨#[], ∅⟩

/-- The index alone decides whether a name is there. -/
def insert (table : Indexed) (info : SymbolInfo) : Except SymbolId SymbolId × Indexed :=
  match table.symbols.lookup info.name with
  | some holder => (.error holder, table)
  | none =>
      let id : SymbolId := ⟨table.infos.size⟩
      (.ok id, ⟨table.infos.push info, table.symbols.insert info.name id⟩)

def change (table : Indexed) : Change → Indexed
  | .insert info => (table.insert info).2
  | .retype id type =>
      { table with infos := table.infos.modify id.index fun info => { info with type := type } }

def after (table : Indexed) (changes : List Change) : Indexed := changes.foldl change table

/-- The entries are the same, and the index tells what a search among them finds. -/
structure Tracks (indexed : Indexed) (table : SymbolTable) : Prop where
  infos : indexed.infos = table.infos
  symbols : ∀ name, indexed.symbols.lookup name = table.lookup? name

variable {indexed : Indexed} {table : SymbolTable}

theorem Tracks.answer (tracks : Tracks indexed table) (info : SymbolInfo) :
    (indexed.insert info).1 = (table.insert info).answer := by
  unfold Indexed.insert SymbolTable.insert
  rw [tracks.symbols, tracks.infos]
  cases table.lookup? info.name with
  | none => rfl
  | some holder => rfl

theorem lookup?_push (table : SymbolTable) {info : SymbolInfo}
    (fresh : table.lookup? info.name = none) (name : String) :
    lookup? ⟨table.infos.push info⟩ name =
      if name = info.name then some ⟨table.size⟩ else table.lookup? name := by
  have grown : (⟨table.infos.push info⟩ : SymbolTable) = ofList (table.infos.toList ++ [info]) := by
    unfold ofList
    congr 1
    apply Array.ext'
    simp
  rw [table.eq_ofList, lookup?_ofList, Option.map_eq_none_iff] at fresh
  rw [grown, lookup?_ofList, List.findIdx?_append]
  by_cases same : name = info.name
  · subst same
    rw [if_pos rfl, fresh]
    simp [size]
  · rw [if_neg same]
    have apart : (info.name == name) = false := beq_eq_false_iff_ne.mpr (Ne.symm same)
    conv => rhs; rw [table.eq_ofList, lookup?_ofList]
    simp [apart]

/-- Every change keeps the index and the entries together. -/
theorem Tracks.change (tracks : Tracks indexed table) (c : Change) :
    Tracks (indexed.change c) (table.change c) := by
  cases c with
  | insert info =>
      rw [Indexed.change, SymbolTable.change, Indexed.insert, SymbolTable.insert, tracks.symbols]
      cases found : table.lookup? info.name with
      | some holder => exact tracks
      | none =>
          dsimp only
          rw [tracks.infos]
          refine ⟨rfl, fun name => ?_⟩
          rw [lookup?_push table found]
          by_cases same : name = info.name
          · rw [if_pos same, same, AList.lookup_insert]
            rfl
          · rw [if_neg same, AList.lookup_insert_ne same, tracks.symbols]
  | retype id type =>
      rcases exists_retype table.infos.toList id type with ⟨later, typed, _entries, names⟩
      rw [← table.eq_ofList] at typed
      refine ⟨?_, fun name => ?_⟩
      · rw [Indexed.change, SymbolTable.change, retype, tracks.infos]
      · rw [Indexed.change, SymbolTable.change, typed, tracks.symbols, lookup?_names, names,
          ← lookup?_names, ← table.eq_ofList]

theorem Tracks.after (changes : List Change) : ∀ {indexed : Indexed} {table : SymbolTable},
    Tracks indexed table → Tracks (indexed.after changes) (table.after changes) := by
  induction changes with
  | nil => exact fun tracks => tracks
  | cons c rest ih => exact fun tracks => ih (tracks.change c)

theorem tracks_empty : Tracks empty SymbolTable.empty where
  infos := rfl
  symbols name := by
    have absent : SymbolTable.empty.lookup? name = none := lookup?_ofList
    rw [absent]
    exact AList.lookup_empty name

end Indexed

/-! ### What a table shows -/

/-- The table holds what was inserted, numbered in that order, and every reader of it agrees. -/
structure Shows (table : SymbolTable) (inserted : List SymbolInfo) : Prop where
  /-- Entries differ from what was inserted in their types at most. -/
  entries : table.infos.toList.map untyped = inserted.map untyped
  distinct : (table.infos.toList.map (·.name)).Nodup
  lookup : ∀ name id, table.lookup? name = some id ↔
    ∃ info, table.get? id = some info ∧ info.name = name
  fresh : ∀ info, info.name ∉ inserted.map (·.name) →
    table.insert info = .added ⟨inserted.length⟩ ⟨table.infos.push info⟩
  taken : ∀ info, info.name ∈ inserted.map (·.name) → table.change (.insert info) = table ∧
    ∃ holder entry, table.insert info = .taken holder ∧ table.get? holder = some entry ∧
      entry.name = info.name
  variants : ∀ parent id info, (id, info) ∈ table.variantsOf parent ↔
    table.get? id = some info ∧ info.parent = some parent
  increasing : ∀ parent, (table.variantsOf parent).Pairwise fun a b => a.1.index < b.1.index

theorem shows_ofList {inserted : List SymbolInfo} (distinct : (infos.map (·.name)).Nodup)
    (entries : infos.map untyped = inserted.map untyped) : Shows (ofList infos) inserted := by
  have names : infos.map (·.name) = inserted.map (·.name) := by
    rw [← Tree.names_untyped, entries, Tree.names_untyped]
  have size : infos.length = inserted.length := by
    rw [← List.length_map (·.name), names, List.length_map]
  refine ⟨entries, distinct, fun name id => ?_, fun info unused => ?_,
    fun info there => ?_, fun _ _ _ => mem_variantsOf, variantsOf_increasing _⟩
  · rw [lookup?_eq_some distinct]
    simp only [get?_ofList]
  · rw [insert_fresh (names ▸ unused), size]
    simp [ofList]
  · rcases insert_taken (names ▸ there) with ⟨holder, entry, taken, _found, here, same⟩
    refine ⟨?_, holder, entry, taken, here, same⟩
    rw [change, taken]

theorem indices_numbered (first : Nat) (infos : List SymbolInfo) :
    (numbered first infos).map (·.1.index) = List.range' first infos.length := by
  unfold numbered
  rw [List.map_map]
  exact List.zipIdx_map_snd first infos

/-- Whatever a new table was asked for, it shows the first insertions of each name. The symbols that
were given out count from zero, and recording a type is one more change. A table with an index of
its names holds the same entries and gives the same answers. -/
theorem table_of_history (changes : List Change) :
    Shows (empty.after changes) (firstInsertions [] changes) ∧
    empty.added changes = numbered 0 (firstInsertions [] changes) ∧
    (empty.added changes).map (·.1.index) = List.range (empty.after changes).size ∧
    (∀ id type, (empty.after changes).setType id type =
      empty.after (changes ++ [.retype id (some type)])) ∧
    (Indexed.empty.after changes).infos = (empty.after changes).infos ∧
    (∀ name, (Indexed.empty.after changes).symbols.lookup name =
      (empty.after changes).lookup? name) ∧
    ∀ info, ((Indexed.empty.after changes).insert info).1 =
      ((empty.after changes).insert info).answer := by
  have tracks := Indexed.tracks_empty.after changes
  have blank : empty = ofList [] := rfl
  rcases @after_ofList changes [] List.nodup_nil with ⟨later, reached, entries, distinct, given⟩
  rw [← blank] at reached given
  have shown := shows_ofList distinct entries
  rw [← reached] at shown
  refine ⟨shown, given, ?_, fun id type => ?_, tracks.infos, tracks.symbols, tracks.answer⟩
  · have size := congrArg List.length shown.entries
    rw [List.length_map, List.length_map] at size
    rw [given, List.range_eq_range', SymbolTable.size, ← Array.length_toList, size]
    exact indices_numbered 0 _
  · exact (List.foldl_concat change empty (.retype id (some type)) changes).symm

end JumpIR.SymbolTable
