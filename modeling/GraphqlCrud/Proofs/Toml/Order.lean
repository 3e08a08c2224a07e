import Mathlib.Data.List.Infix
import GraphqlCrud.Toml.Reader
/-!
What a document is read into: a table with its entries in the order of their keys, and so with each
key once, and the same of every table inside it. Every edit of a table keeps it so.
-/
namespace GraphqlCrud.Toml

/-- The entries of every table in a value stand in the order of their keys. -/
inductive Value.IsOrdered : Value → Prop where
  | text (value : String) : IsOrdered (.text value)
  | flag (value : Bool) : IsOrdered (.flag value)
  | integer : IsOrdered .integer
  | float : IsOrdered .float
  | moment : IsOrdered .moment
  | array {items : List Value} {isOfTables : Bool} (inside : ∀ item ∈ items, item.IsOrdered) :
      IsOrdered (.array items isOfTables)
  | table {origin : Origin} {entries : Entries} (ascending : entries.Pairwise (·.1 < ·.1))
      (inside : ∀ entry ∈ entries, entry.2.IsOrdered) : IsOrdered (.table origin entries)

/-- Entries that make an ordered table, whatever its origin. -/
def Entries.IsOrdered (entries : Entries) : Prop :=
  entries.Pairwise (·.1 < ·.1) ∧ ∀ entry ∈ entries, entry.2.IsOrdered

theorem Value.isOrdered_table_iff {origin : Origin} {entries : Entries} :
    (Value.table origin entries).IsOrdered ↔ entries.IsOrdered := by
  constructor
  · rintro (_ | _ | _ | _ | _ | _ | ⟨ascending, inside⟩)
    exact ⟨ascending, inside⟩
  · rintro ⟨ascending, inside⟩
    exact .table ascending inside

theorem Value.isOrdered_array_iff {items : List Value} {isOfTables : Bool} :
    (Value.array items isOfTables).IsOrdered ↔ ∀ item ∈ items, item.IsOrdered := by
  constructor
  · rintro (_ | _ | _ | _ | _ | inside | _)
    exact inside
  · exact .array

namespace Entries

theorem isOrdered_nil : IsOrdered [] :=
  ⟨.nil, fun _ impossible => absurd impossible List.not_mem_nil⟩

theorem IsOrdered.nodup_keys {entries : Entries} (ordered : entries.IsOrdered) :
    (entries.map (·.1)).Nodup := by
  refine List.pairwise_map.mpr (ordered.1.imp ?_)
  intro a b less same
  exact String.lt_irrefl _ (same ▸ less)

theorem mem_of_find? {entries : Entries} {key : String} {value : Value}
    (found : entries.find? key = some value) : (key, value) ∈ entries := by
  unfold find? at found
  obtain ⟨before, after, rfl, -⟩ := List.lookup_eq_some_iff.mp found
  simp

theorem IsOrdered.find?_of_mem {entries : Entries} (ordered : entries.IsOrdered)
    {entry : String × Value} (mem : entry ∈ entries) : entries.find? entry.1 = some entry.2 := by
  obtain ⟨before, after, rfl⟩ := List.append_of_mem mem
  refine List.lookup_eq_some_iff.mpr ⟨before, after, rfl, fun earlier earlier_mem => ?_⟩
  have less : earlier.1 < entry.1 :=
    (List.pairwise_append.mp ordered.1).2.2 earlier earlier_mem entry List.mem_cons_self
  rw [bne_iff_ne]
  intro same
  exact String.lt_irrefl _ (same ▸ less)

theorem IsOrdered.of_find? {entries : Entries} (ordered : entries.IsOrdered) {key : String}
    {value : Value} (found : entries.find? key = some value) : value.IsOrdered :=
  ordered.2 _ (mem_of_find? found)

theorem mem_put {key : String} {value : Value} {entries : Entries} {entry : String × Value}
    (mem : entry ∈ put key value entries) : entry = (key, value) ∨ entry ∈ entries := by
  induction entries with
  | nil => simpa [put] using mem
  | cons first rest ih =>
    obtain ⟨k, v⟩ := first
    simp only [put] at mem
    split at mem
    · grind
    · split at mem <;> grind

theorem pairwise_put (key : String) (value : Value) {entries : Entries}
    (ascending : entries.Pairwise (·.1 < ·.1)) :
    (put key value entries).Pairwise (·.1 < ·.1) := by
  induction entries with
  | nil => exact List.pairwise_singleton _ _
  | cons first rest ih =>
    obtain ⟨k, v⟩ := first
    obtain ⟨above, below⟩ := List.pairwise_cons.mp ascending
    simp only [put]
    split
    case isTrue same =>
      subst same
      exact List.pairwise_cons.mpr ⟨above, below⟩
    case isFalse different =>
      split
      case isTrue less =>
        refine List.pairwise_cons.mpr ⟨fun entry mem => ?_, ascending⟩
        rcases List.mem_cons.mp mem with rfl | mem
        · exact less
        · exact String.lt_trans less (above entry mem)
      case isFalse notLess =>
        refine List.pairwise_cons.mpr ⟨fun entry mem => ?_, ih below⟩
        rcases mem_put mem with rfl | mem
        · exact Std.lt_of_le_of_ne (String.not_lt.mp notLess) different
        · exact above entry mem

theorem IsOrdered.put {entries : Entries} (ordered : entries.IsOrdered) (key : String)
    {value : Value} (value_ordered : value.IsOrdered) : (put key value entries).IsOrdered := by
  refine ⟨pairwise_put key value ordered.1, fun entry mem => ?_⟩
  rcases mem_put mem with rfl | mem
  · exact value_ordered
  · exact ordered.2 entry mem

end Entries

/-! ### Edits -/

/-- An edit of a table that keeps the order of its keys. -/
def KeepsOrder (edit : Origin → Entries → Option Value) : Prop :=
  ∀ origin entries table, entries.IsOrdered → edit origin entries = some table → table.IsOrdered

theorem addKey_keepsOrder (isDotted : Bool) (key : String) {value : Value}
    (ordered : value.IsOrdered) : KeepsOrder (addKey isDotted key value) := by
  intro origin entries table entries_ordered added
  unfold addKey at added
  split at added
  · cases added
  · split at added
    · cases added
    · cases added
      exact Value.isOrdered_table_iff.mpr (entries_ordered.put key ordered)

theorem addHeader_keepsOrder (key : String) : KeepsOrder (addHeader key) := by
  intro origin entries table ordered added
  unfold addHeader at added
  split at added
  case h_1 =>
    cases added
    exact Value.isOrdered_table_iff.mpr
      (ordered.put key (Value.isOrdered_table_iff.mpr Entries.isOrdered_nil))
  case h_2 children found =>
    cases added
    have children_ordered := Value.isOrdered_table_iff.mp (ordered.of_find? found)
    exact Value.isOrdered_table_iff.mpr
      (ordered.put key (Value.isOrdered_table_iff.mpr children_ordered))
  case h_3 => cases added

theorem addToArray_keepsOrder (key : String) : KeepsOrder (addToArray key) := by
  intro origin entries table ordered added
  have empty_ordered : (Value.table .headed []).IsOrdered :=
    Value.isOrdered_table_iff.mpr Entries.isOrdered_nil
  unfold addToArray at added
  split at added
  case h_1 =>
    cases added
    refine Value.isOrdered_table_iff.mpr (ordered.put key (.array fun item mem => ?_))
    rw [List.mem_singleton.mp mem]
    exact empty_ordered
  case h_2 items found =>
    cases added
    have items_ordered := Value.isOrdered_array_iff.mp (ordered.of_find? found)
    refine Value.isOrdered_table_iff.mpr (ordered.put key (.array fun item mem => ?_))
    rcases List.mem_append.mp mem with mem | mem
    · exact items_ordered item mem
    · rw [List.mem_singleton.mp mem]
      exact empty_ordered
  case h_3 => cases added

theorem editAt_keepsOrder (made : Origin) {edit : Origin → Entries → Option Value}
    (keeps : KeepsOrder edit) (path : List String) : KeepsOrder (editAt made edit path) := by
  induction path with
  | nil => exact keeps
  | cons key path ih =>
    intro origin entries table ordered edited
    simp only [editAt] at edited
    split at edited
    case h_1 =>
      obtain ⟨child, reached, rfl⟩ := Option.map_eq_some_iff.mp edited
      have child_ordered := ih made [] child Entries.isOrdered_nil reached
      exact Value.isOrdered_table_iff.mpr (ordered.put key child_ordered)
    case h_2 childOrigin children found =>
      have children_ordered := Value.isOrdered_table_iff.mp (ordered.of_find? found)
      split at edited
      · cases edited
      · obtain ⟨child, reached, rfl⟩ := Option.map_eq_some_iff.mp edited
        have child_ordered := ih childOrigin children child children_ordered reached
        exact Value.isOrdered_table_iff.mpr (ordered.put key child_ordered)
    case h_3 items found =>
      have items_ordered := Value.isOrdered_array_iff.mp (ordered.of_find? found)
      split at edited
      case h_1 childOrigin children last =>
        obtain ⟨child, reached, rfl⟩ := Option.map_eq_some_iff.mp edited
        have children_ordered :=
          Value.isOrdered_table_iff.mp (items_ordered _ (List.mem_of_getLast? last))
        have child_ordered := ih childOrigin children child children_ordered reached
        refine Value.isOrdered_table_iff.mpr (ordered.put key (.array fun item mem => ?_))
        rcases List.mem_append.mp mem with mem | mem
        · exact items_ordered item (List.mem_of_mem_dropLast mem)
        · rw [List.mem_singleton.mp mem]
          exact child_ordered
      case h_2 => cases edited
    case h_4 => cases edited

theorem assign_keepsOrder (path : List String) {value : Value} (ordered : value.IsOrdered) :
    KeepsOrder (assign path value) := by
  intro origin entries table entries_ordered assigned
  unfold assign at assigned
  split at assigned
  · cases assigned
  · exact editAt_keepsOrder .dotted (addKey_keepsOrder _ _ ordered) path.dropLast origin entries
      table entries_ordered assigned

theorem bracedTable?_isOrdered {pairs : List (List String × Value)} {table : Value}
    (inside : ∀ pair ∈ pairs, pair.2.IsOrdered) (made : bracedTable? pairs = some table) :
    table.IsOrdered := by
  have start : (Value.table .braced []).IsOrdered :=
    Value.isOrdered_table_iff.mpr Entries.isOrdered_nil
  unfold bracedTable? at made
  generalize Value.table .braced [] = soFar at start made
  induction pairs generalizing soFar with
  | nil =>
    cases made
    exact start
  | cons pair pairs ih =>
    rw [List.foldlM_cons] at made
    obtain ⟨next, assigned, rest⟩ := Option.bind_eq_some_iff.mp made
    refine ih (fun p mem => inside p (List.mem_cons_of_mem _ mem)) next ?_ rest
    split at assigned
    · exact assign_keepsOrder pair.1 (inside pair List.mem_cons_self) _ _ next
        (Value.isOrdered_table_iff.mp start) assigned
    · cases assigned

/-! ### Reading -/

theorem valueOfWord?_isOrdered {word : List Char} {value : Value}
    (known : valueOfWord? word = some value) : value.IsOrdered := by
  unfold valueOfWord? at known
  split at known
  · cases known
    exact .flag true
  split at known
  · cases known
    exact .flag false
  split at known
  · cases known
    exact .integer
  split at known
  · cases known
    exact .float
  split at known
  · cases known
    exact .moment
  · cases known

theorem scalar?_isOrdered {s rest : List Char} {value : Value}
    (read : scalar? s = some (value, rest)) : value.IsOrdered := by
  unfold scalar? at read
  split at read
  case h_5 =>
    obtain ⟨found, known, same⟩ := Option.bind_eq_some_iff.mp read
    cases same
    exact valueOfWord?_isOrdered known
  all_goals
    obtain ⟨content, -, same⟩ := Option.bind_eq_some_iff.mp read
    cases same
    exact .text _

variable {depth : Nat}

/-- What the three readers of values find with one supply is ordered. -/
def ReadsOrdered (depth supply : Nat) : Prop :=
  (∀ room s value rest, value? depth supply room s = some (value, rest) → value.IsOrdered) ∧
  (∀ room s items rest, items? depth supply room s = some (items, rest) →
    ∀ item ∈ items, item.IsOrdered) ∧
  ∀ room s pairs rest, pairs? depth supply room s = some (pairs, rest) →
    ∀ pair ∈ pairs, pair.2.IsOrdered

theorem value?_isOrdered_succ {supply : Nat} (smaller : ReadsOrdered depth supply) {room : Nat}
    {s rest : List Char} {value : Value}
    (read : value? depth (supply + 1) room s = some (value, rest)) : value.IsOrdered := by
  obtain ⟨-, items_ordered, pairs_ordered⟩ := smaller
  unfold value? at read
  split at read
  · cases read
  · cases read
  · obtain ⟨⟨items, _⟩, found, same⟩ := Option.bind_eq_some_iff.mp read
    cases same
    exact .array (items_ordered _ _ items _ found)
  · obtain ⟨⟨pairs, _⟩, found, made⟩ := Option.bind_eq_some_iff.mp read
    obtain ⟨table, braced, same⟩ := Option.bind_eq_some_iff.mp made
    cases same
    exact bracedTable?_isOrdered (pairs_ordered _ _ pairs _ found) braced
  · exact scalar?_isOrdered read

theorem items?_isOrdered_succ {supply : Nat} (smaller : ReadsOrdered depth supply) {room : Nat}
    {s rest : List Char} {items : List Value}
    (read : items? depth (supply + 1) room s = some (items, rest)) :
    ∀ item ∈ items, item.IsOrdered := by
  obtain ⟨value_ordered, items_ordered, -⟩ := smaller
  unfold items? at read
  obtain ⟨start, -, read⟩ := Option.bind_eq_some_iff.mp read
  split at read
  · cases read
    simp
  · obtain ⟨⟨item, afterItem⟩, itemRead, read⟩ := Option.bind_eq_some_iff.mp read
    have item_ordered := value_ordered _ _ item _ itemRead
    obtain ⟨next, -, read⟩ := Option.bind_eq_some_iff.mp read
    split at read
    · obtain ⟨⟨more, _⟩, moreRead, same⟩ := Option.bind_eq_some_iff.mp read
      cases same
      exact List.forall_mem_cons.mpr ⟨item_ordered, items_ordered _ _ more _ moreRead⟩
    · cases read
      simpa using item_ordered
    · cases read

theorem pairs?_isOrdered_succ {supply : Nat} (smaller : ReadsOrdered depth supply) {room : Nat}
    {s rest : List Char} {pairs : List (List String × Value)}
    (read : pairs? depth (supply + 1) room s = some (pairs, rest)) :
    ∀ pair ∈ pairs, pair.2.IsOrdered := by
  obtain ⟨value_ordered, -, pairs_ordered⟩ := smaller
  unfold pairs? at read
  obtain ⟨start, -, read⟩ := Option.bind_eq_some_iff.mp read
  split at read
  · cases read
    simp
  · obtain ⟨⟨path, afterPath⟩, -, read⟩ := Option.bind_eq_some_iff.mp read
    obtain ⟨next, -, read⟩ := Option.bind_eq_some_iff.mp read
    split at read
    · obtain ⟨valueStart, -, read⟩ := Option.bind_eq_some_iff.mp read
      obtain ⟨⟨value, afterValue⟩, valueRead, read⟩ := Option.bind_eq_some_iff.mp read
      have value_ordered := value_ordered _ _ value _ valueRead
      obtain ⟨next, -, read⟩ := Option.bind_eq_some_iff.mp read
      split at read
      · obtain ⟨⟨more, _⟩, moreRead, same⟩ := Option.bind_eq_some_iff.mp read
        cases same
        exact List.forall_mem_cons.mpr ⟨value_ordered, pairs_ordered _ _ more _ moreRead⟩
      · cases read
        simpa using value_ordered
      · cases read
    · cases read

theorem readsOrdered (depth supply : Nat) : ReadsOrdered depth supply := by
  induction supply with
  | zero =>
    refine ⟨?_, ?_, ?_⟩
    · intro room s value rest read
      simp [value?] at read
    · intro room s items rest read
      simp [items?] at read
    · intro room s pairs rest read
      simp [pairs?] at read
  | succ supply ih =>
    exact ⟨fun _ _ _ _ => value?_isOrdered_succ ih, fun _ _ _ _ => items?_isOrdered_succ ih,
      fun _ _ _ _ => pairs?_isOrdered_succ ih⟩

/-- The value that a statement gives a key is ordered. -/
def Statement.IsOrdered : Statement → Prop
  | .pair _ value => value.IsOrdered
  | _ => True

theorem statement?_isOrdered {supply : Nat} {s rest : List Char} {statement : Statement}
    (read : statement? depth supply s = some (statement, rest)) : statement.IsOrdered := by
  unfold statement? at read
  split at read
  · obtain ⟨⟨path, after⟩, -, read⟩ := Option.bind_eq_some_iff.mp read
    split at read
    · cases read
      trivial
    · cases read
  · obtain ⟨⟨path, after⟩, -, read⟩ := Option.bind_eq_some_iff.mp read
    split at read
    · cases read
      trivial
    · cases read
  · obtain ⟨⟨path, after⟩, -, read⟩ := Option.bind_eq_some_iff.mp read
    split at read
    · obtain ⟨⟨value, _⟩, valueRead, same⟩ := Option.bind_eq_some_iff.mp read
      cases same
      exact (readsOrdered depth supply).1 _ _ value _ valueRead
    · cases read

theorem statements?_isOrdered {supply : Nat} {s : List Char} {statements : List Statement}
    (read : statements? depth supply s = some statements) :
    ∀ statement ∈ statements, statement.IsOrdered := by
  induction supply generalizing s statements with
  | zero => cases read
  | succ supply ih =>
    unfold statements? at read
    obtain ⟨start, -, read⟩ := Option.bind_eq_some_iff.mp read
    split at read
    · cases read
      simp
    · obtain ⟨⟨statement, after⟩, first, read⟩ := Option.bind_eq_some_iff.mp read
      obtain ⟨next, -, read⟩ := Option.bind_eq_some_iff.mp read
      obtain ⟨more, moreRead, same⟩ := Option.bind_eq_some_iff.mp read
      cases same
      exact List.forall_mem_cons.mpr ⟨statement?_isOrdered first, ih moreRead⟩

theorem Assembly.withRoot?_isOrdered {current : List String} {root : Option Value} {a : Assembly}
    (ordered : ∀ table, root = some table → table.IsOrdered)
    (made : Assembly.withRoot? current root = some a) : a.entries.IsOrdered := by
  unfold Assembly.withRoot? at made
  split at made
  · cases made
    exact Value.isOrdered_table_iff.mp (ordered _ rfl)
  · cases made

theorem Assembly.add_isOrdered {a next : Assembly} {statement : Statement}
    (ordered : a.entries.IsOrdered) (statement_ordered : statement.IsOrdered)
    (added : a.add statement = some next) : next.entries.IsOrdered := by
  cases statement with
  | header path =>
    obtain ⟨key, -, made⟩ := Option.bind_eq_some_iff.mp added
    refine Assembly.withRoot?_isOrdered (fun table edited => ?_) made
    exact editAt_keepsOrder _ (addHeader_keepsOrder key) _ _ _ table ordered edited
  | arrayHeader path =>
    obtain ⟨key, -, made⟩ := Option.bind_eq_some_iff.mp added
    refine Assembly.withRoot?_isOrdered (fun table edited => ?_) made
    exact editAt_keepsOrder _ (addToArray_keepsOrder key) _ _ _ table ordered edited
  | pair path value =>
    refine Assembly.withRoot?_isOrdered (fun table edited => ?_) added
    exact editAt_keepsOrder _ (assign_keepsOrder path statement_ordered) _ _ _ table ordered edited

theorem assemble?_isOrdered {statements : List Statement} {entries : Entries}
    (inside : ∀ statement ∈ statements, statement.IsOrdered)
    (made : assemble? statements = some entries) : entries.IsOrdered := by
  obtain ⟨last, run, rfl⟩ := Option.map_eq_some_iff.mp made
  have start : ({} : Assembly).entries.IsOrdered := Entries.isOrdered_nil
  clear made
  generalize ({} : Assembly) = a at start run
  induction statements generalizing a with
  | nil =>
    cases run
    exact start
  | cons statement statements ih =>
    rw [List.foldlM_cons] at run
    obtain ⟨next, added, rest⟩ := Option.bind_eq_some_iff.mp run
    obtain ⟨here, later⟩ := List.forall_mem_cons.mp inside
    exact ih later next (Assembly.add_isOrdered start here added) rest

/-- A document is read into tables that have each key once, in the order of the keys. -/
theorem readWithin?_isOrdered {source : String} {entries : Entries}
    (read : readWithin? depth source = some entries) : entries.IsOrdered := by
  obtain ⟨statements, listed, made⟩ := Option.bind_eq_some_iff.mp read
  exact assemble?_isOrdered (statements?_isOrdered listed) made

end GraphqlCrud.Toml
