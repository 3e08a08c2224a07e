import GraphqlCrud.Proofs.Toml.Order
/-!
How deep a document nests. The limit of the reader matters only to a document that nests deeper than
the limit: any other is read the same within it.
-/
namespace GraphqlCrud.Toml

/-- At most `depth` arrays and tables lie around one another in a value. -/
inductive Value.IsWithin : Nat → Value → Prop where
  | text {depth : Nat} (value : String) : IsWithin depth (.text value)
  | flag {depth : Nat} (value : Bool) : IsWithin depth (.flag value)
  | integer {depth : Nat} : IsWithin depth .integer
  | float {depth : Nat} : IsWithin depth .float
  | moment {depth : Nat} : IsWithin depth .moment
  | array {depth : Nat} {items : List Value} {isOfTables : Bool}
      (inside : ∀ item ∈ items, item.IsWithin depth) :
      IsWithin (depth + 1) (.array items isOfTables)
  | table {depth : Nat} {origin : Origin} {entries : Entries}
      (inside : ∀ entry ∈ entries, entry.2.IsWithin depth) :
      IsWithin (depth + 1) (.table origin entries)

namespace Value

theorem isWithin_array_iff {depth : Nat} {items : List Value} {isOfTables : Bool} :
    (Value.array items isOfTables).IsWithin depth ↔
      ∃ inner, depth = inner + 1 ∧ ∀ item ∈ items, item.IsWithin inner := by
  constructor
  · rintro (_ | _ | _ | _ | _ | inside | _)
    exact ⟨_, rfl, inside⟩
  · rintro ⟨inner, rfl, inside⟩
    exact .array inside

theorem isWithin_table_iff {depth : Nat} {origin : Origin} {entries : Entries} :
    (Value.table origin entries).IsWithin depth ↔
      ∃ inner, depth = inner + 1 ∧ ∀ entry ∈ entries, entry.2.IsWithin inner := by
  constructor
  · rintro (_ | _ | _ | _ | _ | _ | inside)
    exact ⟨_, rfl, inside⟩
  · rintro ⟨inner, rfl, inside⟩
    exact .table inside

/-- How a table came to be does not count. -/
theorem IsWithin.of_origin {depth : Nat} {origin : Origin} {entries : Entries}
    (within : (Value.table origin entries).IsWithin depth) (other : Origin) :
    (Value.table other entries).IsWithin depth :=
  isWithin_table_iff.mpr (isWithin_table_iff.mp within)

theorem IsWithin.mono {value : Value} {depth more : Nat} (within : value.IsWithin depth)
    (le : depth ≤ more) : value.IsWithin more := by
  induction within generalizing more with
  | text value => exact .text value
  | flag value => exact .flag value
  | integer => exact .integer
  | float => exact .float
  | moment => exact .moment
  | array _ ih =>
    obtain ⟨more, rfl⟩ := Nat.exists_eq_add_of_lt le
    exact .array fun item mem => ih item mem (by omega)
  | table _ ih =>
    obtain ⟨more, rfl⟩ := Nat.exists_eq_add_of_lt le
    exact .table fun entry mem => ih entry mem (by omega)

end Value

namespace Entries

theorem mem_put_self (key : String) (value : Value) (entries : Entries) :
    (key, value) ∈ entries.put key value := by
  induction entries with
  | nil => exact List.mem_singleton_self _
  | cons first rest ih =>
    obtain ⟨k, v⟩ := first
    simp only [put]
    split
    · exact List.mem_cons_self
    · split
      · exact List.mem_cons_self
      · exact List.mem_cons_of_mem _ ih

/-- An entry stays when a key is given a value, unless it is the one that had the key. -/
theorem mem_put_or_find? (key : String) (value : Value) {entries : Entries} {entry : String × Value}
    (mem : entry ∈ entries) : entry ∈ entries.put key value ∨ entries.find? key = some entry.2 := by
  induction entries with
  | nil => cases mem
  | cons first rest ih =>
    obtain ⟨k, v⟩ := first
    simp only [put]
    split
    case isTrue same =>
      subst same
      rcases List.mem_cons.mp mem with rfl | mem
      · exact .inr List.lookup_cons_self
      · exact .inl (List.mem_cons_of_mem _ mem)
    case isFalse different =>
      split
      · exact .inl (List.mem_cons_of_mem _ mem)
      · rcases List.mem_cons.mp mem with rfl | mem
        · exact .inl List.mem_cons_self
        · refine (ih mem).imp (List.mem_cons_of_mem _) fun found => ?_
          rw [find?, List.lookup_cons, beq_eq_false_iff_ne.mpr (Ne.symm different)]
          exact found

end Entries

/-! ### Edits -/

variable {depth : Nat}

/-- What is within a depth after an edit was so before, and the depth has to satisfy something. -/
def Deepens (edit : Origin → Entries → Option Value) (needs : Nat → Prop) : Prop :=
  ∀ origin entries table depth, edit origin entries = some table → table.IsWithin depth →
    (Value.table origin entries).IsWithin depth ∧ needs depth

/-- A table with a new value under a key was within the depth before when the old value was. -/
theorem within_of_put {origin : Origin} {key : String} {value : Value} {entries : Entries}
    (within : (Value.table origin (entries.put key value)).IsWithin depth) :
    ∃ inner, depth = inner + 1 ∧ value.IsWithin inner ∧
      ((∀ old, entries.find? key = some old → old.IsWithin inner) →
        (Value.table origin entries).IsWithin depth) := by
  obtain ⟨inner, rfl, inside⟩ := Value.isWithin_table_iff.mp within
  refine ⟨inner, rfl, inside _ (Entries.mem_put_self key value entries), fun old => ?_⟩
  refine .table fun entry mem => ?_
  rcases Entries.mem_put_or_find? key value mem with kept | found
  · exact inside entry kept
  · exact old entry.2 found

theorem within_of_put_new {origin : Origin} {key : String} {value : Value} {entries : Entries}
    (absent : entries.find? key = none)
    (within : (Value.table origin (entries.put key value)).IsWithin depth) :
    ∃ inner, depth = inner + 1 ∧ value.IsWithin inner ∧
      (Value.table origin entries).IsWithin depth := by
  obtain ⟨inner, deep, value_within, before⟩ := within_of_put within
  refine ⟨inner, deep, value_within, before fun old found => ?_⟩
  rw [absent] at found
  cases found

theorem within_of_put_over {origin : Origin} {key : String} {value old : Value}
    {entries : Entries} (present : entries.find? key = some old)
    (within : (Value.table origin (entries.put key value)).IsWithin depth) :
    ∃ inner, depth = inner + 1 ∧ value.IsWithin inner ∧
      (old.IsWithin inner → (Value.table origin entries).IsWithin depth) := by
  obtain ⟨inner, deep, value_within, before⟩ := within_of_put within
  refine ⟨inner, deep, value_within, fun old_within => before fun other found => ?_⟩
  rw [present] at found
  cases found
  exact old_within

theorem addKey_deepens (isDotted : Bool) (key : String) (value : Value) :
    Deepens (addKey isDotted key value) fun depth => ∃ inner < depth, value.IsWithin inner := by
  intro origin entries table depth added within
  unfold addKey at added
  split at added
  · cases added
  split at added
  · cases added
  case isFalse notSome =>
    cases added
    have absent := Option.not_isSome_iff_eq_none.mp notSome
    obtain ⟨inner, rfl, value_within, before⟩ := within_of_put_new absent within
    exact ⟨before, inner, Nat.lt_succ_self _, value_within⟩

theorem addHeader_deepens (key : String) : Deepens (addHeader key) fun depth => 0 < depth := by
  intro origin entries table depth added within
  unfold addHeader at added
  split at added
  case h_1 absent =>
    cases added
    obtain ⟨inner, rfl, -, before⟩ := within_of_put_new absent within
    exact ⟨before, Nat.succ_pos _⟩
  case h_2 children present =>
    cases added
    obtain ⟨inner, rfl, child_within, before⟩ := within_of_put_over present within
    exact ⟨before (child_within.of_origin .implied), Nat.succ_pos _⟩
  case h_3 => cases added

theorem addToArray_deepens (key : String) : Deepens (addToArray key) fun depth => 0 < depth := by
  intro origin entries table depth added within
  unfold addToArray at added
  split at added
  case h_1 absent =>
    cases added
    obtain ⟨inner, rfl, -, before⟩ := within_of_put_new absent within
    exact ⟨before, Nat.succ_pos _⟩
  case h_2 items present =>
    cases added
    obtain ⟨inner, rfl, child_within, before⟩ := within_of_put_over present within
    obtain ⟨innermost, rfl, inside⟩ := Value.isWithin_array_iff.mp child_within
    have old_within : (Value.array items true).IsWithin (innermost + 1) :=
      .array fun item mem => inside item (List.mem_append_left _ mem)
    exact ⟨before old_within, Nat.succ_pos _⟩
  case h_3 => cases added

/-- Every key of the path takes one level. -/
theorem editAt_deepens (made : Origin) {edit : Origin → Entries → Option Value} {needs : Nat → Prop}
    (deepens : Deepens edit needs) (path : List String) :
    Deepens (editAt made edit path) fun depth =>
      ∃ inner, path.length + inner ≤ depth ∧ needs inner := by
  induction path with
  | nil =>
    intro origin entries table depth edited within
    obtain ⟨before, need⟩ := deepens origin entries table depth edited within
    exact ⟨before, depth, by simp, need⟩
  | cons key path ih =>
    intro origin entries table depth edited within
    simp only [editAt] at edited
    split at edited
    case h_1 absent =>
      obtain ⟨child, reached, rfl⟩ := Option.map_eq_some_iff.mp edited
      obtain ⟨inner, rfl, child_within, before⟩ := within_of_put_new absent within
      obtain ⟨-, innermost, le, need⟩ := ih made [] child inner reached child_within
      exact ⟨before, innermost, by grind, need⟩
    case h_2 childOrigin children present =>
      split at edited
      · cases edited
      · obtain ⟨child, reached, rfl⟩ := Option.map_eq_some_iff.mp edited
        obtain ⟨inner, rfl, child_within, before⟩ := within_of_put_over present within
        obtain ⟨old_within, innermost, le, need⟩ :=
          ih childOrigin children child inner reached child_within
        exact ⟨before old_within, innermost, by grind, need⟩
    case h_3 items present =>
      split at edited
      case h_1 childOrigin children last =>
        obtain ⟨child, reached, rfl⟩ := Option.map_eq_some_iff.mp edited
        obtain ⟨inner, rfl, array_within, before⟩ := within_of_put_over present within
        obtain ⟨itemDepth, rfl, inside⟩ := Value.isWithin_array_iff.mp array_within
        have child_within := inside child (List.mem_append_right _ (List.mem_singleton_self _))
        obtain ⟨last_within, innermost, le, need⟩ :=
          ih childOrigin children child itemDepth reached child_within
        refine ⟨before (.array fun item mem => ?_), innermost, by grind, need⟩
        rw [← List.dropLast_append_getLast? _ last, List.mem_append] at mem
        rcases mem with mem | mem
        · exact inside item (List.mem_append_left _ mem)
        · rw [List.mem_singleton.mp mem]
          exact last_within
      case h_2 => cases edited
    case h_4 => cases edited

/-- What a key with its value needs: a level for each part of the key, and room for the value. -/
def PairFits (depth : Nat) (path : List String) (value : Value) : Prop :=
  path.length ≤ depth ∧ ∃ inner < depth, value.IsWithin inner

theorem length_dropLast_succ {path : List String} {key : String} (last : path.getLast? = some key) :
    path.dropLast.length + 1 = path.length := by
  have nonempty : path ≠ [] := by
    rintro rfl
    cases last
  rw [List.length_dropLast]
  have := List.length_pos_iff.mpr nonempty
  omega

theorem assign_deepens (path : List String) (value : Value) :
    Deepens (assign path value) fun depth => PairFits depth path value := by
  intro origin entries table depth assigned within
  unfold assign at assigned
  split at assigned
  case h_1 => cases assigned
  case h_2 key last =>
    obtain ⟨before, room, le, inner, less, value_within⟩ :=
      editAt_deepens .dotted (addKey_deepens _ key value) path.dropLast origin entries table depth
        assigned within
    have length_eq := length_dropLast_succ last
    exact ⟨before, by omega, inner, by omega, value_within⟩

theorem bracedTable?_fits {pairs : List (List String × Value)} {table : Value}
    (made : bracedTable? pairs = some table) (within : table.IsWithin depth) :
    (Value.table .braced []).IsWithin depth ∧ ∀ pair ∈ pairs, PairFits depth pair.1 pair.2 := by
  unfold bracedTable? at made
  generalize Value.table .braced [] = soFar at made ⊢
  induction pairs generalizing soFar with
  | nil =>
    cases made
    exact ⟨within, fun _ impossible => absurd impossible List.not_mem_nil⟩
  | cons pair pairs ih =>
    rw [List.foldlM_cons] at made
    obtain ⟨next, assigned, rest⟩ := Option.bind_eq_some_iff.mp made
    obtain ⟨next_within, later⟩ := ih next rest
    split at assigned
    · obtain ⟨before, here⟩ := assign_deepens pair.1 pair.2 _ _ next depth assigned next_within
      exact ⟨before, List.forall_mem_cons.mpr ⟨here, later⟩⟩
    · cases assigned

/-- What a statement needs. -/
def Statement.Fits (depth : Nat) : Statement → Prop
  | .header path => path.length ≤ depth
  | .arrayHeader path => path.length ≤ depth
  | .pair path value => PairFits depth path value

theorem Assembly.withRoot?_eq_some {current : List String} {root : Option Value} {a : Assembly}
    (made : Assembly.withRoot? current root = some a) :
    ∃ origin, root = some (.table origin a.entries) := by
  unfold Assembly.withRoot? at made
  split at made
  · cases made
    exact ⟨_, rfl⟩
  · cases made

theorem Assembly.add_deepens {a next : Assembly} {statement : Statement}
    (added : a.add statement = some next)
    (within : (Value.table .headed next.entries).IsWithin depth) :
    (Value.table .headed a.entries).IsWithin depth ∧ statement.Fits depth := by
  cases statement with
  | header path =>
    obtain ⟨key, last, made⟩ := Option.bind_eq_some_iff.mp added
    obtain ⟨origin, edited⟩ := Assembly.withRoot?_eq_some made
    obtain ⟨before, inner, le, positive⟩ := editAt_deepens _ (addHeader_deepens key) _ _ _ _ depth
      edited (within.of_origin origin)
    have length_eq := length_dropLast_succ last
    exact ⟨before, show path.length ≤ depth by omega⟩
  | arrayHeader path =>
    obtain ⟨key, last, made⟩ := Option.bind_eq_some_iff.mp added
    obtain ⟨origin, edited⟩ := Assembly.withRoot?_eq_some made
    obtain ⟨before, inner, le, positive⟩ := editAt_deepens _ (addToArray_deepens key) _ _ _ _ depth
      edited (within.of_origin origin)
    have length_eq := length_dropLast_succ last
    exact ⟨before, show path.length ≤ depth by omega⟩
  | pair path value =>
    obtain ⟨origin, edited⟩ := Assembly.withRoot?_eq_some added
    obtain ⟨before, inner, le, length_le, innermost, less, value_within⟩ :=
      editAt_deepens _ (assign_deepens path value) _ _ _ _ depth edited (within.of_origin origin)
    exact ⟨before, by omega, innermost, by omega, value_within⟩

theorem assemble?_fits {statements : List Statement} {entries : Entries}
    (made : assemble? statements = some entries)
    (within : (Value.table .headed entries).IsWithin depth) :
    ∀ statement ∈ statements, statement.Fits depth := by
  obtain ⟨last, run, rfl⟩ := Option.map_eq_some_iff.mp made
  clear made
  generalize ({} : Assembly) = a at run
  suffices whole : (Value.table .headed a.entries).IsWithin depth ∧
      ∀ statement ∈ statements, statement.Fits depth from whole.2
  induction statements generalizing a with
  | nil =>
    cases run
    exact ⟨within, fun _ impossible => absurd impossible List.not_mem_nil⟩
  | cons statement statements ih =>
    rw [List.foldlM_cons] at run
    obtain ⟨next, added, rest⟩ := Option.bind_eq_some_iff.mp run
    obtain ⟨next_within, later⟩ := ih next rest
    obtain ⟨before, here⟩ := Assembly.add_deepens added next_within
    exact ⟨before, List.forall_mem_cons.mpr ⟨here, later⟩⟩

/-! ### Reading -/

variable {limit supply : Nat}

theorem keyPath?_within {s rest : List Char} {path : List String}
    (read : keyPath? limit supply s = some (path, rest)) (le : path.length ≤ depth) :
    keyPath? depth supply s = some (path, rest) := by
  unfold keyPath? at read ⊢
  obtain ⟨⟨parts, after⟩, parts_read, read⟩ := Option.bind_eq_some_iff.mp read
  obtain ⟨-, same⟩ := Option.ite_none_right_eq_some.mp read
  cases same
  exact Option.bind_eq_some_iff.mpr ⟨_, parts_read, if_pos le⟩

/-- What is read under some limit and is within a room is read in that room, when the room is no
more than the new limit. -/
def ReadsWithin (limit depth supply : Nat) : Prop :=
  (∀ room roomy s value rest, value? limit supply roomy s = some (value, rest) →
    room ≤ depth → value.IsWithin room → value? depth supply room s = some (value, rest)) ∧
  (∀ room roomy s items rest, items? limit supply roomy s = some (items, rest) →
    room ≤ depth → (∀ item ∈ items, item.IsWithin room) →
    items? depth supply room s = some (items, rest)) ∧
  ∀ room roomy s pairs rest, pairs? limit supply roomy s = some (pairs, rest) →
    room < depth → (∀ pair ∈ pairs, PairFits (room + 1) pair.1 pair.2) →
    pairs? depth supply room s = some (pairs, rest)

theorem value?_within_succ (smaller : ReadsWithin limit depth supply) {room roomy : Nat}
    {s rest : List Char} {value : Value}
    (read : value? limit (supply + 1) roomy s = some (value, rest)) (le : room ≤ depth)
    (within : value.IsWithin room) : value? depth (supply + 1) room s = some (value, rest) := by
  obtain ⟨-, items_within, pairs_within⟩ := smaller
  unfold value? at read
  split at read
  · cases read
  · cases read
  case h_3 =>
    obtain ⟨⟨items, _⟩, found, same⟩ := Option.bind_eq_some_iff.mp read
    cases same
    obtain ⟨inner, rfl, inside⟩ := Value.isWithin_array_iff.mp within
    have again := items_within inner _ _ items _ found (by omega) inside
    simp only [value?, again, Option.bind_eq_bind, Option.bind_some]
  case h_4 =>
    obtain ⟨⟨pairs, _⟩, found, made⟩ := Option.bind_eq_some_iff.mp read
    obtain ⟨table, braced, same⟩ := Option.bind_eq_some_iff.mp made
    cases same
    obtain ⟨start_within, pair_fits⟩ := bracedTable?_fits braced within
    obtain ⟨inner, rfl, -⟩ := Value.isWithin_table_iff.mp start_within
    have again := pairs_within inner _ _ pairs _ found (by omega) pair_fits
    simp only [value?, again, braced, Option.bind_eq_bind, Option.bind_some]
  case h_5 noArray noTable array table =>
    -- a text that opens nothing is read the same in any room
    unfold value?
    split
    case h_1 | h_3 =>
      cases roomy with
      | zero => exact (noArray _ rfl rfl).elim
      | succ => exact (array _ _ rfl rfl).elim
    case h_2 | h_4 =>
      cases roomy with
      | zero => exact (noTable _ rfl rfl).elim
      | succ => exact (table _ _ rfl rfl).elim
    case h_5 => exact read

theorem items?_within_succ (smaller : ReadsWithin limit depth supply) {room roomy : Nat}
    {s rest : List Char} {items : List Value}
    (read : items? limit (supply + 1) roomy s = some (items, rest)) (le : room ≤ depth)
    (within : ∀ item ∈ items, item.IsWithin room) :
    items? depth (supply + 1) room s = some (items, rest) := by
  obtain ⟨value_within, items_within, -⟩ := smaller
  unfold items? at read ⊢
  obtain ⟨start, skipped, read⟩ := Option.bind_eq_some_iff.mp read
  refine Option.bind_eq_some_iff.mpr ⟨start, skipped, ?_⟩
  split at read
  · exact read
  · obtain ⟨⟨item, afterItem⟩, itemRead, read⟩ := Option.bind_eq_some_iff.mp read
    obtain ⟨next, nextSkipped, read⟩ := Option.bind_eq_some_iff.mp read
    split at read
    · obtain ⟨⟨more, _⟩, moreRead, same⟩ := Option.bind_eq_some_iff.mp read
      cases same
      obtain ⟨item_within, more_within⟩ := List.forall_mem_cons.mp within
      have item_again := value_within room roomy _ item _ itemRead le item_within
      have more_again := items_within room roomy _ more _ moreRead le more_within
      simp only [item_again, more_again, nextSkipped, Option.bind_eq_bind, Option.bind_some]
    · cases read
      have item_within := within item (List.mem_singleton_self _)
      have item_again := value_within room roomy _ item _ itemRead le item_within
      simp only [item_again, nextSkipped, Option.bind_eq_bind, Option.bind_some]
    · cases read

theorem PairFits.within {room : Nat} {path : List String} {value : Value}
    (fits : PairFits (room + 1) path value) : value.IsWithin room := by
  obtain ⟨-, inner, less, within⟩ := fits
  exact within.mono (Nat.le_of_lt_succ less)

theorem pairs?_within_succ (smaller : ReadsWithin limit depth supply) {room roomy : Nat}
    {s rest : List Char} {pairs : List (List String × Value)}
    (read : pairs? limit (supply + 1) roomy s = some (pairs, rest)) (less : room < depth)
    (fits : ∀ pair ∈ pairs, PairFits (room + 1) pair.1 pair.2) :
    pairs? depth (supply + 1) room s = some (pairs, rest) := by
  obtain ⟨value_within, -, pairs_within⟩ := smaller
  have le : room ≤ depth := Nat.le_of_lt less
  unfold pairs? at read ⊢
  obtain ⟨start, skipped, read⟩ := Option.bind_eq_some_iff.mp read
  refine Option.bind_eq_some_iff.mpr ⟨start, skipped, ?_⟩
  split at read
  · exact read
  · obtain ⟨⟨path, afterPath⟩, pathRead, read⟩ := Option.bind_eq_some_iff.mp read
    obtain ⟨next, nextSkipped, read⟩ := Option.bind_eq_some_iff.mp read
    split at read
    · obtain ⟨valueStart, valueSkipped, read⟩ := Option.bind_eq_some_iff.mp read
      obtain ⟨⟨value, afterValue⟩, valueRead, read⟩ := Option.bind_eq_some_iff.mp read
      obtain ⟨last, lastSkipped, read⟩ := Option.bind_eq_some_iff.mp read
      split at read
      · obtain ⟨⟨more, _⟩, moreRead, same⟩ := Option.bind_eq_some_iff.mp read
        cases same
        obtain ⟨here, later⟩ := List.forall_mem_cons.mp fits
        have path_again : keyPath? depth supply _ = some (path, afterPath) :=
          keyPath?_within pathRead (Nat.le_trans here.1 less)
        have value_again := value_within room roomy _ value _ valueRead le here.within
        have more_again := pairs_within room roomy _ more _ moreRead less later
        simp only [path_again, nextSkipped, valueSkipped, value_again, lastSkipped, more_again,
          Option.bind_eq_bind, Option.bind_some]
      · cases read
        have here := fits _ (List.mem_singleton_self _)
        have path_again : keyPath? depth supply _ = some (path, afterPath) :=
          keyPath?_within pathRead (Nat.le_trans here.1 less)
        have value_again := value_within room roomy _ value _ valueRead le here.within
        simp only [path_again, nextSkipped, valueSkipped, value_again, lastSkipped,
          Option.bind_eq_bind, Option.bind_some]
      · cases read
    · cases read

theorem readsWithin (limit depth supply : Nat) : ReadsWithin limit depth supply := by
  induction supply with
  | zero =>
    refine ⟨?_, ?_, ?_⟩
    · intro room roomy s value rest read
      simp [value?] at read
    · intro room roomy s items rest read
      simp [items?] at read
    · intro room roomy s pairs rest read
      simp [pairs?] at read
  | succ supply ih =>
    exact ⟨fun _ _ _ _ _ => value?_within_succ ih, fun _ _ _ _ _ => items?_within_succ ih,
      fun _ _ _ _ _ => pairs?_within_succ ih⟩

theorem statement?_within {s rest : List Char} {statement : Statement}
    (read : statement? limit supply s = some (statement, rest)) (fits : statement.Fits depth) :
    statement? depth supply s = some (statement, rest) := by
  unfold statement? at read ⊢
  split at read
  · obtain ⟨keyed, pathRead, read⟩ := Option.bind_eq_some_iff.mp read
    split at read
    · cases read
      simp only [keyPath?_within pathRead fits, Option.bind_eq_bind, Option.bind_some]
    · cases read
  · obtain ⟨keyed, pathRead, read⟩ := Option.bind_eq_some_iff.mp read
    split at read
    · cases read
      simp only [keyPath?_within pathRead fits, Option.bind_eq_bind, Option.bind_some]
    · cases read
  · obtain ⟨keyed, pathRead, read⟩ := Option.bind_eq_some_iff.mp read
    split at read
    · obtain ⟨⟨value, _⟩, valueRead, same⟩ := Option.bind_eq_some_iff.mp read
      cases same
      obtain ⟨length_le, inner, less, value_within⟩ := fits
      have value_again := (readsWithin limit depth supply).1 depth _ _ value _ valueRead
        (Nat.le_refl _) (value_within.mono (Nat.le_of_lt less))
      simp only [keyPath?_within pathRead length_le, value_again, Option.bind_eq_bind,
        Option.bind_some]
    · cases read

theorem statements?_within {s : List Char} {statements : List Statement}
    (read : statements? limit supply s = some statements)
    (fits : ∀ statement ∈ statements, statement.Fits depth) :
    statements? depth supply s = some statements := by
  induction supply generalizing s statements with
  | zero => cases read
  | succ supply ih =>
    unfold statements? at read ⊢
    obtain ⟨start, skipped, read⟩ := Option.bind_eq_some_iff.mp read
    refine Option.bind_eq_some_iff.mpr ⟨start, skipped, ?_⟩
    split at read
    · exact read
    · obtain ⟨⟨statement, after⟩, first, read⟩ := Option.bind_eq_some_iff.mp read
      obtain ⟨next, nextSkipped, read⟩ := Option.bind_eq_some_iff.mp read
      obtain ⟨more, moreRead, same⟩ := Option.bind_eq_some_iff.mp read
      cases same
      obtain ⟨here, later⟩ := List.forall_mem_cons.mp fits
      simp only [statement?_within first here, nextSkipped, ih moreRead later,
        Option.bind_eq_bind, Option.bind_some]

/-- A document that nests within a depth is read the same with that depth as the limit. -/
theorem readWithin?_of_isWithin {source : String} {entries : Entries}
    (read : readWithin? limit source = some entries)
    (within : (Value.table .headed entries).IsWithin depth) :
    readWithin? depth source = some entries := by
  unfold readWithin? at read ⊢
  obtain ⟨statements, listed, made⟩ := Option.bind_eq_some_iff.mp read
  exact Option.bind_eq_some_iff.mpr
    ⟨statements, statements?_within listed (assemble?_fits made within), made⟩

theorem exists_common_depth {α : Type} (value : α → Value) {items : List α}
    (each : ∀ item ∈ items, ∃ depth, (value item).IsWithin depth) :
    ∃ depth, ∀ item ∈ items, (value item).IsWithin depth := by
  induction items with
  | nil => exact ⟨0, fun _ impossible => absurd impossible List.not_mem_nil⟩
  | cons item items ih =>
    obtain ⟨⟨here, within⟩, each⟩ := List.forall_mem_cons.mp each
    obtain ⟨there, inside⟩ := ih each
    exact ⟨max here there, List.forall_mem_cons.mpr
      ⟨within.mono (Nat.le_max_left _ _), fun other mem =>
        (inside other mem).mono (Nat.le_max_right _ _)⟩⟩

theorem Value.IsOrdered.exists_isWithin {value : Value} (ordered : value.IsOrdered) :
    ∃ depth, value.IsWithin depth := by
  induction ordered with
  | text value => exact ⟨0, .text value⟩
  | flag value => exact ⟨0, .flag value⟩
  | integer => exact ⟨0, .integer⟩
  | float => exact ⟨0, .float⟩
  | moment => exact ⟨0, .moment⟩
  | array _ ih =>
    obtain ⟨depth, inside⟩ := exists_common_depth id ih
    exact ⟨depth + 1, .array inside⟩
  | table _ _ ih =>
    obtain ⟨depth, inside⟩ := exists_common_depth Prod.snd ih
    exact ⟨depth + 1, .table inside⟩

/-- Whatever the limits, a text is one document at most. -/
theorem readWithin?_unique {source : String} {limit limit' : Nat} {entries entries' : Entries}
    (read : readWithin? limit source = some entries)
    (read' : readWithin? limit' source = some entries') : entries = entries' := by
  have ordered : (Value.table .headed entries).IsOrdered :=
    Value.isOrdered_table_iff.mpr (readWithin?_isOrdered read)
  have ordered' : (Value.table .headed entries').IsOrdered :=
    Value.isOrdered_table_iff.mpr (readWithin?_isOrdered read')
  obtain ⟨depth, within⟩ := ordered.exists_isWithin
  obtain ⟨depth', within'⟩ := ordered'.exists_isWithin
  have again := readWithin?_of_isWithin read (within.mono (Nat.le_max_left depth depth'))
  have again' := readWithin?_of_isWithin read' (within'.mono (Nat.le_max_right depth depth'))
  exact Option.some.inj (again.symm.trans again')

end GraphqlCrud.Toml
