import MileExplorer.Footprints

/-!
# The version rows

The table of versions has a row for each version that was installed, under the
number of the restart, and may have one of the old kind under the text
`version`.  `get_version` takes the row with the greatest key, and a text is
greater than every number: an old row that the migration does not remove hides
all others, and the version it installs is not the one it reads.
-/

namespace MileExplorer

namespace Db

/-- A number among the members of a row, else zero. -/
def numberIn (row : Option Json) (name : String) : Rat :=
  match row.bind fun document => document.find? name with
  | some (.num value) => value
  | some (.real value) => value
  | _ => 0

def newestRow (rows : Table) : Option Json := (Cursor.ordered "id" rows.rows).getLast?

def versionIn (row : Option Json) : Nat := toUInt32 (numberIn row "version")

def oldVersion (rows : Table) : Rat := numberIn (rows.get? (.str "version")) "current"

def restartNumber (rows : Table) : Nat :=
  (toUInt32 (numberIn (newestRow rows) "id") + 1) % 2 ^ 32

def versionRow (rows : Table) (version : Nat) (now : Int) : Json :=
  .ofMembers [("id", .num (restartNumber rows)), ("version", .num version),
    ("previous_version", .num (versionIn (newestRow rows))), ("timestamp", .num now)]

/-- The table without an old version up to 122. -/
def cleaned (rows : Table) : Table :=
  if oldVersion rows ≤ 122 then rows.erase (.str "version") else rows

/-- The table with a newer version. -/
def upgraded (rows : Table) (version : Nat) (now : Int) : Table :=
  if version > versionIn (newestRow rows) then rows.insert (versionRow rows version now) else rows

/-- Rows of restarts, and possibly one of the old kind. -/
def VersionRows (rows : Table) : Prop :=
  ∀ row ∈ rows.rows, docId row = .str "version" ∨ ∃ number : Int, docId row = .num number

end Db

/-! ## What the migration reads and writes -/

namespace Db

section Reads

variable {rows : Table} {row : Json}

theorem VersionRows.exists_members (versionRows : VersionRows rows) (member : row ∈ rows.rows) :
    ∃ members, row = .obj members := by
  apply exists_members_of_docId
  rcases versionRows row member with old | ⟨number, restart⟩
  · simp [old]
  · simp [restart]

theorem getNumberOf_field {cursor : Cursor} {store : Store} {members : List (String × Json)}
    (yields : cursor store = .ok (.obj members)) (name : String) :
    getNumberOf (cursor.field name store) = numberIn (some (.obj members)) name := by
  rw [Cursor.field, yields]
  cases found : (Json.obj members).find? name with
  | none => simp [bind, Except.bind, found, getNumberOf, numberIn]
  | some value =>
      cases value <;>
        simp [bind, Except.bind, pure, Except.pure, found, getNumberOf, numberIn]

theorem mem_of_newestRow (newest : newestRow rows = some row) : row ∈ rows.rows :=
  (Cursor.mem_ordered.mp (List.mem_of_getLast? newest)).1

theorem getNumberOf_newest {store : Store} (versionRows : VersionRows (store .metadata))
    (name : String) :
    getNumberOf (((cursor .metadata).max "id").field name store) =
      numberIn (newestRow (store .metadata)) name := by
  have yields := Cursor.max_eq .metadata "id" store
  cases newest : newestRow (store .metadata) with
  | none =>
      rw [newestRow] at newest
      rw [newest] at yields
      rw [Cursor.field, yields]
      rfl
  | some last =>
      obtain ⟨members, rfl⟩ := versionRows.exists_members (mem_of_newestRow newest)
      rw [newestRow] at newest
      rw [newest] at yields
      exact getNumberOf_field yields name

theorem getNumberOf_oldVersion {store : Store} (versionRows : VersionRows (store .metadata)) :
    getNumberOf (((cursor .metadata).get "version").field "current" store) =
      oldVersion (store .metadata) := by
  have yields : (cursor .metadata).get "version" store =
      .ok (((store .metadata).get? (.str "version")).getD .null) := rfl
  cases found : (store .metadata).get? (.str "version") with
  | none =>
      rw [found] at yields
      rw [Cursor.field, yields, oldVersion, found]
      rfl
  | some last =>
      obtain ⟨members, rfl⟩ := versionRows.exists_members (KeyedTable.get?_eq_some.mp found).1
      rw [found] at yields
      rw [oldVersion, found]
      exact getNumberOf_field yields "current"

end Reads

section Runs

variable {process : Process}

theorem run_getVersion (versionRows : VersionRows (process.store .metadata)) :
    getVersion.run Process.exec process =
      (versionIn (newestRow (process.store .metadata)), process) := by
  rw [getVersion, Program.run_bind, run_getNumber, getNumberOf_newest versionRows]
  rfl

theorem VersionRows.erase {rows : Table} (versionRows : VersionRows rows) (key : Json) :
    VersionRows (rows.erase key) :=
  fun row member => versionRows row (KeyedTable.mem_erase.mp member).1

theorem VersionRows.cleaned {rows : Table} (versionRows : VersionRows rows) :
    VersionRows (cleaned rows) := by
  unfold Db.cleaned
  split_ifs
  · exact versionRows.erase _
  · exact versionRows

theorem docId_versionRow (rows : Table) (version : Nat) (now : Int) :
    docId (versionRow rows version now) = .num (restartNumber rows) :=
  docId_of_find? (by simp [versionRow, Json.find?_ofMembers, Json.member?_setMember])

theorem VersionRows.insert {rows : Table} (versionRows : VersionRows rows) (version : Nat)
    (now : Int) : VersionRows (rows.insert (versionRow rows version now)) := by
  intro row member
  rcases KeyedTable.mem_insert.mp member with old | ⟨rfl, -⟩
  · exact versionRows row old
  · exact .inr ⟨_, docId_versionRow rows version now⟩

theorem VersionRows.upgraded {rows : Table} (versionRows : VersionRows rows) (version : Nat)
    (now : Int) : VersionRows (upgraded rows version now) := by
  unfold Db.upgraded
  split_ifs
  · exact versionRows.insert version now
  · exact versionRows

theorem run_removeOldVersion (old : Rat) (process : Process) :
    (removeOldVersion old).run Process.exec process =
      ((), if old ≤ 122 then
        process.withTable .metadata ((process.store .metadata).erase (.str "version"))
      else process) := by
  unfold removeOldVersion
  split_ifs <;> rfl

theorem run_updateVersion (versionRows : VersionRows (process.store .metadata)) (version : Nat)
    (now : Int) :
    (updateVersion version now).run Process.exec process =
      ((), process.withTable .metadata ((process.store .metadata).insert
        (versionRow (process.store .metadata) version now))) := by
  rw [updateVersion, Program.run_bind, run_getNumber, Program.run_bind,
    getNumberOf_newest versionRows, run_getVersion versionRows]
  exact run_insert .other .metadata rfl process

theorem run_upgrade (versionRows : VersionRows (process.store .metadata)) (version : Nat)
    (now : Int) :
    ((upgrade version now).run Process.exec process).2.store .metadata =
      upgraded (process.store .metadata) version now := by
  rw [upgrade, Program.run_bind, run_getVersion versionRows, upgraded]
  dsimp only
  split_ifs
  · rw [run_updateVersion versionRows]
    simp
  · rfl

theorem flush_metadata (process : Process) :
    (flush.run Process.exec process).2.store .metadata = process.store .metadata := by
  have steps : flush.Steps Process.exec (WritesOnly [.transactionsProcessing]) :=
    flush_steps (by decide)
  exact Writes.run (steps.mono fun _ _ => And.left) process .metadata (by decide)

/-- The migration removes an old version row and adds a newer one. -/
theorem run_migration (versionRows : VersionRows (process.store .metadata)) (version : Nat)
    (now : Int) :
    ((migration version now).run Process.exec process).2.store .metadata =
      upgraded (cleaned (process.store .metadata)) version now := by
  rw [migration, Program.run_bind, run_getVersion versionRows, Program.run_bind, run_getNumber,
    getNumberOf_oldVersion versionRows, Program.run_bind, run_removeOldVersion, Program.run_bind,
    flush_metadata]
  dsimp only
  have removed : (if oldVersion (process.store .metadata) ≤ 122 then
      process.withTable .metadata ((process.store .metadata).erase (.str "version"))
      else process).store .metadata = cleaned (process.store .metadata) := by
    unfold cleaned
    split_ifs
    · simp
    · rfl
  rw [run_upgrade (by rw [removed]; exact versionRows.cleaned), removed]

end Runs

/-! ## The newest row -/

section Newest

variable {rows : Table} {row : Json}

def keyRank (row : Json) : Lex (Nat × Lex (Rat × String)) := (docId row).sortKey

theorem VersionRows.mem_ordered (versionRows : VersionRows rows) (member : row ∈ rows.rows) :
    row ∈ Cursor.ordered "id" rows.rows := by
  refine Cursor.mem_ordered.mpr ⟨member, ?_⟩
  cases found : row.find? "id" with
  | none =>
      have isNull : docId row = .null := by simp [docId, found]
      rcases versionRows row member with old | ⟨number, restart⟩
      · rw [isNull] at old
        cases old
      · rw [isNull] at restart
        cases restart
  | some id => rfl

theorem VersionRows.keyRank_le (versionRows : VersionRows rows) {newest : Json}
    (isNewest : newestRow rows = some newest) (member : row ∈ rows.rows) :
    keyRank row ≤ keyRank newest :=
  Cursor.rank_le_getLast isNewest (versionRows.mem_ordered member)

theorem VersionRows.newestRow_ne_none (versionRows : VersionRows rows) (member : row ∈ rows.rows) :
    newestRow rows ≠ none := by
  intro none
  have empty := List.getLast?_eq_none_iff.mp none
  have listed := versionRows.mem_ordered member
  rw [empty] at listed
  cases listed

theorem VersionRows.eq_of_keyRank_eq (versionRows : VersionRows rows) {other : Json}
    (member : row ∈ rows.rows) (otherMem : other ∈ rows.rows)
    (same : keyRank row = keyRank other) : row = other := by
  apply KeyedTable.eq_of_key_eq member otherMem
  rcases versionRows other otherMem with old | ⟨number, restart⟩
  · rw [keyRank, keyRank, old] at same
    rw [Json.sortKey_eq_str same, old]
  · rcases versionRows row member with old | ⟨other, otherRestart⟩
    · rw [keyRank, keyRank, old] at same
      rw [old, Json.sortKey_eq_str same.symm]
    · rw [keyRank, keyRank, restart, otherRestart] at same
      rw [restart, otherRestart]
      simpa [Json.sortKey] using same

theorem VersionRows.newestRow_eq (versionRows : VersionRows rows) (member : row ∈ rows.rows)
    (greatest : ∀ other ∈ rows.rows, keyRank other ≤ keyRank row) :
    newestRow rows = some row := by
  cases newest : newestRow rows with
  | none => exact absurd newest (versionRows.newestRow_ne_none member)
  | some last =>
      have lastMem := mem_of_newestRow newest
      have same := le_antisymm (greatest last lastMem) (versionRows.keyRank_le newest member)
      rw [versionRows.eq_of_keyRank_eq lastMem member same]

theorem newestRow_insert (versionRows : VersionRows (rows.insert row)) :
    newestRow (rows.insert row) = newestRow rows ∨
      newestRow (rows.insert row) = some row := by
  have before : VersionRows rows := fun other member =>
    versionRows other (KeyedTable.mem_insert.mpr (.inl member))
  cases newest : newestRow (rows.insert row) with
  | none =>
      cases old : newestRow rows with
      | none => exact .inl rfl
      | some last =>
          have listed : last ∈ (rows.insert row).rows :=
            KeyedTable.mem_insert.mpr (.inl (mem_of_newestRow old))
          exact absurd newest (versionRows.newestRow_ne_none listed)
  | some last =>
      rcases KeyedTable.mem_insert.mp (mem_of_newestRow newest) with old | ⟨rfl, -⟩
      · refine .inl (before.newestRow_eq old ?_).symm
        intro other member
        exact versionRows.keyRank_le newest (KeyedTable.mem_insert.mpr (.inl member))
      · exact .inr rfl

theorem keyRank_le_iff {other : Json} {number otherNumber : Int} (isNumber : docId row = .num number)
    (otherIs : docId other = .num otherNumber) :
    keyRank row ≤ keyRank other ↔ number ≤ otherNumber := by
  rw [keyRank, keyRank, isNumber, otherIs, Json.sortKey_num_le]

/-- A text is above every number. -/
theorem not_keyRank_le {other : Json} {text : String} {number : Int}
    (isText : docId row = .str text) (otherIs : docId other = .num number) :
    ¬ keyRank row ≤ keyRank other := by
  rw [keyRank, keyRank, isText, otherIs]
  simp [Json.sortKey, Prod.Lex.toLex_le_toLex]

theorem VersionRows.newestRow_old (versionRows : VersionRows rows)
    (found : rows.get? (.str "version") = some row) : newestRow rows = some row := by
  obtain ⟨member, isOld⟩ := KeyedTable.get?_eq_some.mp found
  apply versionRows.newestRow_eq member
  intro other otherMem
  rcases versionRows other otherMem with old | ⟨number, restart⟩
  · rw [KeyedTable.eq_of_key_eq otherMem member (old.trans isOld.symm)]
  · rcases le_total (keyRank other) (keyRank row) with below | above
    · exact below
    · exact absurd above (not_keyRank_le isOld restart)

theorem toUInt32_intCast (number : Int) : toUInt32 (number : Rat) = number.toNat % 2 ^ 32 := by
  simp [toUInt32]

theorem restartNumber_lt (rows : Table) : restartNumber rows < 2 ^ 32 :=
  Nat.mod_lt _ (by decide)

theorem restartNumber_eq {number : Int} (newest : newestRow rows = some row)
    (restart : docId row = .num number) :
    restartNumber rows = (number.toNat % 2 ^ 32 + 1) % 2 ^ 32 := by
  have found : row.find? "id" = some (.num number) := by
    cases member : row.find? "id" with
    | none => simp [docId, member] at restart
    | some id => simpa [docId, member] using restart
  have numberEq : numberIn (some row) "id" = (number : Rat) := by
    simp [numberIn, found]
  rw [restartNumber, newest, numberEq, toUInt32_intCast]

theorem versionIn_versionRow (rows : Table) {version : Nat} (small : version < 2 ^ 32) (now : Int) :
    versionIn (some (versionRow rows version now)) = version := by
  have found : (versionRow rows version now).find? "version" = some (.num version) := by
    simp [versionRow, Json.find?_ofMembers, Json.member?_setMember]
  have numberEq : numberIn (some (versionRow rows version now)) "version" =
      ((version : Int) : Rat) := by
    simp [numberIn, found]
  rw [versionIn, numberEq, toUInt32_intCast, Int.toNat_natCast]
  exact Nat.mod_eq_of_lt small

end Newest

/-! ## Upgrading a cleaned table -/

section Settling

variable {rows : Table} {version : Nat}

theorem oldVersion_of_absent (absent : ¬ rows.Has (.str "version")) : oldVersion rows = 0 := by
  rw [oldVersion, KeyedTable.get?_eq_none.mpr absent]
  rfl

theorem erase_of_not_has {key : Json} (absent : ¬ rows.Has key) : rows.erase key = rows := by
  apply KeyedTable.eq_of_rows_eq
  apply List.filter_eq_self.mpr
  intro row member
  have differ : docId row ≠ key := fun same => absent ⟨row, member, same⟩
  simp [differ]

/-- An old version row is gone or is one that stays. -/
theorem cleaned_cases (rows : Table) :
    ¬ (cleaned rows).Has (.str "version") ∨ ¬ oldVersion (cleaned rows) ≤ 122 := by
  unfold cleaned
  split_ifs with removed
  · left
    simp
  · exact .inr removed

theorem get?_upgraded_old (rows : Table) (version : Nat) (now : Int) :
    (upgraded rows version now).get? (.str "version") = rows.get? (.str "version") := by
  unfold upgraded
  split_ifs
  · apply KeyedTable.get?_insert_of_ne
    rw [docId_versionRow]
    simp
  · rfl

theorem cleaned_upgraded (rows : Table) (version : Nat) (now : Int) :
    cleaned (upgraded (cleaned rows) version now) = upgraded (cleaned rows) version now := by
  have same := get?_upgraded_old (cleaned rows) version now
  have oldEq : oldVersion (upgraded (cleaned rows) version now) = oldVersion (cleaned rows) := by
    rw [oldVersion, same, oldVersion]
  rcases cleaned_cases rows with absent | kept
  · have still : ¬ (upgraded (cleaned rows) version now).Has (.str "version") := by
      rw [← KeyedTable.get?_eq_none, same, KeyedTable.get?_eq_none]
      exact absent
    rw [cleaned, erase_of_not_has still, ite_self]
  · rw [cleaned, oldEq, if_neg kept]

/-- A second upgrade finds its version or the key of its row taken. -/
theorem upgraded_upgraded (versionRows : VersionRows rows) (small : version < 2 ^ 32)
    (now later : Int) :
    upgraded (upgraded rows version now) version later = upgraded rows version now := by
  have after := versionRows.upgraded version now
  by_cases newer : version > versionIn (newestRow rows)
  · have inserted : upgraded rows version now = rows.insert (versionRow rows version now) :=
      if_pos newer
    rw [inserted] at after ⊢
    rcases newestRow_insert after with same | isNew
    · have sameNumber : restartNumber (rows.insert (versionRow rows version now)) =
          restartNumber rows := by
        rw [restartNumber, same, restartNumber]
      rw [upgraded, same, if_pos newer]
      apply KeyedTable.insert_of_has
      rw [docId_versionRow, sameNumber, KeyedTable.has_insert, docId_versionRow]
      exact .inr rfl
    · rw [upgraded, isNew, versionIn_versionRow rows small, if_neg (lt_irrefl _)]
  · have unchanged : upgraded rows version now = rows := if_neg newer
    rw [unchanged]
    exact if_neg newer

theorem VersionRows.exists_number (versionRows : VersionRows rows)
    (absent : ¬ rows.Has (.str "version")) {row : Json} (member : row ∈ rows.rows) :
    ∃ number : Int, docId row = .num number :=
  (versionRows row member).resolve_left fun old => absent ⟨row, member, old⟩

theorem VersionRows.exists_greatest (versionRows : VersionRows rows)
    (absent : ¬ rows.Has (.str "version")) {row : Json} (member : row ∈ rows.rows) {number : Int}
    (isNumber : docId row = .num number) :
    ∃ last ∈ rows.rows, ∃ greatest : Int, docId last = .num greatest ∧ number ≤ greatest ∧
      restartNumber rows = (greatest.toNat % 2 ^ 32 + 1) % 2 ^ 32 := by
  cases newest : newestRow rows with
  | none => exact absurd newest (versionRows.newestRow_ne_none member)
  | some last =>
      have lastMem := mem_of_newestRow newest
      obtain ⟨greatest, lastId⟩ := versionRows.exists_number absent lastMem
      have below := (keyRank_le_iff isNumber lastId).mp (versionRows.keyRank_le newest member)
      exact ⟨last, lastMem, greatest, lastId, below, restartNumber_eq newest lastId⟩

/-- The row of the next restart is above all others exactly if none of them is
of the old kind and the numbers have not run out. -/
theorem newestRow_versionRow_iff (versionRows : VersionRows rows) (version : Nat) (now : Int) :
    newestRow (rows.insert (versionRow rows version now)) =
        some (versionRow rows version now) ↔
      ¬ rows.Has (.str "version") ∧
        ∀ row ∈ rows.rows, ∀ number : Int, docId row = .num number → number < 2 ^ 32 - 1 := by
  have newId := docId_versionRow rows version now
  have after := versionRows.insert version now
  constructor
  · intro isNewest
    have below {row : Json} (member : row ∈ rows.rows) :
        keyRank row ≤ keyRank (versionRow rows version now) :=
      after.keyRank_le isNewest (KeyedTable.mem_insert.mpr (.inl member))
    have absent : ¬ rows.Has (.str "version") := by
      rintro ⟨row, member, isOld⟩
      exact not_keyRank_le isOld newId (below member)
    refine ⟨absent, ?_⟩
    intro row member number isNumber
    obtain ⟨last, lastMem, greatest, lastId, numberLe, next⟩ :=
      versionRows.exists_greatest absent member isNumber
    have greatestLe := (keyRank_le_iff lastId newId).mp (below lastMem)
    have small := restartNumber_lt rows
    omega
  · rintro ⟨absent, bounded⟩
    have above {row : Json} (member : row ∈ rows.rows) {number : Int}
        (isNumber : docId row = .num number) : number < restartNumber rows := by
      obtain ⟨last, lastMem, greatest, lastId, numberLe, next⟩ :=
        versionRows.exists_greatest absent member isNumber
      have small := bounded last lastMem greatest lastId
      omega
    have fresh : ¬ rows.Has (docId (versionRow rows version now)) := by
      rw [newId]
      rintro ⟨row, member, taken⟩
      exact lt_irrefl _ (above member taken)
    apply after.newestRow_eq (KeyedTable.mem_insert.mpr (.inr ⟨rfl, fresh⟩))
    intro other member
    rcases KeyedTable.mem_insert.mp member with old | ⟨rfl, -⟩
    · obtain ⟨number, isNumber⟩ := versionRows.exists_number absent old
      exact (keyRank_le_iff isNumber newId).mpr (above old isNumber).le
    · exact le_rfl

theorem le_versionIn_upgraded_iff (versionRows : VersionRows rows) (small : version < 2 ^ 32)
    (now : Int) :
    version ≤ versionIn (newestRow (upgraded rows version now)) ↔
      version ≤ versionIn (newestRow rows) ∨
        newestRow (rows.insert (versionRow rows version now)) =
          some (versionRow rows version now) := by
  have newVersion := versionIn_versionRow rows small now
  by_cases newer : version > versionIn (newestRow rows)
  · have inserted : upgraded rows version now = rows.insert (versionRow rows version now) :=
      if_pos newer
    have after := versionRows.upgraded version now
    rw [inserted] at after ⊢
    rcases newestRow_insert after with same | isNew
    · rw [same]
      refine ⟨.inl, ?_⟩
      rintro (known | isNew)
      · exact known
      · rw [isNew, newVersion]
    · rw [isNew, newVersion]
      exact iff_of_true le_rfl (.inr rfl)
  · have unchanged : upgraded rows version now = rows := if_neg newer
    rw [unchanged]
    exact iff_of_true (not_lt.mp newer) (.inl (not_lt.mp newer))

end Settling

end Db

/-! ## Settled versions -/

/-- After the migration the version is at least that of the indexer, and a
second one inserts no version row. -/
structure MigrationSettles (process : Process) (version : Nat) (now later : Int) : Prop where
  current : version ≤ (Db.getVersion.run Process.exec
    ((Db.migration version now).run Process.exec process).2).1
  noNewRow : let once := ((Db.migration version now).run Process.exec process).2
    ∀ row ∈ (((Db.migration version later).run Process.exec once).2.store .metadata).rows,
      row ∈ (once.store .metadata).rows

/-- The row that counts once an old version up to 122 is removed. -/
def Db.recordedRow (rows : Table) : Option Json :=
  if oldVersion rows ≤ 122 then newestRow (rows.erase (.str "version"))
  else rows.get? (.str "version")

/-- The version is recorded, or the migration removes a row of the old kind and
the numbers of restarts have not run out. -/
def Db.Migratable (rows : Table) (version : Nat) : Prop :=
  version ≤ versionIn (recordedRow rows) ∨
    oldVersion rows ≤ 122 ∧
      ∀ row ∈ rows.rows, ∀ number : Int, docId row = .num number → number < 2 ^ 32 - 1

theorem Db.newestRow_cleaned {rows : Table} (versionRows : VersionRows rows) :
    newestRow (cleaned rows) = recordedRow rows := by
  unfold cleaned recordedRow
  split_ifs with removed
  · rfl
  · cases found : rows.get? (.str "version") with
    | none =>
        have absent := oldVersion_of_absent (KeyedTable.get?_eq_none.mp found)
        rw [absent] at removed
        exact absurd (by norm_num) removed
    | some row => exact versionRows.newestRow_old found

/-- An old version above 122 stays in the table. -/
theorem Db.cleaned_restarts_iff (rows : Table) :
    (¬ (cleaned rows).Has (.str "version") ∧ ∀ row ∈ (cleaned rows).rows, ∀ number : Int,
        docId row = .num number → number < 2 ^ 32 - 1) ↔
      oldVersion rows ≤ 122 ∧
        ∀ row ∈ rows.rows, ∀ number : Int, docId row = .num number → number < 2 ^ 32 - 1 := by
  by_cases removed : oldVersion rows ≤ 122
  · have cleanedEq : cleaned rows = rows.erase (.str "version") := if_pos removed
    rw [cleanedEq]
    constructor
    · rintro ⟨-, bounded⟩
      refine ⟨removed, fun row member number isNumber => ?_⟩
      have stays : row ∈ (rows.erase (.str "version")).rows := by
        refine KeyedTable.mem_erase.mpr ⟨member, ?_⟩
        rw [isNumber]
        simp
      exact bounded row stays number isNumber
    · rintro ⟨-, bounded⟩
      refine ⟨by simp, fun row member => ?_⟩
      exact bounded row (KeyedTable.mem_erase.mp member).1
  · have cleanedEq : cleaned rows = rows := if_neg removed
    rw [cleanedEq]
    constructor
    · rintro ⟨absent, -⟩
      rw [oldVersion_of_absent absent] at removed
      exact absurd (by norm_num) removed
    · rintro ⟨isRemoved, -⟩
      exact absurd isRemoved removed

/-- The migration settles exactly on a table that can be migrated. -/
theorem migration_settles_iff {process : Process}
    (versionRows : Db.VersionRows (process.store .metadata)) {version : Nat}
    (small : version < 2 ^ 32) (now later : Int) :
    MigrationSettles process version now later ↔
      Db.Migratable (process.store .metadata) version := by
  have cleanedRows := versionRows.cleaned
  have onceRows := Db.run_migration versionRows version now
  have onceVersionRows : Db.VersionRows
      (((Db.migration version now).run Process.exec process).2.store .metadata) := by
    rw [onceRows]
    exact cleanedRows.upgraded version now
  have twiceRows := Db.run_migration onceVersionRows version later
  rw [onceRows, Db.cleaned_upgraded, Db.upgraded_upgraded cleanedRows small] at twiceRows
  have current : version ≤ (Db.getVersion.run Process.exec
      ((Db.migration version now).run Process.exec process).2).1 ↔
        Db.Migratable (process.store .metadata) version := by
    rw [Db.run_getVersion onceVersionRows, onceRows,
      Db.le_versionIn_upgraded_iff cleanedRows small, Db.newestRow_cleaned versionRows,
      Db.newestRow_versionRow_iff cleanedRows, Db.Migratable]
    exact or_congr_right (Db.cleaned_restarts_iff _)
  constructor
  · exact fun settles => current.mp settles.current
  · intro migratable
    refine ⟨current.mpr migratable, ?_⟩
    intro once row member
    rw [twiceRows] at member
    rw [onceRows]
    exact member

def oldVersionRow (current : Int) : Json :=
  .ofMembers [("current", .num current), ("id", .str "version")]

theorem docId_oldVersionRow (current : Int) : docId (oldVersionRow current) = .str "version" :=
  docId_of_find? (by simp [oldVersionRow, Json.find?_ofMembers, Json.member?_setMember])

theorem lonelyVersion_rows (current : Int) :
    Db.VersionRows ((Db.lonely .metadata (oldVersionRow current)).store .metadata) := by
  intro row member
  rw [Db.rows_lonely] at member
  rw [List.mem_singleton.mp member]
  exact .inl (docId_oldVersionRow current)

/-- The version 122 is removed. -/
theorem migration_settles_iff_removed :
    MigrationSettles (Db.lonely .metadata (oldVersionRow 122)) 143 0 1 := by
  refine (migration_settles_iff (lonelyVersion_rows 122) (by decide) 0 1).mpr (.inr ⟨?_, ?_⟩)
  · decide +kernel
  · intro row member number isNumber
    rw [Db.rows_lonely] at member
    rw [List.mem_singleton.mp member, docId_oldVersionRow] at isNumber
    cases isNumber

/-- The version 125 stays and hides the new one. -/
theorem kept_version_not_settled :
    ¬ MigrationSettles (Db.lonely .metadata (oldVersionRow 125)) 143 0 1 := by
  intro settles
  have current := settles.current
  revert current
  decide +kernel

end MileExplorer
