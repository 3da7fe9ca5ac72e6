import MileExplorer.Outcomes
import MileExplorer.StoreRules

/-!
# The rows that a method shows

`get-block`, `get-block-history`, `get-transaction` and
`get-transaction-history` read their parameters without looking at the
database.  They then answer with the rows of one table that satisfy a
condition the parameters fix, or do not answer with a result at all.
-/

namespace MileExplorer

/-- The rows in a result: a document, or the elements of a list. -/
def shownRows : Json → List Json
  | .arr rows => rows
  | .obj members => [.obj members]
  | _ => []

/-- The cursor yields the rows of a table that satisfy a condition. -/
def ShowsRows (table : TableName) (cursor : Cursor) : Prop :=
  ∃ shown : Json → Prop, ∀ store row,
    row ∈ shownRows (getDataOf (cursor store)) ↔ row ∈ (store table).rows ∧ shown row

/-- The handler answers from a cursor of the table, or does not answer with a
result, whatever the tables hold. -/
def Consults (table : TableName) (handler : Store → Except Exn Outcome) : Prop :=
  (∃ outcome, (∀ store, handler store = outcome) ∧
    ∀ result, outcome ≠ .ok (.answers result)) ∨
  ∃ cursor, ShowsRows table cursor ∧
    ∀ store, handler store = .ok (.answers (getDataOf (cursor store)))

/-! ## Cursors -/

section Cursors

variable (table : TableName)

theorem showsRows_get (id : String) : ShowsRows table ((cursor table).get id) := by
  refine ⟨fun row => docId row = .str id, fun store row => ?_⟩
  have yields : (cursor table).get id store =
      .ok (((store table).get? (.str id)).getD .null) := rfl
  rw [yields, ← KeyedTable.get?_eq_some]
  cases found : (store table).get? (.str id) with
  | none => simp [getDataOf, shownRows]
  | some document =>
      obtain ⟨-, keyed⟩ := KeyedTable.get?_eq_some.mp found
      obtain ⟨members, rfl⟩ := exists_members_of_docId (show docId document ≠ .null by simp [keyed])
      simp [getDataOf, shownRows, eq_comm]

theorem showsRows_between (first limit : Nat) (index : String) :
    ShowsRows table ((cursor table).between first limit index) := by
  refine ⟨fun row => (row.find? index).isSome ∧ Cursor.between.inRange first limit index row,
    fun store row => ?_⟩
  have yields : (cursor table).between first limit index store =
      .ok (.arr ((Cursor.ordered index (store table).rows).filter
        fun row => Cursor.between.inRange first limit index row)) := rfl
  rw [yields]
  simp [getDataOf, shownRows, Cursor.mem_ordered, and_assoc]

theorem showsRows_getAll (id index : String) :
    ShowsRows table ((cursor table).getAll id index) := by
  refine ⟨fun row => row.find? index = some (.str id), fun store row => ?_⟩
  have yields : (cursor table).getAll id index store =
      .ok (.arr ((store table).rows.filter fun row => row.find? index = some (.str id))) := rfl
  rw [yields]
  simp [getDataOf, shownRows]

end Cursors

/-! ## Handlers -/

namespace Consults

variable {table : TableName}

/-- What never answers with a result. -/
theorem settled {outcome : Except Exn Outcome}
    (unanswered : ∀ result, outcome ≠ .ok (.answers result)) :
    Consults table fun _ => outcome :=
  .inl ⟨outcome, fun _ => rfl, unanswered⟩

theorem answers {cursor : Cursor} (shows : ShowsRows table cursor) :
    Consults table fun store => .ok (.answers (getDataOf (cursor store))) :=
  .inr ⟨cursor, shows, fun _ => rfl⟩

/-- A part that reads the parameters only. -/
theorem bind {Value : Type} {value : Except Exn Value}
    {next : Value → Store → Except Exn Outcome} (rest : ∀ result, Consults table (next result)) :
    Consults table fun store => value >>= fun result => next result store := by
  cases value with
  | error exception => exact .inl ⟨.error exception, fun _ => rfl, by simp⟩
  | ok result => exact rest result

theorem check {params : Json} {param : String} {rest : Store → Except Exn Outcome}
    (consults : Consults table rest) :
    Consults table fun store => Api.check params param (rest store) := by
  unfold Api.check
  split
  · exact settled (by simp)
  · exact consults

theorem checkLimit {params : Json} {rest : Store → Except Exn Outcome}
    (consults : Consults table rest) :
    Consults table fun store => Api.checkLimit params (rest store) := by
  refine check (check (bind fun value => bind fun limit => ?_))
  split
  · exact settled (by simp [pure, Except.pure])
  · exact consults

variable {handler : Store → Except Exn Outcome}

/-- The rows in an answer are rows of the table. -/
theorem stored (consults : Consults table handler) {store : Store} {result row : Json}
    (answered : handler store = .ok (.answers result)) (shown : row ∈ shownRows result) :
    row ∈ (store table).rows := by
  rcases consults with ⟨outcome, same, unanswered⟩ | ⟨cursor, ⟨condition, shows⟩, same⟩
  · exact absurd ((same store).symm.trans answered) (unanswered result)
  · rw [same, Except.ok.injEq, Outcome.answers.injEq] at answered
    subst answered
    exact ((shows store row).mp shown).1

/-- On tables that have kept their rows, the answer shows the same rows and
perhaps more. -/
theorem grows (consults : Consults table handler) {before after : Store} {result : Json}
    (kept : ∀ row ∈ (before table).rows, row ∈ (after table).rows)
    (answered : handler before = .ok (.answers result)) :
    ∃ later, handler after = .ok (.answers later) ∧
      ∀ row ∈ shownRows result, row ∈ shownRows later := by
  rcases consults with ⟨outcome, same, unanswered⟩ | ⟨cursor, ⟨condition, shows⟩, same⟩
  · exact absurd ((same before).symm.trans answered) (unanswered result)
  · rw [same, Except.ok.injEq, Outcome.answers.injEq] at answered
    subst answered
    refine ⟨_, same after, fun row shown => ?_⟩
    obtain ⟨member, satisfied⟩ := (shows before row).mp shown
    exact (shows after row).mpr ⟨kept row member, satisfied⟩

end Consults

namespace Api

variable {table : TableName} (api : NodeApi) (params : Json)

theorem consults_getBlockId (param : String) {rest : Nat → Store → Except Exn Outcome}
    (consults : ∀ blockId, Consults table (rest blockId)) :
    Consults table fun store =>
      getBlockId api params param >>= fun (blockId, outcome) =>
        if blockId = reservedBlockId then pure outcome else rest blockId store := by
  cases read : getBlockId api params param with
  | error exception => exact .inl ⟨.error exception, fun _ => rfl, by simp⟩
  | ok value =>
      obtain ⟨blockId, outcome⟩ := value
      by_cases reserved : blockId = reservedBlockId
      · have unanswered : ∀ result, (Except.ok outcome : Except Exn Outcome) ≠
            .ok (.answers result) := by
          rcases getBlockId_outcome read with rfl | ⟨message, rfl⟩ <;> simp
        exact .inl ⟨.ok outcome, fun store => by simp [Bind.bind, Except.bind, reserved, pure,
          Except.pure], unanswered⟩
      · have goesOn : (fun store => (Except.ok (blockId, outcome) : Except Exn (Nat × Outcome)) >>=
            fun (blockId, outcome) =>
              if blockId = reservedBlockId then pure outcome else rest blockId store) =
            rest blockId := by
          funext store
          simp [Bind.bind, Except.bind, reserved]
        rw [goesOn]
        exact consults blockId

theorem consults_getBlock : Consults .blocks (getBlock api params) :=
  consults_getBlockId api params "id" fun blockId =>
    .answers (showsRows_get .blocks (toString blockId))

theorem consults_getBlockHistory : Consults .blocks (getBlockHistory api params) := by
  refine .checkLimit (.bind fun limit => ?_)
  exact consults_getBlockId api params "first" fun blockId =>
    .answers (showsRows_between .blocks (blockId % 2 ^ 64) limit "block-id")

theorem consults_getTransaction : Consults .transactions (getTransaction params) := by
  unfold getTransaction
  split
  · exact .bind fun digest => .answers (showsRows_getAll .transactions _ _)
  · refine .check (.bind fun param => ?_)
    split
    · refine .check (.bind fun publicKey => .bind fun blockId => ?_)
      cases blockId with
      | none => exact .settled (by simp)
      | some blockId => exact .bind fun number => .answers (showsRows_get .transactions _)
    · split
      · exact .bind fun publicKey => .bind fun blockId => .bind fun rest =>
          .answers (showsRows_get .transactions _)
      · exact .bind fun id => .answers (showsRows_get .transactions _)

theorem consults_getTransactionHistory :
    Consults .transactions (getTransactionHistory params) :=
  .checkLimit (.bind fun first => .bind fun limit =>
    .answers (showsRows_between .transactions first limit "serial"))

end Api

/-- The table whose rows a method shows, for the methods that show whole
rows. -/
def Method.shows : Method → Option TableName
  | .getBlock | .getBlockHistory => some .blocks
  | .getTransaction | .getTransactionHistory => some .transactions
  | _ => none

theorem Method.consults (api : NodeApi) (registered : List Method) (params : Json)
    {method : Method} {table : TableName} (shown : method.shows = some table) :
    Consults table fun store => method.call api registered params store := by
  cases method <;> simp only [Method.shows, Option.some.injEq, reduceCtorEq] at shown
  all_goals subst shown
  · exact Api.consults_getBlock api params
  · exact Api.consults_getBlockHistory api params
  · exact Api.consults_getTransaction params
  · exact Api.consults_getTransactionHistory params

end MileExplorer
