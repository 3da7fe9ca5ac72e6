import MileExplorer.StoreRules
import MileExplorer.Transactions

/-!
# The rows of the stream job

Run alone with no marker of the block pending, the stream job is a function of
the block: it builds its rows from the transactions and inserts them at once.
-/

namespace MileExplorer

/-- The rows for the addresses of a transaction. -/
def streamEntries (platform : Platform) (blockId : Nat) (time : Int) (trx : Json)
    (output : List Json) : List (String × String) → Except Exn (List Json)
  | [] => .ok output
  | (_, uniqId) :: rest =>
      match streamRow platform blockId time uniqId trx with
      | .error exception => .error exception
      | .ok trx => streamEntries platform blockId time trx (output ++ [trx]) rest

def streamTransactions (platform : Platform) (blockId : Nat) (time : Int)
    (output : List Json) : List Json → Except Exn (List Json)
  | [] => .ok output
  | trx :: rest =>
      match findPublicKeys trx (toString blockId) with
      | .error exception => .error exception
      | .ok entries =>
          match streamEntries platform blockId time trx output entries with
          | .error exception => .error exception
          | .ok output => streamTransactions platform blockId time output rest

/-- The rows that the stream job inserts, none if it ends in an exception. -/
def streamRows (platform : Platform) (blockId : Nat) (time : Int) (transactions : List Json) :
    List Json :=
  match streamTransactions platform blockId time [] transactions with
  | .ok rows => rows
  | .error _ => []

/-! ## What the rows carry -/

def IsRowOf (blockId : Nat) (row : Json) : Prop :=
  ∃ id : String, row.find? "id" = some (.str id) ∧ row.find? "block-id" = some (.num blockId)

theorem find?_textualId {trx row : Json} (converted : textualId trx = .ok row)
    (notNull : trx.isNull = false) {key : String} (other : key ≠ "transaction-id") :
    row.isObject = true ∧ row.find? key = trx.find? key := by
  obtain ⟨number, indexed, rest⟩ := bind_eq_ok.mp converted
  have isObj : trx.isObject = true := by
    cases trx <;> simp_all [Json.index, Json.isNull, Json.isObject]
  have assigned (text : String) :
      (trx.set "transaction-id" (.str text)).isObject = true ∧
        (trx.set "transaction-id" (.str text)).find? key = trx.find? key := by
    simp [isObj, Ne.symm other]
  split at rest
  · rw [← Except.ok.inj rest]
    exact assigned _
  · rw [← Except.ok.inj rest]
    exact assigned _
  · rw [← Except.ok.inj rest]
    exact ⟨isObj, rfl⟩

theorem find?_replaceKeys {keyFrom keyTo key : String} {trx : Json} (isObj : trx.isObject = true)
    (notFrom : key ≠ keyFrom) (notTo : key ≠ keyTo) :
    (replaceKeys keyFrom keyTo trx).isObject = true ∧
      (replaceKeys keyFrom keyTo trx).find? key = trx.find? key := by
  unfold replaceKeys
  split
  · exact ⟨isObj, rfl⟩
  · simp [Json.find?_erase, isObj, Ne.symm notFrom, Ne.symm notTo]

theorem find?_truncateDescription {maxLength : Nat} {trx row : Json} {key : String}
    (isObj : trx.isObject = true) (truncated : truncateDescription maxLength trx = .ok row)
    (other : key ≠ "description") : row.find? key = trx.find? key := by
  unfold truncateDescription at truncated
  split at truncated
  · rw [← Except.ok.inj truncated]
  · obtain ⟨text, -, rest⟩ := bind_eq_ok.mp truncated
    split at rest
    · rw [← Except.ok.inj rest]
      simp [isObj, Ne.symm other]
    · simp at rest

/-- The transaction with what every row adds to it. -/
def headed (blockId : Nat) (time : Int) (uniqId : String) (trx : Json) : Json :=
  ((trx.set "id" (.str uniqId)).set "block-id" (.num blockId)).set "timestamp" (.num time)

theorem find?_headed {blockId : Nat} {time : Int} {uniqId : String} {trx : Json}
    (isObj : trx.isObject = true) (key : String) :
    (headed blockId time uniqId trx).find? key =
      if "timestamp" = key then some (.num time)
      else if "block-id" = key then some (.num blockId)
      else if "id" = key then some (.str uniqId)
      else trx.find? key := by
  simp [headed, isObj]

section Row

variable {platform : Platform} {blockId : Nat} {time : Int} {uniqId : String} {trx row : Json}

/-- How a row is built: the id as a text, the type under its own name, the
description cut. -/
theorem streamRow_steps (built : streamRow platform blockId time uniqId trx = .ok row) :
    blockId < 2 ^ 64 ∧ ∃ textual, textualId (headed blockId time uniqId trx) = .ok textual ∧
      truncateDescription platform.descriptionMaxLength
        (replaceKeys "transaction-name" "transaction-type" textual) = .ok row := by
  obtain ⟨number, numbered, rest⟩ := bind_eq_ok.mp built
  obtain ⟨textual, converted, truncated⟩ := bind_eq_ok.mp rest
  unfold stoull at numbered
  split_ifs at numbered with small
  obtain rfl := Except.ok.inj numbered
  exact ⟨small, textual, converted, truncated⟩

theorem find?_streamRow (isObj : trx.isObject = true)
    (built : streamRow platform blockId time uniqId trx = .ok row) {key : String}
    (other : key ∉ ["transaction-id", "transaction-name", "transaction-type", "description"]) :
    row.find? key = (headed blockId time uniqId trx).find? key := by
  obtain ⟨-, textual, converted, truncated⟩ := streamRow_steps built
  simp only [List.mem_cons, List.not_mem_nil, or_false, not_or] at other
  obtain ⟨notNumber, notName, notType, notText⟩ := other
  have notNull : (headed blockId time uniqId trx).isNull = false := by
    cases trx <;> rfl
  obtain ⟨textualObj, textualEq⟩ := find?_textualId converted notNull notNumber
  obtain ⟨renamedObj, renamedEq⟩ := find?_replaceKeys textualObj notName notType
  rw [find?_truncateDescription renamedObj truncated notText, renamedEq, textualEq]

theorem isObject_of_streamRow (built : streamRow platform blockId time uniqId trx = .ok row) :
    trx.isObject = true ∨ trx = .null := by
  obtain ⟨-, textual, converted, -⟩ := streamRow_steps built
  obtain ⟨_, indexed, -⟩ := bind_eq_ok.mp converted
  cases trx with
  | obj members => exact .inl rfl
  | null => exact .inr rfl
  | _ => simp [headed, Json.set, Json.index] at indexed

theorem streamRow_isRowOf (built : streamRow platform blockId time uniqId trx = .ok row) :
    IsRowOf blockId row := by
  have ofObject (value : Json) (isObj : value.isObject = true)
      (builtOf : streamRow platform blockId time uniqId value = .ok row) :
      IsRowOf blockId row := by
    refine ⟨uniqId, ?_, ?_⟩
    · rw [find?_streamRow isObj builtOf (by decide), find?_headed isObj]
      simp
    · rw [find?_streamRow isObj builtOf (by decide), find?_headed isObj]
      simp
  rcases isObject_of_streamRow built with isObj | rfl
  · exact ofObject trx isObj built
  · exact ofObject (.obj []) rfl built

end Row

theorem streamEntries_isRowOf {platform : Platform} {blockId : Nat} {time : Int} {trx : Json}
    {output rows : List Json} {entries : List (String × String)}
    (before : ∀ row ∈ output, IsRowOf blockId row)
    (built : streamEntries platform blockId time trx output entries = .ok rows) :
    ∀ row ∈ rows, IsRowOf blockId row := by
  induction entries generalizing trx output with
  | nil =>
      rw [← Except.ok.inj built]
      exact before
  | cons head rest ih =>
      unfold streamEntries at built
      split at built
      · simp at built
      · rename_i new isNew
        apply ih _ built
        intro row member
        rcases List.mem_append.mp member with old | last
        · exact before row old
        · rw [List.mem_singleton.mp last]
          exact streamRow_isRowOf isNew

theorem streamTransactions_isRowOf {platform : Platform} {blockId : Nat} {time : Int}
    {output rows transactions : List Json} (before : ∀ row ∈ output, IsRowOf blockId row)
    (built : streamTransactions platform blockId time output transactions = .ok rows) :
    ∀ row ∈ rows, IsRowOf blockId row := by
  induction transactions generalizing output with
  | nil =>
      rw [← Except.ok.inj built]
      exact before
  | cons trx rest ih =>
      unfold streamTransactions at built
      split at built
      · simp at built
      · split at built
        · simp at built
        · rename_i made
          exact ih (streamEntries_isRowOf before made) built

theorem streamRows_isRowOf {platform : Platform} {blockId : Nat} {time : Int}
    {transactions : List Json} :
    ∀ row ∈ streamRows platform blockId time transactions, IsRowOf blockId row := by
  unfold streamRows
  split
  · rename_i built
    exact streamTransactions_isRowOf (by simp) built
  · simp

/-! ## The job -/

section Job

variable {platform : Platform} {blockId : Nat} {time : Int} {process : Process}
  (unmarked : ¬ (process.store .transactionsProcessing).Has (.str (toString blockId)))

include unmarked

theorem addStreamEntries_run (trx : Json) (output : List Json) (entries : List (String × String)) :
    (Db.addStreamEntries platform blockId time trx output entries).run Process.exec process =
      (streamEntries platform blockId time trx output entries, process) := by
  induction entries generalizing trx output with
  | nil => rfl
  | cons head rest ih =>
      simp only [Db.addStreamEntries, streamEntries, Program.run_bind, Db.run_getData,
        Cursor.count_get, unmarked, if_false]
      cases streamRow platform blockId time head.2 trx with
      | error exception => rfl
      | ok row => exact ih row (output ++ [row])

theorem addStreamTransactions_run (output transactions : List Json) :
    (Db.addStreamTransactions platform blockId time output transactions).run Process.exec process =
      (streamTransactions platform blockId time output transactions, process) := by
  induction transactions generalizing output with
  | nil => rfl
  | cons trx rest ih =>
      simp only [Db.addStreamTransactions, Db.addStreamTransaction, streamTransactions,
        Program.run_bind]
      cases findPublicKeys trx (toString blockId) with
      | error exception => rfl
      | ok entries =>
          simp only [addStreamEntries_run unmarked]
          cases streamEntries platform blockId time trx output entries with
          | error exception => rfl
          | ok rows => exact ih rows

theorem streamJob_run (transactions : List Json) :
    (Db.streamJob platform (.arr transactions) blockId time).run Process.exec process =
      ((), process.withTable .transactionsProcessing
        ((process.store .transactionsProcessing).insertMany
          (streamRows platform blockId time transactions))) := by
  have nothing : process.withTable .transactionsProcessing
      ((process.store .transactionsProcessing).insertMany []) = process := by
    rw [KeyedTable.insertMany_nil, Process.withTable, Function.update_eq_self]
  simp only [Db.streamJob, Program.run_bind, addStreamTransactions_run unmarked, streamRows,
    Json.elements]
  cases streamTransactions platform blockId time [] transactions with
  | error exception => exact congrArg (Prod.mk ()) nothing.symm
  | ok rows =>
      cases rows with
      | nil => exact congrArg (Prod.mk ()) nothing.symm
      | cons row rest => rfl

end Job

end MileExplorer
