import MileExplorer.TransactionHalves

/-!
# Descriptions

`add_stream_transaction` cuts the description of a transaction after a number
of bytes.  The cut description is a text exactly if no character stands across
the place of the cut; otherwise writing the transaction out throws, and with it
go all rows of the block.
-/

namespace MileExplorer

/-! ## Cutting a text after a number of bytes -/

def encodedLength : List Char → Nat
  | [] => 0
  | char :: rest => char.utf8Size + encodedLength rest

theorem encodedLength_append (front rest : List Char) :
    encodedLength (front ++ rest) = encodedLength front + encodedLength rest := by
  induction front with
  | nil => simp [encodedLength]
  | cons char front ih =>
      simp only [List.cons_append, encodedLength, ih]
      omega

theorem utf8ByteSize_ofList (chars : List Char) :
    (String.ofList chars).utf8ByteSize = encodedLength chars := by
  induction chars with
  | nil => rfl
  | cons char rest ih =>
      rw [← List.singleton_append, String.ofList_append, String.utf8ByteSize_append, ih]
      simp [encodedLength]

theorem utf8ByteSize_eq (text : String) : text.utf8ByteSize = encodedLength text.toList := by
  rw [← utf8ByteSize_ofList, String.ofList_toList]

/-- A character begins before the byte and ends after it. -/
def Straddles (size : Nat) (chars : List Char) : Prop :=
  ∃ front char rest, chars = front ++ char :: rest ∧ encodedLength front < size ∧
    size < encodedLength front + char.utf8Size

theorem straddles_cons {size : Nat} {char : Char} {rest : List Char} (fits : char.utf8Size ≤ size) :
    Straddles size (char :: rest) ↔ Straddles (size - char.utf8Size) rest := by
  constructor
  · rintro ⟨front, across, behind, same, before, after⟩
    cases front with
    | nil =>
        obtain ⟨rfl, -⟩ := List.cons.inj same
        simp only [encodedLength] at after
        omega
    | cons first front =>
        obtain ⟨rfl, tailEq⟩ := List.cons.inj same
        simp only [encodedLength] at before after
        exact ⟨front, across, behind, tailEq, by omega, by omega⟩
  · rintro ⟨front, across, behind, rfl, before, after⟩
    refine ⟨char :: front, across, behind, rfl, ?_, ?_⟩
    · simp only [encodedLength]
      omega
    · simp only [encodedLength]
      omega

theorem truncateBytes_cons {size : Nat} (positive : 0 < size) (char : Char) (rest : List Char) :
    truncateBytes size (char :: rest) =
      if char.utf8Size ≤ size then (truncateBytes (size - char.utf8Size) rest).map (char :: ·)
      else none := by
  cases size with
  | zero => omega
  | succ size => rfl

/-- The cut fails exactly inside a character. -/
theorem truncateBytes_eq_none {size : Nat} {chars : List Char} :
    truncateBytes size chars = none ↔ Straddles size chars := by
  induction chars generalizing size with
  | nil => simp [truncateBytes, Straddles]
  | cons char rest ih =>
      rcases Nat.eq_zero_or_pos size with rfl | positive
      · simp [truncateBytes, Straddles]
      · rw [truncateBytes_cons positive]
        split_ifs with fits
        · rw [straddles_cons fits, ← ih, Option.map_eq_none_iff]
        · refine iff_of_true rfl ⟨[], char, rest, rfl, positive, ?_⟩
          simp only [encodedLength]
          omega

/-- What is kept is the front of the text, of the length asked for if the text
is that long. -/
theorem truncateBytes_eq_some {size : Nat} {chars kept : List Char}
    (cut : truncateBytes size chars = some kept) :
    kept <+: chars ∧ encodedLength kept = min (encodedLength chars) size := by
  induction chars generalizing size kept with
  | nil =>
      obtain rfl : [] = kept := by simpa [truncateBytes] using cut
      simp [encodedLength]
  | cons char rest ih =>
      rcases Nat.eq_zero_or_pos size with rfl | positive
      · obtain rfl : [] = kept := by simpa [truncateBytes] using cut
        simp [encodedLength]
      · rw [truncateBytes_cons positive] at cut
        split_ifs at cut with fits
        obtain ⟨tail, tailCut, rfl⟩ := Option.map_eq_some_iff.mp cut
        obtain ⟨isPrefix, length⟩ := ih tailCut
        refine ⟨(List.prefix_cons_inj char).mpr isPrefix, ?_⟩
        simp only [encodedLength, length]
        omega

/-- A text that is short enough is kept. -/
theorem truncateBytes_of_le {size : Nat} {chars : List Char} (short : encodedLength chars ≤ size) :
    truncateBytes size chars = some chars := by
  induction chars generalizing size with
  | nil => simp [truncateBytes]
  | cons char rest ih =>
      have width := char.utf8Size_pos
      simp only [encodedLength] at short
      have later : truncateBytes (size - char.utf8Size) rest = some rest := ih (by omega)
      rw [truncateBytes_cons (by omega), if_pos (by omega), later, Option.map_some]

/-- `substr` of the bytes of a text, from the start. -/
def substr (text : String) (size : Nat) : ByteArray :=
  text.toByteArray.extract 0 (min text.utf8ByteSize size)

theorem toByteArray_truncateBytes {text : String} {size : Nat} {kept : List Char}
    (cut : truncateBytes size text.toList = some kept) :
    (String.ofList kept).toByteArray = substr text size := by
  obtain ⟨⟨rest, joined⟩, length⟩ := truncateBytes_eq_some cut
  have whole : text = String.ofList kept ++ String.ofList rest := by
    rw [← String.ofList_append, joined, String.ofList_toList]
  have size : min text.utf8ByteSize size = (String.ofList kept).toByteArray.size := by
    rw [String.size_toByteArray, utf8ByteSize_ofList, length, utf8ByteSize_eq]
  rw [substr, size, whole, String.toByteArray_append, ByteArray.extract_append_eq_left rfl]

/-- A front of a text ends between two characters. -/
theorem not_straddles_of_prefix {chars start : List Char} (isFront : start <+: chars) :
    ¬ Straddles (encodedLength start) chars := by
  rintro ⟨front, char, rest, joined, before, after⟩
  have across : front ++ [char] <+: chars := ⟨rest, by simp [joined]⟩
  have acrossLength : encodedLength (front ++ [char]) = encodedLength front + char.utf8Size := by
    rw [encodedLength_append]
    rfl
  -- Of two fronts of a text one is a front of the other.
  rcases List.prefix_or_prefix_of_prefix isFront across with inside | ⟨more, rfl⟩
  · rcases List.prefix_concat_iff.mp inside with rfl | ⟨more, rfl⟩
    · omega
    · rw [encodedLength_append] at before
      omega
  · rw [encodedLength_append] at after
    omega

/-- The bytes that are kept are a text exactly if the cut is not inside a
character. -/
theorem isValidUTF8_substr (text : String) (size : Nat) :
    (substr text size).IsValidUTF8 ↔ ¬ Straddles size text.toList := by
  constructor
  · intro valid across
    have length : min text.utf8ByteSize size = size := by
      obtain ⟨front, char, rest, joined, -, after⟩ := across
      rw [utf8ByteSize_eq, joined, encodedLength_append]
      simp only [encodedLength]
      omega
    rw [substr, length] at valid
    have boundary : (⟨size⟩ : String.Pos.Raw).IsValid text := by
      refine String.Pos.Raw.isValid_iff_isValidUTF8_extract_zero.mpr ⟨?_, valid⟩
      exact String.Pos.Raw.le_iff.mpr (min_eq_right_iff.mp length)
    obtain ⟨start, ending, split, sizeEq⟩ :=
      String.Pos.Raw.isValid_iff_exists_append.mp boundary
    have startLength : size = encodedLength start.toList := by
      rw [← utf8ByteSize_eq]
      exact congrArg String.Pos.Raw.byteIdx sizeEq
    have isFront : start.toList <+: text.toList := by
      rw [split, String.toList_append]
      exact List.prefix_append _ _
    rw [startLength] at across
    exact not_straddles_of_prefix isFront across
  · intro inside
    cases cut : truncateBytes size text.toList with
    | none => exact absurd (truncateBytes_eq_none.mp cut) inside
    | some kept =>
        rw [← toByteArray_truncateBytes cut]
        exact (String.ofList kept).isValidUTF8

/-! ## The description of a row -/

section Row

variable {platform : Platform} {blockId : Nat} {time : Int} {uniqId text : String} {trx : Json}

theorem textualId_ok (isObj : trx.isObject = true) : ∃ textual, textualId trx = .ok textual := by
  cases trx with
  | obj members =>
      simp only [textualId, Json.index]
      cases (Json.member? "transaction-id" members).getD .null <;> exact ⟨_, rfl⟩
  | _ => simp [Json.isObject] at isObj

/-- Up to the description, a row of an object is built without fail. -/
theorem streamRow_eq_truncateDescription (platform : Platform) (time : Int) (uniqId : String)
    (isObj : trx.isObject = true) (small : blockId < 2 ^ 64) :
    ∃ prepared : Json, prepared.isObject = true ∧
      prepared.find? "description" = trx.find? "description" ∧
      streamRow platform blockId time uniqId trx =
        truncateDescription platform.descriptionMaxLength prepared := by
  have headedObj : (headed blockId time uniqId trx).isObject = true := by
    simp [headed, isObj]
  have notNull : (headed blockId time uniqId trx).isNull = false := by
    cases trx <;> rfl
  obtain ⟨textual, converted⟩ := textualId_ok headedObj
  obtain ⟨textualObj, textualEq⟩ := find?_textualId converted notNull
    (show "description" ≠ "transaction-id" by decide)
  obtain ⟨renamedObj, renamedEq⟩ := find?_replaceKeys textualObj
    (show "description" ≠ "transaction-name" by decide)
    (show "description" ≠ "transaction-type" by decide)
  refine ⟨replaceKeys "transaction-name" "transaction-type" textual, renamedObj, ?_, ?_⟩
  · rw [renamedEq, textualEq, find?_headed isObj]
    simp
  · have numbered : stoull blockId = .ok blockId := by
      rw [stoull, if_pos small]
    unfold streamRow
    rw [numbered]
    change (textualId (headed blockId time uniqId trx) >>= _) = _
    rw [converted]
    rfl

variable (isObj : trx.isObject = true) (small : blockId < 2 ^ 64)
  (described : trx.find? "description" = some (.str text))

include isObj small described

theorem streamRow_kept (time : Int) (uniqId : String) {kept : List Char}
    (cut : truncateBytes platform.descriptionMaxLength text.toList = some kept) :
    ∃ row, streamRow platform blockId time uniqId trx = .ok row ∧ row.isObject = true ∧
      row.find? "description" = some (.str (String.ofList kept)) := by
  obtain ⟨prepared, preparedObj, describedEq, rowEq⟩ :=
    streamRow_eq_truncateDescription platform time uniqId isObj small
  refine ⟨prepared.set "description" (.str (String.ofList kept)), ?_, ?_, ?_⟩
  · rw [rowEq, truncateDescription, describedEq, described]
    simp only [Json.getString, bind, Except.bind, cut]
    rfl
  · simp [preparedObj]
  · simp [preparedObj]

theorem streamRow_straddled (across : Straddles platform.descriptionMaxLength text.toList) :
    streamRow platform blockId time uniqId trx = .error (.typeError "invalid UTF-8 byte") := by
  obtain ⟨prepared, -, describedEq, rowEq⟩ :=
    streamRow_eq_truncateDescription platform time uniqId isObj small
  rw [rowEq, truncateDescription, describedEq, described]
  simp only [Json.getString, bind, Except.bind, truncateBytes_eq_none.mpr across]

/-- All rows have the description as the first cut leaves it. -/
theorem streamEntries_kept (time : Int) {kept : List Char}
    (cut : truncateBytes platform.descriptionMaxLength text.toList = some kept)
    (entries : List (String × String)) :
    ∃ rows, streamEntries platform blockId time trx [] entries = .ok rows ∧
      ∀ row ∈ rows, row.find? "description" = some (.str (String.ofList kept)) := by
  induction entries generalizing trx text with
  | nil => exact ⟨[], rfl, by simp⟩
  | cons head rest ih =>
      obtain ⟨row, rowEq, rowObj, rowDescribed⟩ :=
        streamRow_kept isObj small described time head.2 cut
      have again : truncateBytes platform.descriptionMaxLength (String.ofList kept).toList =
          some kept := by
        rw [String.toList_ofList]
        apply truncateBytes_of_le
        rw [(truncateBytes_eq_some cut).2]
        exact min_le_right _ _
      obtain ⟨later, laterEq, laterDescribed⟩ := ih rowObj rowDescribed again
      refine ⟨row :: later, ?_, ?_⟩
      · rw [streamEntries, rowEq]
        dsimp only
        rw [streamEntries_append, laterEq]
        rfl
      · intro other member
        rcases List.mem_cons.mp member with rfl | isLater
        · exact rowDescribed
        · exact laterDescribed other isLater

end Row

/-! ## The description of a transaction -/

section Transaction

variable {platform : Platform} {process : Process} {blockId : Nat} {time : Int}
  {output bare : List Json} {trx : Json} {text : String} {entries : List (String × String)}

theorem constText_congr {first second : Json} {key : String} (firstObj : first.isObject = true)
    (secondObj : second.isObject = true) (same : first.find? key = second.find? key) :
    first.constText key = second.constText key := by
  cases first with
  | obj members =>
      cases second with
      | obj others =>
          have memberEq : Json.member? key members = Json.member? key others := same
          simp only [Json.constText, Json.indexConst, memberEq]
      | _ => simp [Json.isObject] at secondObj
  | _ => simp [Json.isObject] at firstObj

/-- The description has no part in the addresses. -/
theorem findPublicKeys_erase (isObj : trx.isObject = true) (block : String) :
    findPublicKeys (trx.erase "description") block = findPublicKeys trx block := by
  have bareObj : (trx.erase "description").isObject = true := by simp [isObj]
  have adds {name : String} (other : name ≠ "description") (found : List (String × String)) :
      addPublicKey (trx.erase "description") block found name =
        addPublicKey trx block found name := by
    have same : (trx.erase "description").find? name = trx.find? name := by
      simp [Json.find?_erase, other.symm]
    have sameNumber : (trx.erase "description").find? "transaction-id" =
        trx.find? "transaction-id" := by
      simp [Json.find?_erase]
    have sameCount : (trx.erase "description").count name = trx.count name := by
      simp [Json.count, same]
    simp only [addPublicKey, sameCount, constText_congr bareObj isObj same,
      constText_congr bareObj isObj sameNumber]
  simp only [findPublicKeys, List.foldlM_cons, List.foldlM_nil,
    adds (show "from" ≠ "description" by decide), adds (show "public-key" ≠ "description" by decide)]

theorem addStreamTransaction_unmarked (platform : Platform) (time : Int) (output : List Json)
    (unmarked : ¬ Marked process blockId)
    (found : findPublicKeys trx (toString blockId) = .ok entries) :
    ((Db.addStreamTransaction platform blockId time output trx).run Process.exec process).1 =
      (streamEntries platform blockId time trx [] entries).map (output ++ ·) := by
  simp only [Db.addStreamTransaction, found]
  rw [addStreamEntries_run unmarked, streamEntries_append]

/-- The transaction is accepted, and its rows have as description a front of
the given one that is not too long. -/
def KeepsDescription (platform : Platform) (process : Process) (blockId : Nat) (time : Int)
    (output : List Json) (trx : Json) (text : String) : Prop :=
  ∃ rows, ((Db.addStreamTransaction platform blockId time output trx).run Process.exec
      process).1 = .ok (output ++ rows) ∧
    ∀ row ∈ rows, ∃ kept, row.find? "description" = some (.str kept) ∧
      kept.toByteArray = substr text platform.descriptionMaxLength ∧
      kept.utf8ByteSize ≤ platform.descriptionMaxLength ∧ kept.toList <+: text.toList

/-- Of a transaction that is stored without its description, the bytes of the
description that are kept are a text, and it is stored with them, exactly if
no character stands across the place of the cut. -/
theorem description_kept_iff (described : trx.find? "description" = some (.str text))
    (stored : ((Db.addStreamTransaction platform blockId time output
      (trx.erase "description")).run Process.exec process).1 = .ok (output ++ bare))
    (rowsStored : bare ≠ []) :
    ((substr text platform.descriptionMaxLength).IsValidUTF8 ↔
      ¬ Straddles platform.descriptionMaxLength text.toList) ∧
    (KeepsDescription platform process blockId time output trx text ↔
      ¬ Straddles platform.descriptionMaxLength text.toList) := by
  refine ⟨isValidUTF8_substr text _, ?_⟩
  have isObj := Json.isObject_of_find? described
  obtain ⟨entries, found, left⟩ := addStreamTransaction_accepted stored
  rcases left with ⟨-, none⟩ | ⟨unmarked, built⟩
  · exact absurd none rowsStored
  have named : ¬ NoSender (trx.erase "description") := by
    intro noSender
    obtain rfl := (findPublicKeys_eq_nil found).mpr noSender
    exact rowsStored (Except.ok.inj built).symm
  have small := small_of_streamEntries found named built
  obtain ⟨head, rest, rfl⟩ := exists_head found named
  rw [findPublicKeys_erase isObj] at found
  have ran := addStreamTransaction_unmarked platform time output unmarked found
  constructor
  · rintro ⟨rows, accepted, -⟩ across
    rw [ran, streamEntries, streamRow_straddled isObj small described across] at accepted
    simp [Except.map] at accepted
  · intro inside
    cases cut : truncateBytes platform.descriptionMaxLength text.toList with
    | none => exact absurd (truncateBytes_eq_none.mp cut) inside
    | some kept =>
        obtain ⟨isFront, length⟩ := truncateBytes_eq_some cut
        obtain ⟨rows, rowsEq, keep⟩ :=
          streamEntries_kept isObj small described time cut (head :: rest)
        refine ⟨rows, ?_, ?_⟩
        · rw [ran, rowsEq]
          rfl
        · intro row member
          refine ⟨String.ofList kept, keep row member, toByteArray_truncateBytes cut, ?_, ?_⟩
          · rw [utf8ByteSize_ofList, length]
            exact min_le_right _ _
          · rw [String.toList_ofList]
            exact isFront

end Transaction

def describedTransfer (text : String) : Json := transfer.set "description" (.str text)

def shortPlatform : Platform := ⟨3, fun _ => 0⟩

theorem description_kept_iff_short :
    let bare : Json := .ofMembers [("id", .str "alice:7:0"), ("block-id", .num 7),
      ("timestamp", .num 100), ("from", .str "alice"), ("transaction-id", .str "0"),
      ("transaction-type", .str "TransferAssetsTransaction"), ("digest", .str "0x")]
    (describedTransfer "rent").find? "description" = some (.str "rent") ∧
    ((Db.addStreamTransaction shortPlatform 7 100 []
      ((describedTransfer "rent").erase "description")).run Process.exec
        (.idle Store.empty)).1 = .ok ([] ++ [bare]) ∧
    KeepsDescription shortPlatform (.idle Store.empty) 7 100 [] (describedTransfer "rent")
      "rent" := by
  intro bare
  have described : (describedTransfer "rent").find? "description" = some (.str "rent") := by
    decide +kernel
  have stored : ((Db.addStreamTransaction shortPlatform 7 100 []
      ((describedTransfer "rent").erase "description")).run Process.exec
        (.idle Store.empty)).1 = .ok ([] ++ [bare]) := by
    decide +kernel
  refine ⟨described, stored, (description_kept_iff described stored (by simp)).2.mpr ?_⟩
  rw [← truncateBytes_eq_none]
  decide +kernel

/-- The third and the fourth byte of the description are one character. -/
theorem straddling_description_rejected :
    ¬ KeepsDescription shortPlatform (.idle Store.empty) 7 100 [] (describedTransfer "caé")
      "caé" := by
  rintro ⟨rows, accepted, -⟩
  have rejected : ((Db.addStreamTransaction shortPlatform 7 100 []
      (describedTransfer "caé")).run Process.exec (.idle Store.empty)).1 =
        .error (.typeError "invalid UTF-8 byte") := by
    decide +kernel
  rw [rejected] at accepted
  cases accepted

end MileExplorer
