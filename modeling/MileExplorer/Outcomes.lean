import MileExplorer.Requests

/-!
# What the handlers do

A handler decides a request when it leaves a result that is not null, or an
error, or throws an exception of the JSON library.  All handlers decide all
requests, with two exceptions: the reserved block id ends a handler silently,
and `std::stoull` throws an exception of its own.
-/

namespace MileExplorer

/-- The outcome gives the response exactly one of a result and an error, when
it had neither. -/
def Decides : Except Exn Outcome → Prop
  | .ok .silent => False
  | .ok (.fails _) => True
  | .ok (.answers result) => result ≠ .null
  | .error (.standard _) => False
  | .error _ => True

def JsonFails {Value : Type} (value : Except Exn Value) : Prop :=
  ∀ what, value ≠ .error (.standard what)

section JsonFails

variable {Value Other : Type}

@[simp]
theorem jsonFails_ok (value : Value) : JsonFails (.ok value : Except Exn Value) := by
  simp [JsonFails]

@[simp]
theorem jsonFails_pure (value : Value) : JsonFails (pure value : Except Exn Value) :=
  jsonFails_ok value

theorem JsonFails.bind {value : Except Exn Value} {next : Value → Except Exn Other}
    (first : JsonFails value) (rest : ∀ result, value = .ok result → JsonFails (next result)) :
    JsonFails (value >>= next) := by
  cases value with
  | error exception =>
      intro what same
      exact first what (by simpa [Bind.bind, Except.bind] using same)
  | ok result => exact rest result rfl

@[simp]
theorem jsonFails_at? (value : Json) (key : String) : JsonFails (value.at? key) := by
  intro what
  unfold Json.at?
  split
  · split <;> simp
  · simp

@[simp]
theorem jsonFails_index (value : Json) (key : String) : JsonFails (value.index key) := by
  cases value <;> simp [JsonFails, Json.index]

@[simp]
theorem jsonFails_getString (value : Json) : JsonFails value.getString := by
  cases value <;> simp [JsonFails, Json.getString]

@[simp]
theorem jsonFails_getUInt64 (value : Json) : JsonFails value.getUInt64 := by
  cases value <;> simp [JsonFails, Json.getUInt64]

@[simp]
theorem jsonFails_getUInt16 (value : Json) : JsonFails value.getUInt16 := by
  cases value <;> simp [JsonFails, Json.getUInt16]

end JsonFails

theorem getDataOf_ne_null (answer : Except DbError Json) : getDataOf answer ≠ .null := by
  unfold getDataOf
  split <;> simp_all

namespace Api

@[simp]
theorem jsonFails_textOf (params : Json) (param : String) : JsonFails (textOf params param) :=
  (jsonFails_at? _ _).bind fun _ _ => jsonFails_getString _

@[simp]
theorem jsonFails_numberOf (params : Json) (param : String) :
    JsonFails (numberOf params param) :=
  (jsonFails_at? _ _).bind fun _ _ => jsonFails_getUInt64 _

@[simp]
theorem jsonFails_transactionBlockId (params : Json) : JsonFails (transactionBlockId params) := by
  unfold transactionBlockId
  split
  · exact jsonFails_ok _
  · refine (jsonFails_at? _ _).bind fun value _ => ?_
    split
    · exact (jsonFails_getUInt64 _).bind fun _ _ => jsonFails_ok _
    · exact (jsonFails_getString _).bind fun _ _ => jsonFails_ok _

@[simp]
theorem jsonFails_getBlockId (api : NodeApi) (params : Json) (param : String) :
    JsonFails (getBlockId api params param) := by
  unfold getBlockId
  split
  · exact jsonFails_ok _
  · refine (jsonFails_at? _ _).bind fun value _ => ?_
    split
    · exact (jsonFails_getUInt64 _).bind fun _ _ => jsonFails_ok _
    · refine (jsonFails_getString _).bind fun id _ => ?_
      split <;> exact jsonFails_ok _

end Api

section Decides

variable {Value : Type}

@[simp]
theorem decides_fails (message : String) :
    Decides (pure (.fails message) : Except Exn Outcome) := trivial

@[simp]
theorem decides_answers (result : Json) :
    Decides (pure (.answers result) : Except Exn Outcome) ↔ result ≠ .null := Iff.rfl

theorem decides_bind {value : Except Exn Value} {next : Value → Except Exn Outcome}
    (fails : JsonFails value) :
    Decides (value >>= next) ↔ ∀ result, value = .ok result → Decides (next result) := by
  cases value with
  | error exception =>
      cases exception with
      | standard what => exact absurd rfl (fails what)
      | _ => simp [Bind.bind, Except.bind, Decides]
  | ok result => simp [Bind.bind, Except.bind]

theorem Decides.bind {value : Except Exn Value} {next : Value → Except Exn Outcome}
    (fails : JsonFails value) (decides : ∀ result, Decides (next result)) :
    Decides (value >>= next) :=
  (decides_bind fails).mpr fun result _ => decides result

namespace Api

theorem decides_check {params : Json} {param : String} {rest : Except Exn Outcome} :
    Decides (check params param rest) ↔ (0 < params.count param → Decides rest) := by
  unfold check
  split
  · rename_i absent
    simp [Decides, absent]
  · rename_i present
    simp [Nat.pos_of_ne_zero present]

def LimitPasses (params : Json) : Prop :=
  0 < params.count "first" ∧ ∃ limit ≤ 1000, numberOf params "limit" = .ok limit

theorem count_of_numberOf {params : Json} {param : String} {number : Nat}
    (read : numberOf params param = .ok number) : 0 < params.count param := by
  obtain ⟨value, valueEq, _⟩ := bind_eq_ok.mp read
  exact Json.count_pos.mpr ⟨value, Json.find?_of_at? valueEq⟩

theorem count_of_textOf {params : Json} {param text : String}
    (read : textOf params param = .ok text) : 0 < params.count param := by
  obtain ⟨value, valueEq, _⟩ := bind_eq_ok.mp read
  exact Json.count_pos.mpr ⟨value, Json.find?_of_at? valueEq⟩

theorem decides_checkLimit {params : Json} {rest : Except Exn Outcome} :
    Decides (checkLimit params rest) ↔ (LimitPasses params → Decides rest) := by
  have read : ∀ next : Nat → Except Exn Outcome,
      (params.at? "limit" >>= fun value => value.getUInt64 >>= next) =
        numberOf params "limit" >>= next := fun next => by
    simp [numberOf, Bind.bind, Except.bind]
    cases params.at? "limit" <;> rfl
  rw [checkLimit, decides_check, decides_check, read]
  rw [decides_bind (jsonFails_numberOf _ _)]
  constructor
  · rintro decided ⟨first, limit, small, limitEq⟩
    simpa [Nat.not_lt.mpr small] using decided first (count_of_numberOf limitEq) limit limitEq
  · intro decided first _ limit limitEq
    split
    · exact decides_fails _
    · rename_i small
      exact decided ⟨first, limit, Nat.not_lt.mp small, limitEq⟩

/-- `get_block_id` reads the reserved id without reporting an error. -/
def ReadsReserved (api : NodeApi) (params : Json) (param : String) : Prop :=
  getBlockId api params param = .ok (reservedBlockId, .silent)

/-- `std::stoull` fails in `get_transaction_id`. -/
def Overflows (params : Json) (param : String) : Prop :=
  ∃ what, getTransactionId params param = .error (.standard what)

theorem getBlockId_outcome {api : NodeApi} {params : Json} {param : String} {blockId : Nat}
    {outcome : Outcome} (read : getBlockId api params param = .ok (blockId, outcome)) :
    outcome = .silent ∨ ∃ message, outcome = .fails message := by
  unfold getBlockId at read
  split at read
  · exact .inr ⟨_, (Prod.mk.inj (Except.ok.inj read)).2.symm⟩
  · obtain ⟨value, -, read⟩ := bind_eq_ok.mp read
    split at read
    · obtain ⟨number, -, read⟩ := bind_eq_ok.mp read
      exact .inl (Prod.mk.inj (Except.ok.inj read)).2.symm
    · obtain ⟨id, -, read⟩ := bind_eq_ok.mp read
      split at read
      · exact .inr ⟨_, (Prod.mk.inj (Except.ok.inj read)).2.symm⟩
      · exact .inl (Prod.mk.inj (Except.ok.inj read)).2.symm

theorem decides_getBlockId (api : NodeApi) (params : Json) (param : String)
    (query : Nat → Except DbError Json) :
    Decides (getBlockId api params param >>= fun (blockId, outcome) =>
        if blockId = reservedBlockId then pure outcome
        else pure (.answers (getDataOf (query blockId)))) ↔
      ¬ ReadsReserved api params param := by
  rw [decides_bind (jsonFails_getBlockId _ _ _)]
  constructor
  · intro decided reserved
    simpa [Decides, pure, Except.pure] using decided _ reserved
  · rintro read ⟨blockId, outcome⟩ readEq
    by_cases same : blockId = reservedBlockId
    · subst same
      rcases getBlockId_outcome readEq with rfl | ⟨message, rfl⟩
      · exact absurd readEq read
      · simp [Decides, pure, Except.pure]
    · simpa [same] using getDataOf_ne_null (query blockId)

theorem decides_getTransactionId {params : Json} {param : String}
    {next : Nat → Except Exn Outcome} (decided : ∀ first, Decides (next first)) :
    Decides (getTransactionId params param >>= next) ↔ ¬ Overflows params param := by
  cases read : getTransactionId params param with
  | ok first => simp [Overflows, read, Bind.bind, Except.bind, decided]
  | error exception => cases exception <;> simp [Overflows, read, Bind.bind, Except.bind, Decides]

end Api

end Decides

namespace Method

open Api

def HasPublicKey (params : Json) : Prop := ∃ key, textOf params "public-key" = .ok key

/-- The handler returns without a result and without an error. -/
def Overlooks (api : NodeApi) (params : Json) : Method → Prop
  | .getBlock => ReadsReserved api params "id"
  | .getBlockHistory => LimitPasses params ∧ ReadsReserved api params "first"
  | .getWalletHistoryBlocks =>
      HasPublicKey params ∧ LimitPasses params ∧ ReadsReserved api params "first"
  | _ => False

/-- The handler throws an exception that is not one of the JSON library. -/
def Throws (params : Json) : Method → Prop
  | .getTransactionHistory => LimitPasses params ∧ Overflows params "first"
  | .getWalletHistoryTransactions =>
      HasPublicKey params ∧ LimitPasses params ∧ Overflows params "first"
  | _ => False

/-- The handler answers without looking at the parameters. -/
def Unconditional (store : Store) : Method → Prop
  | .getBlockchainInfo | .getStatisticsList | .getVersion | .help | .ping => True
  | .getBlockHistoryState =>
      ∃ count, Db.blockHistoryCount (getDataOf (Db.blockHistoryState store)) = .ok count
  | .getNetworkState => (getDataOf (Db.networkState store)).isObject = true
  | .getTransactionHistoryState =>
      (getDataOf (Db.transactionHistoryState store)).isNumber = true
  | _ => False

variable (api : NodeApi) (registered : List Method) (params : Json) (store : Store)

theorem getTransaction_decides : Decides (Api.getTransaction params store) := by
  unfold Api.getTransaction
  split
  · exact Decides.bind (jsonFails_textOf _ _) fun _ => getDataOf_ne_null _
  · refine decides_check.mpr fun _ => Decides.bind (jsonFails_at? _ _) fun param => ?_
    split
    · refine decides_check.mpr fun _ => Decides.bind (jsonFails_textOf _ _) fun publicKey => ?_
      refine Decides.bind (jsonFails_transactionBlockId _) fun blockId => ?_
      cases blockId with
      | none => exact decides_fails _
      | some blockId =>
          exact Decides.bind (jsonFails_getUInt64 _) fun _ => getDataOf_ne_null _
    · split
      · refine Decides.bind (jsonFails_textOf _ _) fun publicKey => ?_
        refine Decides.bind (jsonFails_transactionBlockId _) fun blockId => ?_
        exact Decides.bind (jsonFails_getString _) fun _ => getDataOf_ne_null _
      · exact Decides.bind (jsonFails_getString _) fun _ => getDataOf_ne_null _

theorem getStatistics_decides : Decides (Api.getStatistics api params store) := by
  refine decides_check.mpr fun _ => Decides.bind (jsonFails_textOf _ _) fun name => ?_
  split
  · exact getDataOf_ne_null _
  · split
    · exact getDataOf_ne_null _
    · split
      · refine decides_check.mpr fun _ => decides_check.mpr fun _ => ?_
        refine Decides.bind ((jsonFails_at? _ _).bind fun _ _ => jsonFails_getUInt16 _)
          fun code => Decides.bind (jsonFails_numberOf _ _) fun limit => ?_
        dsimp only
        split
        · exact decides_fails _
        · exact getDataOf_ne_null _
      · exact decides_fails _

theorem getBlockHistoryState_decides : Decides (Api.getBlockHistoryState store) := by
  have fails : JsonFails (Db.blockHistoryCount (getDataOf (Db.blockHistoryState store))) :=
    (jsonFails_index _ _).bind fun _ _ => (jsonFails_getUInt64 _).bind fun _ _ => jsonFails_ok _
  exact Decides.bind fails fun count => Decides.bind (jsonFails_index _ _) fun _ => nofun

theorem getNodes_decides : Decides (Api.getNodes params store) := by
  refine decides_checkLimit.mpr fun _ => Decides.bind (jsonFails_numberOf _ _) fun first => ?_
  exact Decides.bind (jsonFails_numberOf _ _) fun limit => getDataOf_ne_null _

theorem getBlockHistory_decides :
    Decides (Api.getBlockHistory api params store) ↔
      (LimitPasses params → ¬ ReadsReserved api params "first") := by
  rw [Api.getBlockHistory, decides_checkLimit]
  refine imp_congr_right fun passes => ?_
  obtain ⟨-, limit, -, limitEq⟩ := passes
  rw [limitEq]
  exact decides_getBlockId api params "first" fun blockId =>
    Db.blockHistory (blockId % 2 ^ 64) limit store

theorem getTransactionHistory_decides :
    Decides (Api.getTransactionHistory params store) ↔
      (LimitPasses params → ¬ Overflows params "first") := by
  rw [Api.getTransactionHistory, decides_checkLimit]
  refine imp_congr_right fun _ => decides_getTransactionId fun first => ?_
  exact Decides.bind (jsonFails_numberOf _ _) fun limit => getDataOf_ne_null _

theorem getWalletHistoryBlocks_decides :
    Decides (Api.getWalletHistoryBlocks api params store) ↔
      (HasPublicKey params → LimitPasses params → ¬ ReadsReserved api params "first") := by
  rw [Api.getWalletHistoryBlocks, decides_check, decides_checkLimit]
  constructor
  · rintro decided ⟨key, keyEq⟩ passes
    have := decided (count_of_textOf keyEq) passes
    obtain ⟨-, limit, -, limitEq⟩ := passes
    rw [keyEq, limitEq] at this
    exact (decides_getBlockId api params "first" fun blockId =>
      Db.walletHistoryBlocks key (blockId % 2 ^ 64) limit store).mp this
  · intro unreserved _ passes
    refine (decides_bind (jsonFails_textOf _ _)).mpr fun key keyEq => ?_
    refine Decides.bind (jsonFails_numberOf _ _) fun limit => ?_
    exact (decides_getBlockId api params "first" fun blockId =>
      Db.walletHistoryBlocks key (blockId % 2 ^ 64) limit store).mpr
        (unreserved ⟨key, keyEq⟩ passes)

theorem getWalletHistoryTransactions_decides :
    Decides (Api.getWalletHistoryTransactions params store) ↔
      (HasPublicKey params → LimitPasses params → ¬ Overflows params "first") := by
  rw [Api.getWalletHistoryTransactions, decides_check, decides_checkLimit]
  constructor
  · rintro decided ⟨key, keyEq⟩ passes
    have := decided (count_of_textOf keyEq) passes
    obtain ⟨-, limit, -, limitEq⟩ := passes
    rw [keyEq, limitEq] at this
    refine (decides_getTransactionId fun first => ?_).mp this
    exact getDataOf_ne_null (Db.walletHistoryTransactions key first limit store)
  · intro converts _ passes
    refine (decides_bind (jsonFails_textOf _ _)).mpr fun key keyEq => ?_
    refine Decides.bind (jsonFails_numberOf _ _) fun limit => ?_
    refine (decides_getTransactionId fun first => ?_).mpr (converts ⟨key, keyEq⟩ passes)
    exact getDataOf_ne_null (Db.walletHistoryTransactions key first limit store)

theorem getWalletHistoryState_decides : Decides (Api.getWalletHistoryState params store) :=
  decides_check.mpr fun _ => Decides.bind (jsonFails_textOf _ _) fun _ => nofun

theorem getWalletNode_decides : Decides (Api.getWalletNode params store) :=
  decides_check.mpr fun _ => Decides.bind (jsonFails_textOf _ _) fun _ => getDataOf_ne_null _

/-- Every handler decides, but for the reserved block id and a transaction id
that `std::stoull` rejects. -/
theorem call_decides_iff (method : Method) :
    Decides (method.call api registered params store) ↔
      ¬ method.Overlooks api params ∧ ¬ method.Throws params := by
  cases method with
  | getBlock =>
      refine (decides_getBlockId api params "id" fun blockId =>
        Db.blockById blockId store).trans ?_
      simp [Overlooks, Throws]
  | getBlockHistory =>
      refine (getBlockHistory_decides api params store).trans ?_
      simp [Overlooks, Throws]
  | getTransactionHistory =>
      refine (getTransactionHistory_decides params store).trans ?_
      simp [Overlooks, Throws]
  | getWalletHistoryBlocks =>
      refine (getWalletHistoryBlocks_decides api params store).trans ?_
      simp [Overlooks, Throws]
  | getWalletHistoryTransactions =>
      refine (getWalletHistoryTransactions_decides params store).trans ?_
      simp [Overlooks, Throws]
  | getBlockHistoryState => exact iff_of_true (getBlockHistoryState_decides store) ⟨id, id⟩
  | getBlockchainInfo => exact iff_of_true (getDataOf_ne_null _) ⟨id, id⟩
  | getNetworkState =>
      exact iff_of_true (Decides.bind (jsonFails_index _ _) fun _ => nofun) ⟨id, id⟩
  | getNodes => exact iff_of_true (getNodes_decides params store) ⟨id, id⟩
  | getStatistics => exact iff_of_true (getStatistics_decides api params store) ⟨id, id⟩
  | getStatisticsList => exact iff_of_true (nofun : Json.ofMembers _ ≠ .null) ⟨id, id⟩
  | getTransaction => exact iff_of_true (getTransaction_decides params store) ⟨id, id⟩
  | getTransactionHistoryState =>
      exact iff_of_true (Decides.bind (jsonFails_getUInt64 _) fun _ => nofun) ⟨id, id⟩
  | getVersion => exact iff_of_true (nofun : Json.num _ ≠ .null) ⟨id, id⟩
  | getWalletHistoryState => exact iff_of_true (getWalletHistoryState_decides params store) ⟨id, id⟩
  | getWalletNode => exact iff_of_true (getWalletNode_decides params store) ⟨id, id⟩
  | help => exact iff_of_true (nofun : helpOf registered ≠ .null) ⟨id, id⟩
  | ping => exact iff_of_true (nofun : Json.bool true ≠ .null) ⟨id, id⟩

theorem getBlockHistoryState_answers_iff :
    (∃ result, Api.getBlockHistoryState store = .ok (.answers result)) ↔
      ∃ count, Db.blockHistoryCount (getDataOf (Db.blockHistoryState store)) = .ok count := by
  constructor
  · rintro ⟨result, resultEq⟩
    obtain ⟨count, countEq, -⟩ := bind_eq_ok.mp resultEq
    exact ⟨count, countEq⟩
  · rintro ⟨count, countEq⟩
    -- a state with a block id is an object, so reading the time does not throw
    obtain ⟨last, lastEq, -⟩ := bind_eq_ok.mp countEq
    obtain ⟨timestamp, timestampEq⟩ : ∃ timestamp,
        (getDataOf (Db.blockHistoryState store)).index "timestamp" = .ok timestamp := by
      cases state : getDataOf (Db.blockHistoryState store) <;>
        simp_all [Json.index]
    simp [Api.getBlockHistoryState, countEq, timestampEq, Bind.bind, Except.bind, pure,
      Except.pure]

theorem getNetworkState_answers_iff :
    (∃ result, Api.getNetworkState store = .ok (.answers result)) ↔
      (getDataOf (Db.networkState store)).isObject = true := by
  have notNull := getDataOf_ne_null (Db.networkState store)
  unfold Api.getNetworkState
  generalize getDataOf (Db.networkState store) = state at notNull ⊢
  cases state <;>
    simp_all [Json.index, Json.isObject, Bind.bind, Except.bind, pure, Except.pure]

theorem getTransactionHistoryState_answers_iff :
    (∃ result, Api.getTransactionHistoryState store = .ok (.answers result)) ↔
      (getDataOf (Db.transactionHistoryState store)).isNumber = true := by
  unfold Api.getTransactionHistoryState
  cases getDataOf (Db.transactionHistoryState store) <;>
    simp [Json.getUInt64, Json.isNumber, Bind.bind, Except.bind, pure, Except.pure]

/-- Without parameters the handlers that look at them report an error. -/
theorem call_null_answers_iff (method : Method) :
    (∃ result, method.call api registered .null store = .ok (.answers result)) ↔
      method.Unconditional store := by
  cases method with
  | getBlock | getBlockHistory | getNodes | getStatistics | getTransaction
  | getTransactionHistory | getWalletHistoryBlocks | getWalletHistoryState
  | getWalletHistoryTransactions | getWalletNode =>
      refine iff_of_false ?_ id
      rintro ⟨result, resultEq⟩
      cases resultEq
  | getBlockHistoryState => exact getBlockHistoryState_answers_iff store
  | getNetworkState => exact getNetworkState_answers_iff store
  | getTransactionHistoryState => exact getTransactionHistoryState_answers_iff store
  | getBlockchainInfo | getStatisticsList | getVersion | help | ping =>
      exact iff_of_true ⟨_, rfl⟩ trivial

end Method

end MileExplorer
