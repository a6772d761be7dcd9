import WebNode.WebDatabase.CoordinatedTransactions

/-!
# Shutting down the transaction coordinator

While the coordinator is shutting down, a notified transaction that releases its lock changes nothing.
So the loop over the pending transactions of a database never removes one, and `shutdown` returns only
if there are none.
-/

namespace WebNode.WebDatabase.SQLTransactionCoordinator

variable {coordinator later : SQLTransactionCoordinator} {identifier : String} {transaction : SQLTransactionBackend}
  {transactions others : List SQLTransactionBackend} {fuel : Nat}

/-- Some transactions were notified while the coordinator was shutting down. -/
structure Notifies (coordinator : SQLTransactionCoordinator) (transactions : List SQLTransactionBackend)
    (later : SQLTransactionCoordinator) : Prop where
  shuttingDown : later.isShuttingDown = true
  map : later.coordinationInfoMap = coordinator.coordinationInfoMap
  notified : later.notified = coordinator.notified ++ transactions

theorem Notifies.refl (shuttingDown : coordinator.isShuttingDown = true) : Notifies coordinator [] coordinator :=
  ⟨shuttingDown, rfl, (List.append_nil _).symm⟩

theorem Notifies.trans {middle : SQLTransactionCoordinator} (first : Notifies coordinator transactions middle)
    (second : Notifies middle others later) : Notifies coordinator (transactions ++ others) later :=
  ⟨second.shuttingDown, second.map.trans first.map, by rw [second.notified, first.notified, List.append_assoc]⟩

theorem Notifies.info (notifies : Notifies coordinator transactions later) (identifier : String) :
    later.info identifier = coordinator.info identifier := by
  rw [SQLTransactionCoordinator.info, notifies.map, SQLTransactionCoordinator.info]

/-- Whatever the transaction holds, its notification leaves the coordination info as it is. -/
theorem notify_shuttingDown (shuttingDown : coordinator.isShuttingDown = true) (transaction : SQLTransactionBackend) :
    ∃ later, coordinator.notifyDatabaseThreadIsShuttingDown transaction = some later ∧
      Notifies coordinator [transaction] later := by
  rw [notifyDatabaseThreadIsShuttingDown, SQLTransactionCoordinator.doCleanup]
  split
  · exact ⟨_, rfl, shuttingDown, rfl, rfl⟩
  · dsimp only
    split
    · rw [releaseLock, if_pos shuttingDown]
      exact ⟨_, rfl, shuttingDown, rfl, rfl⟩
    · exact ⟨_, rfl, shuttingDown, rfl, rfl⟩

theorem notifyAll_shuttingDown (shuttingDown : coordinator.isShuttingDown = true)
    (transactions : List SQLTransactionBackend) :
    ∃ later, transactions.foldlM notifyDatabaseThreadIsShuttingDown coordinator = some later ∧
      Notifies coordinator transactions later := by
  induction transactions generalizing coordinator with
  | nil => exact ⟨coordinator, rfl, .refl shuttingDown⟩
  | cons transaction transactions ih =>
    obtain ⟨middle, first, notifies⟩ := notify_shuttingDown shuttingDown transaction
    obtain ⟨later, rest, behind⟩ := ih notifies.shuttingDown
    exact ⟨later, by rw [List.foldlM_cons, first]; exact rest, notifies.trans behind⟩

/-- The first pending transaction is notified again and again. -/
theorem notifyPending_none (shuttingDown : coordinator.isShuttingDown = true)
    (waits : (coordinator.info identifier).pendingTransactions ≠ []) :
    notifyPending identifier fuel coordinator = none := by
  induction fuel generalizing coordinator with
  | zero => rfl
  | succ fuel ih =>
    obtain ⟨first, rest, pending⟩ := List.exists_cons_of_ne_nil waits
    obtain ⟨later, notified, notifies⟩ := notify_shuttingDown shuttingDown first
    simp only [notifyPending, pending, notified]
    exact ih notifies.shuttingDown (notifies.info identifier ▸ waits)

theorem notifyPending_some (ends : (coordinator.info identifier).pendingTransactions = []) :
    notifyPending identifier (fuel + 1) coordinator = some coordinator := by simp [notifyPending, ends]

/-- The transactions of a database that hold its lock. -/
def holders (coordinator : SQLTransactionCoordinator) (identifier : String) : List SQLTransactionBackend :=
  (coordinator.info identifier).activeWriteTransaction.toList ++ (coordinator.info identifier).activeReadTransactions

theorem mem_holders :
    transaction ∈ coordinator.holders identifier ↔ (coordinator.info identifier).Active transaction := by
  simp [holders, CoordinationInfo.Active]

theorem notifyDatabase_eq (shuttingDown : coordinator.isShuttingDown = true) (fuel : Nat) (identifier : String) :
    ∃ later, coordinator.notifyDatabase fuel identifier = notifyPending identifier fuel later ∧
      Notifies coordinator (coordinator.holders identifier) later := by
  obtain ⟨middle, first, notifies⟩ := notifyAll_shuttingDown shuttingDown
    (coordinator.info identifier).activeWriteTransaction.toList
  obtain ⟨later, second, behind⟩ := notifyAll_shuttingDown notifies.shuttingDown
    (coordinator.info identifier).activeReadTransactions
  exact ⟨later, by simp [notifyDatabase, first, second], notifies.trans behind⟩

/-- A database with a pending transaction stops the loop over the databases. -/
theorem notifyDatabases_none {order : List String} (shuttingDown : coordinator.isShuttingDown = true)
    (visited : identifier ∈ order) (waits : (coordinator.info identifier).pendingTransactions ≠ []) :
    order.foldlM (notifyDatabase fuel) coordinator = none := by
  induction order generalizing coordinator with
  | nil => cases visited
  | cons head order ih =>
    obtain ⟨later, returns, notifies⟩ := notifyDatabase_eq shuttingDown fuel head
    rw [List.foldlM_cons, returns]
    by_cases pending : (coordinator.info head).pendingTransactions = []
    · cases fuel with
      | zero => rfl
      | succ fuel =>
        rw [notifyPending_some (notifies.info head ▸ pending)]
        refine ih notifies.shuttingDown ((List.mem_cons.mp visited).resolve_left ?_) (notifies.info identifier ▸ waits)
        rintro rfl
        exact waits pending
    · rw [notifyPending_none notifies.shuttingDown (notifies.info head ▸ pending)]
      rfl

theorem notifyDatabases_some (order : List String) (shuttingDown : coordinator.isShuttingDown = true)
    (free : ∀ identifier, (coordinator.info identifier).pendingTransactions = []) :
    ∃ later, order.foldlM (notifyDatabase 1) coordinator = some later ∧
      Notifies coordinator (order.flatMap coordinator.holders) later := by
  induction order generalizing coordinator with
  | nil => exact ⟨coordinator, rfl, .refl shuttingDown⟩
  | cons head order ih =>
    obtain ⟨middle, returns, notifies⟩ := notifyDatabase_eq shuttingDown 1 head
    have same (identifier : String) : middle.holders identifier = coordinator.holders identifier := by
      rw [holders, notifies.info, holders]
    obtain ⟨later, rest, behind⟩ :=
      ih notifies.shuttingDown fun identifier => notifies.info identifier ▸ free identifier
    refine ⟨later, ?_, by simpa [List.flatMap_cons, funext same] using notifies.trans behind⟩
    rw [List.foldlM_cons, returns, notifyPending_some (notifies.info head ▸ free head)]
    exact rest

/-- A database that is not in the map has no transactions. -/
theorem mem_keys_of_active (active : (coordinator.info identifier).Active transaction) :
    identifier ∈ coordinator.coordinationInfoMap.keys := by
  by_contra absent
  rw [SQLTransactionCoordinator.info, AList.lookup_eq_none.mpr (AList.mem_keys.not.mpr absent)] at active
  simp [CoordinationInfo.Active] at active

theorem mem_keys_of_pending (waits : (coordinator.info identifier).pendingTransactions ≠ []) :
    identifier ∈ coordinator.coordinationInfoMap.keys := by
  by_contra absent
  rw [SQLTransactionCoordinator.info, AList.lookup_eq_none.mpr (AList.mem_keys.not.mpr absent)] at waits
  exact waits rfl

/-- The coordinator returns with no coordination info, and has notified all that hold or want a lock. -/
def ShutsDown (coordinator : SQLTransactionCoordinator) (order : List String) : Prop :=
  ∃ fuel later, coordinator.shutdown fuel order = some later ∧ later.coordinationInfoMap = ∅ ∧
    ∀ identifier transaction, (coordinator.info identifier).Active transaction ∨
      transaction ∈ (coordinator.info identifier).pendingTransactions → transaction ∈ later.notified

/-- The coordinator shuts down exactly if no transaction is pending, whatever the order of the databases. -/
theorem shutsDown_iff (coordinator : SQLTransactionCoordinator) (order : List String)
    (visits : order.Perm coordinator.coordinationInfoMap.keys) :
    coordinator.ShutsDown order ↔ ∀ identifier, (coordinator.info identifier).pendingTransactions = [] := by
  constructor
  · rintro ⟨fuel, later, returns, _⟩ identifier
    by_contra waits
    have stuck := @notifyDatabases_none { coordinator with isShuttingDown := true } identifier fuel order rfl
      (visits.mem_iff.mpr (mem_keys_of_pending waits)) waits
    rw [shutdown, stuck] at returns
    cases returns
  · intro free
    obtain ⟨later, returns, notifies⟩ :=
      @notifyDatabases_some { coordinator with isShuttingDown := true } order rfl free
    refine ⟨1, { later with coordinationInfoMap := ∅ }, by rw [shutdown, returns]; rfl, rfl, ?_⟩
    rintro identifier transaction (active | pending)
    · rw [show later.notified = _ from notifies.notified]
      exact List.mem_append_right _ (List.mem_flatMap.mpr
        ⟨identifier, visits.mem_iff.mpr (mem_keys_of_active active), mem_holders.mpr active⟩)
    · rw [free identifier] at pending
      cases pending

theorem shutsDown_iff_example :
    ShutsDown (acquireLock {} ⟨1, "http_example.org_0", false⟩).1 ["http_example.org_0"] :=
  (shutsDown_iff _ _ (.refl _)).mpr fun identifier => by
    rcases eq_or_ne identifier "http_example.org_0" with rfl | apart
    · rfl
    · rw [acquireLock, info_process_of_ne apart]
      rfl

/-- A reader that waits for the writer of its database keeps the coordinator from shutting down. -/
theorem waiting_never_shuts_down :
    ∃ trace coordinator, Run trace coordinator ∧ ¬ShutsDown coordinator coordinator.coordinationInfoMap.keys ∧
      ∀ fuel, coordinator.shutdown fuel coordinator.coordinationInfoMap.keys = none := by
  have stuck (fuel : Nat) : shutdown fuel ["http_example.org_0"]
      (acquireLock (acquireLock {} ⟨1, "http_example.org_0", false⟩).1 ⟨2, "http_example.org_0", true⟩).1 = none := by
    rw [shutdown, @notifyDatabases_none _ "http_example.org_0" fuel _ rfl (by simp) (by decide)]
    rfl
  refine ⟨_, _, run_waiting, ?_, stuck⟩
  rintro ⟨fuel, later, returns, _⟩
  cases returns.symm.trans (stuck fuel)

end WebNode.WebDatabase.SQLTransactionCoordinator
