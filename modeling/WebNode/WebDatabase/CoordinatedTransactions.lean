import Mathlib.Data.List.Nodup
import Mathlib.Data.List.TakeWhile
import WebNode.WebDatabase.TransactionCoordinator

/-!
# Transactions are coordinated as readers and writers

The transactions of a database that have acquired are those that were granted the lock followed by
those that are pending. The first pending transaction waits for an active one that excludes it.
-/

namespace WebNode.WebDatabase

variable {info : CoordinationInfo} {transaction first next : SQLTransactionBackend}
  {active pending acquired granted cleaned : List SQLTransactionBackend}

/-- The transactions that hold the lock of a database. -/
def CoordinationInfo.Active (info : CoordinationInfo) (transaction : SQLTransactionBackend) : Prop :=
  info.activeWriteTransaction = some transaction ∨ transaction ∈ info.activeReadTransactions

/-! ### Granting the lock -/

theorem grantReaders_cons (first : SQLTransactionBackend) (pending active : List SQLTransactionBackend) :
    grantReaders (first :: pending) active =
      (pending.dropWhile (·.isReadOnly),
        (pending.takeWhile (·.isReadOnly)).foldl (fun reading reader => reading.insert reader)
        (active.insert first), first :: pending.takeWhile (·.isReadOnly)) := by
  induction pending generalizing first active with
  | nil => simp [grantReaders]
  | cons next rest ih =>
    rw [grantReaders, List.head?_cons, Option.any_some]
    cases reads : next.isReadOnly with
    | true => simp [ih, reads]
    | false => simp [reads]

theorem mem_foldl_insert (readers active : List SQLTransactionBackend) :
    transaction ∈ readers.foldl (fun reading reader => reading.insert reader) active ↔ transaction ∈ active ∨
      transaction ∈ readers := by
  induction readers generalizing active with
  | nil => simp
  | cons reader readers ih => simp [ih, or_comm, or_left_comm, or_assoc]

theorem nodup_foldl_insert (readers : List SQLTransactionBackend) (distinct : active.Nodup) :
    (readers.foldl (fun reading reader => reading.insert reader) active).Nodup := by
  induction readers generalizing active with
  | nil => exact distinct
  | cons reader readers ih => exact ih distinct.insert

/-- The information agrees with what was acquired, granted and cleaned up among the transactions of a
database. -/
structure Serves (info : CoordinationInfo) (acquired granted cleaned : List SQLTransactionBackend) : Prop where
  order : acquired = granted ++ info.pendingTransactions
  writer : ∀ transaction, info.activeWriteTransaction = some transaction ↔
    (transaction ∈ granted ∧ transaction ∉ cleaned) ∧ transaction.isReadOnly = false
  readers : ∀ transaction, transaction ∈ info.activeReadTransactions ↔
    (transaction ∈ granted ∧ transaction ∉ cleaned) ∧ transaction.isReadOnly = true
  distinct : info.activeReadTransactions.Nodup
  exclusive : info.activeWriteTransaction ≠ none → info.activeReadTransactions = []

/-- The first pending transaction has to wait. -/
def Blocked (info : CoordinationInfo) : Prop :=
  ∀ next ∈ info.pendingTransactions.head?,
    info.activeWriteTransaction ≠ none ∨ next.isReadOnly = false ∧ info.activeReadTransactions ≠ []

theorem Serves.active_iff (serves : Serves info acquired granted cleaned) (transaction : SQLTransactionBackend) :
    info.Active transaction ↔ transaction ∈ granted ∧ transaction ∉ cleaned := by
  rw [CoordinationInfo.Active, serves.writer, serves.readers, ← and_or_left]
  cases transaction.isReadOnly <;> simp

/-- Pending transactions that are taken from the front become active. -/
theorem Serves.grant (serves : Serves info acquired granted cleaned) {taken left reading : List SQLTransactionBackend}
    {writing : Option SQLTransactionBackend} (split : info.pendingTransactions = taken ++ left)
    (fresh : ∀ transaction ∈ taken, transaction ∉ cleaned)
    (writer : ∀ transaction, writing = some transaction ↔
      info.activeWriteTransaction = some transaction ∨ transaction ∈ taken ∧ transaction.isReadOnly = false)
    (readers : ∀ transaction, transaction ∈ reading ↔
      transaction ∈ info.activeReadTransactions ∨ transaction ∈ taken ∧ transaction.isReadOnly = true)
    (distinct : reading.Nodup) (exclusive : writing ≠ none → reading = []) :
    Serves ⟨left, reading, writing⟩ acquired (granted ++ taken) cleaned where
  order := by rw [serves.order, split, List.append_assoc]
  writer transaction := by
    rw [writer, serves.writer, List.mem_append]
    grind
  readers transaction := by
    rw [readers, serves.readers, List.mem_append]
    grind
  distinct := distinct
  exclusive := exclusive

/-- What processing the pending transactions comes to. -/
structure Processed (info : CoordinationInfo) (acquired granted cleaned : List SQLTransactionBackend)
    (result : CoordinationInfo × List SQLTransactionBackend) : Prop where
  taken : ∀ transaction ∈ result.2, transaction ∈ info.pendingTransactions
  serves : Serves result.1 acquired (granted ++ result.2) cleaned
  blocked : Blocked result.1

theorem Serves.stay (serves : Serves info acquired granted cleaned) (blocked : Blocked info) :
    Processed info acquired granted cleaned (info, []) where
  taken := by simp
  serves := by simpa using serves
  blocked := blocked

/-- The leading readers become active together. -/
theorem Serves.grantReaders (serves : Serves ⟨first :: pending, active, none⟩ acquired granted cleaned)
    (fresh : ∀ transaction ∈ first :: pending, transaction ∉ cleaned) (reads : first.isReadOnly = true) :
    Processed ⟨first :: pending, active, none⟩ acquired granted cleaned
      (⟨pending.dropWhile (·.isReadOnly),
        (pending.takeWhile (·.isReadOnly)).foldl (fun reading reader => reading.insert reader)
        (active.insert first), none⟩, first :: pending.takeWhile (·.isReadOnly)) := by
  have taken (transaction : SQLTransactionBackend) (member : transaction ∈ first :: pending.takeWhile (·.isReadOnly)) :
      transaction ∈ first :: pending ∧ transaction.isReadOnly = true := by
    rcases List.mem_cons.mp member with rfl | member
    · exact ⟨List.mem_cons_self, reads⟩
    · exact ⟨List.mem_cons_of_mem _ ((List.takeWhile_prefix _).subset member), List.mem_takeWhile_imp member⟩
  refine ⟨fun transaction member => (taken transaction member).1, serves.grant (by simp)
    (fun transaction member => fresh transaction (taken transaction member).1) (fun transaction => ?_)
      (fun transaction => ?_)
    (nodup_foldl_insert _ serves.distinct.insert) (by simp), fun next head => .inr ⟨?_, ?_⟩⟩
  · refine ⟨nofun, ?_⟩
    rintro (⟨⟨⟩⟩ | ⟨member, writes⟩)
    rw [(taken transaction member).2] at writes
    cases writes
  · rw [mem_foldl_insert, List.mem_insert_iff, and_iff_left_of_imp fun member => (taken transaction member).2,
      List.mem_cons]
    tauto
  · have stopped := List.head?_dropWhile_not (·.isReadOnly) pending
    rwa [show (pending.dropWhile (·.isReadOnly)).head? = some next from head] at stopped
  · exact List.ne_nil_of_mem ((@mem_foldl_insert first _ _).mpr (.inl List.mem_insert_self))

/-- A writer becomes active alone. -/
theorem Serves.grantWriter (serves : Serves ⟨first :: pending, [], none⟩ acquired granted cleaned)
    (fresh : first ∉ cleaned) (writes : first.isReadOnly = false) :
    Processed ⟨first :: pending, [], none⟩ acquired granted cleaned (⟨pending, [], some first⟩, [first]) := by
  refine ⟨by simp,
    serves.grant (by simp) (by simpa using fresh) (fun transaction => ?_) (fun transaction => ?_) (by simp)
    (by simp), fun _ _ => .inl (by simp)⟩
  · simp only [reduceCtorEq, false_or, List.mem_singleton, Option.some.injEq]
    exact ⟨fun same => ⟨same.symm, same ▸ writes⟩, fun same => same.1.symm⟩
  · simp only [List.not_mem_nil, false_or, List.mem_singleton, false_iff]
    rintro ⟨rfl, reads⟩
    rw [writes] at reads
    cases reads

/-- Processing grants the lock to transactions at the front of the queue, until the first has to wait. -/
theorem Serves.process (serves : Serves info acquired granted cleaned)
    (fresh : ∀ transaction ∈ info.pendingTransactions, transaction ∉ cleaned) :
    Processed info acquired granted cleaned (processPendingTransactions info) := by
  obtain ⟨pending, active, writing⟩ := info
  cases writing with
  | some writer => exact serves.stay fun _ _ => .inl (by simp)
  | none =>
    cases pending with
    | nil => exact serves.stay (by simp [Blocked])
    | cons first pending =>
      cases reads : first.isReadOnly with
      | true =>
        simp only [processPendingTransactions, if_pos reads, grantReaders_cons]
        exact serves.grantReaders fresh reads
      | false =>
        simp only [processPendingTransactions, reads, Bool.false_eq_true, if_false]
        cases active with
        | nil => exact serves.grantWriter (fresh first List.mem_cons_self) reads
        | cons reader readers =>
          refine serves.stay fun next head => .inr ⟨?_, by simp⟩
          obtain rfl := Option.some.inj head
          exact reads

/-! ### Acquiring and releasing -/

theorem Serves.acquire (serves : Serves info acquired granted cleaned) (transaction : SQLTransactionBackend) :
    Serves { info with pendingTransactions := info.pendingTransactions ++ [transaction] }
    (acquired ++ [transaction]) granted cleaned :=
  { serves with order := by rw [serves.order, List.append_assoc] }

/-- A transaction of another database is cleaned up. -/
theorem Serves.clean (serves : Serves info acquired granted cleaned) (absent : transaction ∉ granted) :
    Serves info acquired granted (cleaned ++ [transaction]) where
  order := serves.order
  writer other := by
    rw [serves.writer]
    grind
  readers other := by
    rw [serves.readers]
    grind
  distinct := serves.distinct
  exclusive := serves.exclusive

theorem Serves.release (serves : Serves info acquired granted cleaned)
    (holds : transaction ∈ granted ∧ transaction ∉ cleaned) :
    Serves (info.release transaction) acquired granted (cleaned ++ [transaction]) := by
  rw [CoordinationInfo.release]
  split
  · next reads =>
    refine ⟨serves.order, fun other => ?_, fun other => ?_, serves.distinct.erase _, fun writing => ?_⟩
    · rw [serves.writer]
      grind
    · rw [serves.distinct.mem_erase_iff, serves.readers]
      grind
    · simp [serves.exclusive writing]
  · next writes =>
    have writer := (serves.writer transaction).mpr ⟨holds, by simpa using writes⟩
    refine ⟨serves.order, fun other => ⟨nofun, fun ⟨⟨member, fresh⟩, alone⟩ => ?_⟩, fun other => ?_, serves.distinct,
      nofun⟩
    · simp only [List.mem_append, List.mem_singleton, not_or] at fresh
      have other := (serves.writer other).mpr ⟨⟨member, fresh.1⟩, alone⟩
      exact absurd (Option.some.inj (other.symm.trans writer)) fresh.2
    · rw [serves.readers]
      grind

/-! ### The invariant -/

/-- The transactions of one database. -/
def ofDatabase (identifier : String) (transactions : List SQLTransactionBackend) : List SQLTransactionBackend :=
  transactions.filter (·.databaseIdentifier = identifier)

@[simp] theorem mem_ofDatabase {identifier : String} {transactions : List SQLTransactionBackend} :
    transaction ∈ ofDatabase identifier transactions ↔ transaction ∈ transactions ∧
      transaction.databaseIdentifier = identifier := by
  simp [ofDatabase]

theorem ofDatabase_append (identifier : String) (first second : List SQLTransactionBackend) :
    ofDatabase identifier (first ++ second) = ofDatabase identifier first ++ ofDatabase identifier second :=
      List.filter_append ..

theorem ofDatabase_eq_self {identifier : String} {transactions : List SQLTransactionBackend}
    (all : ∀ transaction ∈ transactions, transaction.databaseIdentifier = identifier) :
    ofDatabase identifier transactions = transactions := List.filter_eq_self.mpr (by simpa using all)

theorem ofDatabase_eq_nil {identifier other : String} {transactions : List SQLTransactionBackend}
    (all : ∀ transaction ∈ transactions, transaction.databaseIdentifier = identifier) (apart : other ≠ identifier) :
    ofDatabase other transactions = [] :=
  List.filter_eq_nil_iff.mpr fun transaction member => by simpa [all transaction member] using apart.symm

theorem nodup_of_order {identifier : String} {transactions : List SQLTransactionBackend} (distinct : transactions.Nodup)
    (order : ofDatabase identifier transactions = granted ++ pending) :
    granted.Nodup ∧ pending.Nodup ∧ granted.Disjoint pending :=
  List.nodup_append'.mp (order ▸ show (ofDatabase identifier transactions).Nodup from distinct.filter _)

namespace SQLTransactionCoordinator

variable {coordinator later : SQLTransactionCoordinator} {trace : Trace} {identifier other : String}

/-- One database is served, and its first pending transaction waits. -/
def Serves (coordinator : SQLTransactionCoordinator) (trace : Trace) (identifier : String) : Prop :=
  WebDatabase.Serves (coordinator.info identifier) (ofDatabase identifier trace.acquired)
    (ofDatabase identifier trace.granted)
    trace.released ∧ Blocked (coordinator.info identifier)

/-- The fields of the coordinator and of the transactions agree with the calls of the run. -/
structure Invariant (trace : Trace) (coordinator : SQLTransactionCoordinator) : Prop where
  running : coordinator.isShuttingDown = false
  lockAcquired : coordinator.lockAcquired = trace.granted
  cleaned : coordinator.cleaned = trace.released
  distinct : trace.acquired.Nodup
  known : ∀ transaction ∈ trace.released, transaction ∈ trace.granted
  serves : ∀ identifier, coordinator.Serves trace identifier

theorem info_process_self :
    (coordinator.process identifier info).1.info identifier = (processPendingTransactions info).1 := by
  simp [SQLTransactionCoordinator.info, process]

theorem info_process_of_ne (apart : other ≠ identifier) :
    (coordinator.process identifier info).1.info other = coordinator.info other := by
  simp [SQLTransactionCoordinator.info, process, AList.lookup_insert_ne apart]

/-- A call that ends with processing one database completes the invariant. -/
theorem Invariant.process {call : TransactionCall} (running : coordinator.isShuttingDown = false)
    (lockAcquired : coordinator.lockAcquired = trace.granted) {acquired released : List SQLTransactionBackend}
    (acquired_eq : trace.acquired ++ call.acquires.toList = acquired) (cleaned : coordinator.cleaned = released)
    (released_eq : trace.released ++ call.cleansUp.toList = released) (distinct : acquired.Nodup)
    (known : ∀ transaction ∈ released, transaction ∈ trace.granted)
    (serves : WebDatabase.Serves info (ofDatabase identifier acquired) (ofDatabase identifier trace.granted) released)
    (others : ∀ other, other ≠ identifier → WebDatabase.Serves (coordinator.info other) (ofDatabase other acquired)
      (ofDatabase other trace.granted) released ∧ Blocked (coordinator.info other)) :
    Invariant (trace ++ [(call, (coordinator.process identifier info).2)]) (coordinator.process identifier info).1 := by
  have owned (transaction : SQLTransactionBackend) (member : transaction ∈ info.pendingTransactions) :
      transaction ∈ ofDatabase identifier acquired := by
    rw [serves.order]
    exact List.mem_append_right _ member
  have split := nodup_of_order distinct serves.order
  have fresh (transaction : SQLTransactionBackend) (member : transaction ∈ info.pendingTransactions) :
      transaction ∉ released := fun gone =>
    split.2.2 (mem_ofDatabase.mpr ⟨known transaction gone, (mem_ofDatabase.mp (owned transaction member)).2⟩) member
  have processed := serves.process fresh
  have taken (transaction : SQLTransactionBackend) (member : transaction ∈ (processPendingTransactions info).2) :
      transaction.databaseIdentifier = identifier :=
    (mem_ofDatabase.mp (owned transaction (processed.taken transaction member))).2
  have granted_eq : Trace.granted (trace ++ [(call, (coordinator.process identifier info).2)]) =
      trace.granted ++ (processPendingTransactions info).2 := by simp [Trace.granted, SQLTransactionCoordinator.process]
  have acquired_eq : Trace.acquired (trace ++ [(call, (coordinator.process identifier info).2)]) = acquired := by
    rw [← acquired_eq]
    cases call <;> simp [Trace.acquired, TransactionCall.acquires]
  have released_eq : Trace.released (trace ++ [(call, (coordinator.process identifier info).2)]) = released := by
    rw [← released_eq]
    cases call <;> simp [Trace.released, TransactionCall.cleansUp]
  refine ⟨running, ?_, cleaned.trans released_eq.symm, acquired_eq ▸ distinct, fun transaction member => ?_,
    fun other => ?_⟩
  · rw [granted_eq, ← lockAcquired]
    rfl
  · rw [granted_eq]
    exact List.mem_append_left _ (known transaction (released_eq ▸ member))
  rw [Serves, granted_eq, acquired_eq, released_eq, ofDatabase_append]
  rcases eq_or_ne other identifier with rfl | apart
  · rw [info_process_self, ofDatabase_eq_self taken]
    exact ⟨processed.serves, processed.blocked⟩
  · rw [info_process_of_ne apart, ofDatabase_eq_nil taken apart, List.append_nil]
    exact others other apart

theorem Invariant.initial : Invariant [] {} where
  running := rfl
  lockAcquired := rfl
  cleaned := rfl
  distinct := List.nodup_nil
  known := by simp [Trace.released]
  serves identifier := by
    refine ⟨⟨rfl, fun transaction => ?_, fun transaction => ?_, List.nodup_nil, fun _ => rfl⟩,
      by simp [Blocked, SQLTransactionCoordinator.info]⟩
    · simp [SQLTransactionCoordinator.info, ofDatabase, Trace.granted]
    · simp [SQLTransactionCoordinator.info, ofDatabase, Trace.granted]

theorem Invariant.acquireLock (invariant : Invariant trace coordinator) (fresh : transaction ∉ trace.acquired) :
    Invariant (trace ++ [(.acquireLock transaction, (coordinator.acquireLock transaction).2)])
      (coordinator.acquireLock transaction).1 := by
  have all (other : SQLTransactionBackend) (member : other ∈ [transaction]) :
      other.databaseIdentifier = transaction.databaseIdentifier := by rw [List.mem_singleton.mp member]
  refine Invariant.process invariant.running invariant.lockAcquired rfl invariant.cleaned (List.append_nil _)
    (by simpa [TransactionCall.acquires, List.nodup_append'] using ⟨invariant.distinct, fresh⟩) invariant.known ?_
    fun other apart => ?_
  · rw [TransactionCall.acquires, Option.toList_some, ofDatabase_append, ofDatabase_eq_self all]
    exact (invariant.serves _).1.acquire transaction
  · rw [TransactionCall.acquires, Option.toList_some, ofDatabase_append, ofDatabase_eq_nil all apart, List.append_nil]
    exact invariant.serves other

/-- The lock that is released is one of a database that has information. -/
theorem Invariant.lookup (invariant : Invariant trace coordinator)
    (holds : transaction ∈ trace.granted ∧ transaction ∉ trace.released) :
    coordinator.coordinationInfoMap.lookup transaction.databaseIdentifier =
      some (coordinator.info transaction.databaseIdentifier) := by
  have active := ((invariant.serves transaction.databaseIdentifier).1.active_iff transaction).mpr
    ⟨mem_ofDatabase.mpr ⟨holds.1, rfl⟩, holds.2⟩
  rw [SQLTransactionCoordinator.info] at active ⊢
  cases found : coordinator.coordinationInfoMap.lookup transaction.databaseIdentifier with
  | some info => rfl
  | none => simp [found, CoordinationInfo.Active] at active

theorem Invariant.doCleanup (invariant : Invariant trace coordinator)
    (holds : transaction ∈ trace.granted ∧ transaction ∉ trace.released) :
    ∃ later notified, coordinator.doCleanup transaction = some (later, notified) ∧
      Invariant (trace ++ [(.doCleanup transaction, notified)]) later := by
  rw [SQLTransactionCoordinator.doCleanup, if_neg (invariant.cleaned ▸ holds.2)]
  simp only [if_pos (invariant.lockAcquired ▸ holds.1), releaseLock, invariant.running, Bool.false_eq_true, if_false,
    invariant.lookup holds, Option.map_some]
  refine ⟨_, _, rfl,
    Invariant.process rfl invariant.lockAcquired (List.append_nil _) (congrArg (· ++ _) invariant.cleaned) rfl
    invariant.distinct (fun other member => ?_) ?_ fun other apart => ?_⟩
  · rcases List.mem_append.mp member with member | last
    · exact invariant.known other member
    · exact List.mem_singleton.mp last ▸ holds.1
  · exact (invariant.serves _).1.release ⟨mem_ofDatabase.mpr ⟨holds.1, rfl⟩, holds.2⟩
  · obtain ⟨serves, blocked⟩ := invariant.serves other
    exact ⟨serves.clean fun member => apart (mem_ofDatabase.mp member).2.symm, blocked⟩

/-- Every permitted call returns and keeps the invariant. -/
theorem Invariant.step (invariant : Invariant trace coordinator) {call : TransactionCall}
    (permitted : trace.Permits call) :
    ∃ later notified, coordinator.step call = some (later, notified) ∧
      Invariant (trace ++ [(call, notified)]) later := by
  cases call with
  | acquireLock transaction => exact ⟨_, _, rfl, invariant.acquireLock permitted⟩
  | doCleanup transaction => exact invariant.doCleanup permitted

theorem Run.invariant (run : Run trace coordinator) : Invariant trace coordinator := by
  induction run with
  | start => exact .initial
  | step _ permitted stepped invariant =>
    obtain ⟨later, notified, same, kept⟩ := invariant.step permitted
    obtain ⟨rfl, rfl⟩ := Prod.mk.inj (Option.some.inj (same.symm.trans stepped))
    exact kept

/-! ### Readers and writers -/

/-- What readers and writers, and the queue of each database, may rely on after the calls of a run. -/
structure Coordinated (trace : Trace) (coordinator : SQLTransactionCoordinator) : Prop where
  exclusive : ∀ identifier writer other, (coordinator.info identifier).activeWriteTransaction = some writer →
    (coordinator.info identifier).Active other → other = writer
  ordered : ∀ identifier, ofDatabase identifier trace.granted <+: ofDatabase identifier trace.acquired
  pending : ∀ identifier transaction, transaction ∈ (coordinator.info identifier).pendingTransactions ↔
    transaction.databaseIdentifier = identifier ∧ transaction ∈ trace.acquired ∧ transaction ∉ trace.granted
  active : ∀ identifier transaction, (coordinator.info identifier).Active transaction ↔
    transaction.databaseIdentifier = identifier ∧ transaction ∈ trace.granted ∧ transaction ∉ trace.released
  notified : ∀ transaction ∈ trace.released, transaction ∈ trace.granted
  busy : ∀ identifier, (coordinator.info identifier).pendingTransactions ≠ [] → ∃ transaction,
    (coordinator.info identifier).Active transaction
  served : ∀ identifier before transaction behind,
    ofDatabase identifier trace.acquired = before ++ transaction :: behind →
    (∀ earlier ∈ before, earlier ∈ trace.released) → transaction ∈ trace.granted

theorem Invariant.pending_iff (invariant : Invariant trace coordinator) (identifier : String)
    (transaction : SQLTransactionBackend) : transaction ∈ (coordinator.info identifier).pendingTransactions ↔
      transaction.databaseIdentifier = identifier ∧ transaction ∈ trace.acquired ∧ transaction ∉ trace.granted := by
  have order := (invariant.serves identifier).1.order
  have apart := (nodup_of_order invariant.distinct order).2.2
  have member : transaction ∈ ofDatabase identifier trace.acquired ↔
      transaction ∈ ofDatabase identifier trace.granted ∨
        transaction ∈ (coordinator.info identifier).pendingTransactions := by
    rw [order, List.mem_append]
  rw [mem_ofDatabase, mem_ofDatabase] at member
  constructor
  · intro pending
    obtain ⟨acquired, same⟩ := member.mpr (.inr pending)
    exact ⟨same, acquired, fun granted => apart (mem_ofDatabase.mpr ⟨granted, same⟩) pending⟩
  · rintro ⟨same, acquired, waits⟩
    exact (member.mp ⟨acquired, same⟩).resolve_left fun granted => waits granted.1

/-- A database with a pending transaction has an active one. -/
theorem Invariant.busy (invariant : Invariant trace coordinator)
    (waits : (coordinator.info identifier).pendingTransactions ≠ []) :
    ∃ transaction, (coordinator.info identifier).Active transaction := by
  obtain ⟨next, head⟩ := Option.isSome_iff_exists.mp (List.isSome_head?.mpr waits)
  rcases (invariant.serves identifier).2 next head with writing | ⟨_, reading⟩
  · obtain ⟨writer, found⟩ := Option.ne_none_iff_exists'.mp writing
    exact ⟨writer, .inl found⟩
  · obtain ⟨reader, member⟩ := List.exists_mem_of_ne_nil _ reading
    exact ⟨reader, .inr member⟩

/-- A transaction is granted the lock once all that acquired before it have released. -/
theorem Invariant.served (invariant : Invariant trace coordinator) {before behind : List SQLTransactionBackend}
    (acquired : ofDatabase identifier trace.acquired = before ++ transaction :: behind)
    (released : ∀ earlier ∈ before, earlier ∈ trace.released) : transaction ∈ trace.granted := by
  by_contra waits
  obtain ⟨serves, _⟩ := invariant.serves identifier
  obtain ⟨present, same⟩ := mem_ofDatabase.mp (acquired ▸ List.mem_append_right before List.mem_cons_self)
  have pending := (invariant.pending_iff identifier transaction).mpr ⟨same, present, waits⟩
  obtain ⟨holder, active⟩ := invariant.busy (List.ne_nil_of_mem pending)
  obtain ⟨granted, held⟩ := (serves.active_iff holder).mp active
  -- the granted transactions end before the one that waits, so the holder is one that has released
  have earlier : ofDatabase identifier trace.granted <+: before := by
    rcases List.append_eq_append_iff.mp (serves.order.symm.trans acquired) with ⟨rest, split, _⟩ | ⟨rest, split, behind⟩
    · exact ⟨rest, split.symm⟩
    · cases rest with
      | nil => exact split ▸ by simp
      | cons head rest =>
        obtain ⟨rfl, _⟩ := List.cons.inj behind
        exact absurd (mem_ofDatabase.mp (split ▸ List.mem_append_right before List.mem_cons_self)).1 waits
  exact held (released holder (earlier.subset granted))

theorem Invariant.coordinated (invariant : Invariant trace coordinator) : Coordinated trace coordinator where
  exclusive identifier writer other writing active := by
    rcases active with same | reading
    · exact Option.some.inj (same.symm.trans writing)
    · rw [(invariant.serves identifier).1.exclusive (by simp [writing])] at reading
      cases reading
  ordered identifier := ⟨_, (invariant.serves identifier).1.order.symm⟩
  pending := invariant.pending_iff
  active identifier transaction := by
    rw [(invariant.serves identifier).1.active_iff, mem_ofDatabase]
    tauto
  notified := invariant.known
  busy _ := invariant.busy
  served _ _ _ _ := invariant.served

/-- After the calls of every run, the readers and writers of every database are coordinated, and every call
that the transactions may make next returns. -/
theorem run_coordinated (trace : Trace) (coordinator : SQLTransactionCoordinator) (run : Run trace coordinator) :
    Coordinated trace coordinator ∧ ∀ call, trace.Permits call → ∃ result, coordinator.step call = some result :=
  ⟨run.invariant.coordinated, fun _ permitted =>
    let ⟨later, notified, stepped, _⟩ := run.invariant.step permitted
    ⟨(later, notified), stepped⟩⟩

/-- A writer, on which a reader waits. -/
theorem run_waiting : Run [(.acquireLock ⟨1, "http_example.org_0", false⟩, [⟨1, "http_example.org_0", false⟩]),
      (.acquireLock ⟨2, "http_example.org_0", true⟩, [])]
    (acquireLock (acquireLock {} ⟨1, "http_example.org_0", false⟩).1 ⟨2, "http_example.org_0", true⟩).1 :=
  @Run.step [_] _ _ (.acquireLock _) _ (@Run.step [] _ _ (.acquireLock _) _ .start (by decide) rfl) (by decide) rfl

/-- The reader is granted the lock when the writer releases it. -/
theorem run_coordinated_example : ∃ coordinator, Coordinated [(.acquireLock ⟨1, "http_example.org_0", false⟩,
    [⟨1, "http_example.org_0", false⟩]), (.acquireLock ⟨2, "http_example.org_0", true⟩, []),
    (.doCleanup ⟨1, "http_example.org_0", false⟩, [⟨2, "http_example.org_0", true⟩])] coordinator :=
  ⟨_, (run_coordinated _ _ (@Run.step [_, _] _ _ (.doCleanup _) _ run_waiting (by decide) rfl)).1⟩

end SQLTransactionCoordinator

end WebNode.WebDatabase
