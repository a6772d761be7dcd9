import Mathlib.Data.List.AList

/-!
# The transaction coordinator of the web database

`SQLTransactionCoordinator` hands out the lock of each database to one writer or to any number of
readers. A transaction is notified by `lockAcquired` and gives the lock back from `doCleanup`.
-/

namespace WebNode.WebDatabase

/-- What the coordinator reads of a transaction, which is known by its address. -/
structure SQLTransactionBackend where
  address : Nat
  databaseIdentifier : String
  isReadOnly : Bool
  deriving DecidableEq

structure CoordinationInfo where
  pendingTransactions : List SQLTransactionBackend := []
  activeReadTransactions : List SQLTransactionBackend := []
  activeWriteTransaction : Option SQLTransactionBackend := none
  deriving DecidableEq

abbrev CoordinationInfoMap := AList fun _ : String => CoordinationInfo

/-- The coordinator, with the fields of the transactions that its calls change. -/
structure SQLTransactionCoordinator where
  coordinationInfoMap : CoordinationInfoMap := ∅
  isShuttingDown : Bool := false
  /-- The transactions whose `m_lockAcquired` is set. -/
  lockAcquired : List SQLTransactionBackend := []
  /-- The transactions whose `m_frontend` is null. -/
  cleaned : List SQLTransactionBackend := []
  /-- The transactions that `notifyDatabaseThreadIsShuttingDown` was called on. -/
  notified : List SQLTransactionBackend := []

/-- The loop over the leading readers: what stays pending, what is active, and the calls of `lockAcquired`. -/
def grantReaders : List SQLTransactionBackend → List SQLTransactionBackend →
    List SQLTransactionBackend × List SQLTransactionBackend × List SQLTransactionBackend
  | [], active => ([], active, [])
  | transaction :: pending, active =>
    -- the condition is tested behind the body, so the first transaction is taken in any case
    if pending.head?.any (·.isReadOnly) then
      let (left, reading, granted) := grantReaders pending (active.insert transaction)
      (left, reading, transaction :: granted)
    else (pending, active.insert transaction, [transaction])

/-- The information after the call, and the transactions `lockAcquired` is called on. -/
def processPendingTransactions (info : CoordinationInfo) : CoordinationInfo × List SQLTransactionBackend :=
  match info.activeWriteTransaction, info.pendingTransactions with
  | some _, _ => (info, [])
  | none, [] => (info, [])
  | none, first :: rest =>
    if first.isReadOnly then
      let (pending, active, granted) := grantReaders (first :: rest) info.activeReadTransactions
      ({ info with pendingTransactions := pending, activeReadTransactions := active }, granted)
    else if info.activeReadTransactions.isEmpty then
      ({ info with pendingTransactions := rest, activeWriteTransaction := some first }, [first])
    else (info, [])

/-- What `releaseLock` takes out of the information. -/
def CoordinationInfo.release (info : CoordinationInfo) (transaction : SQLTransactionBackend) : CoordinationInfo :=
  if transaction.isReadOnly then { info with activeReadTransactions := info.activeReadTransactions.erase transaction }
  else { info with activeWriteTransaction := none }

namespace SQLTransactionCoordinator

/-- Process the pending transactions of a database whose information was changed. The second part of a
result are the transactions that `lockAcquired` is called on. -/
def process (coordinator : SQLTransactionCoordinator) (identifier : String) (info : CoordinationInfo) :
    SQLTransactionCoordinator × List SQLTransactionBackend :=
  ({ coordinator with
      coordinationInfoMap := coordinator.coordinationInfoMap.insert identifier (processPendingTransactions info).1
      lockAcquired := coordinator.lockAcquired ++ (processPendingTransactions info).2 },
    (processPendingTransactions info).2)

/-- The information on a database, which is empty until a transaction of it has acquired a lock. -/
def info (coordinator : SQLTransactionCoordinator) (identifier : String) : CoordinationInfo :=
  (coordinator.coordinationInfoMap.lookup identifier).getD {}

def acquireLock (coordinator : SQLTransactionCoordinator) (transaction : SQLTransactionBackend) :
    SQLTransactionCoordinator × List SQLTransactionBackend :=
  let info := coordinator.info transaction.databaseIdentifier
  coordinator.process transaction.databaseIdentifier
    { info with pendingTransactions := info.pendingTransactions ++ [transaction] }

/-- There is no result if the database has no information, which the source only asserts. -/
def releaseLock (coordinator : SQLTransactionCoordinator) (transaction : SQLTransactionBackend) :
    Option (SQLTransactionCoordinator × List SQLTransactionBackend) :=
  if coordinator.isShuttingDown then some (coordinator, [])
  else
    (coordinator.coordinationInfoMap.lookup transaction.databaseIdentifier).map fun info =>
      coordinator.process transaction.databaseIdentifier (info.release transaction)

def doCleanup (coordinator : SQLTransactionCoordinator) (transaction : SQLTransactionBackend) :
    Option (SQLTransactionCoordinator × List SQLTransactionBackend) :=
  if transaction ∈ coordinator.cleaned then some (coordinator, [])
  else
    let coordinator := { coordinator with cleaned := coordinator.cleaned ++ [transaction] }
    if transaction ∈ coordinator.lockAcquired then coordinator.releaseLock transaction else some (coordinator, [])

def notifyDatabaseThreadIsShuttingDown (coordinator : SQLTransactionCoordinator) (transaction : SQLTransactionBackend) :
    Option SQLTransactionCoordinator :=
  (doCleanup { coordinator with notified := coordinator.notified ++ [transaction] } transaction).map Prod.fst

/-- The loop over the pending transactions of a database, for at most as many rounds. The queue is read
again in each round. -/
def notifyPending (identifier : String) : Nat → SQLTransactionCoordinator → Option SQLTransactionCoordinator
  | 0, _ => none
  | fuel + 1, coordinator =>
    match (coordinator.info identifier).pendingTransactions with
    | [] => some coordinator
    | transaction :: _ =>
      do notifyPending identifier fuel (← coordinator.notifyDatabaseThreadIsShuttingDown transaction)

/-- The body of the loop of `shutdown` over the databases. -/
def notifyDatabase (fuel : Nat) (coordinator : SQLTransactionCoordinator) (identifier : String) :
    Option SQLTransactionCoordinator := do
  let info := coordinator.info identifier
  let coordinator ← info.activeWriteTransaction.toList.foldlM notifyDatabaseThreadIsShuttingDown coordinator
  let coordinator ← info.activeReadTransactions.foldlM notifyDatabaseThreadIsShuttingDown coordinator
  notifyPending identifier fuel coordinator

/-- The databases come in the order of the hash table, which can be any. -/
def shutdown (fuel : Nat) (order : List String) (coordinator : SQLTransactionCoordinator) :
    Option SQLTransactionCoordinator := do
  let coordinator ← order.foldlM (notifyDatabase fuel) { coordinator with isShuttingDown := true }
  some { coordinator with coordinationInfoMap := ∅ }

end SQLTransactionCoordinator

/-- The calls of the transactions. -/
inductive TransactionCall where
  | acquireLock (transaction : SQLTransactionBackend)
  | doCleanup (transaction : SQLTransactionBackend)

def TransactionCall.acquires : TransactionCall → Option SQLTransactionBackend
  | .acquireLock transaction => some transaction
  | .doCleanup _ => none

def TransactionCall.cleansUp : TransactionCall → Option SQLTransactionBackend
  | .acquireLock _ => none
  | .doCleanup transaction => some transaction

/-- The calls of a run, each with the transactions that were notified by `lockAcquired` during it. -/
abbrev Trace := List (TransactionCall × List SQLTransactionBackend)

namespace Trace

def acquired (trace : Trace) : List SQLTransactionBackend := trace.filterMap (·.1.acquires)

def granted (trace : Trace) : List SQLTransactionBackend := trace.flatMap (·.2)

def released (trace : Trace) : List SQLTransactionBackend := trace.filterMap (·.1.cleansUp)

/-- Each transaction acquires once, and releases once after it was notified. -/
def Permits (trace : Trace) : TransactionCall → Prop
  | .acquireLock transaction => transaction ∉ trace.acquired
  | .doCleanup transaction => transaction ∈ trace.granted ∧ transaction ∉ trace.released

instance (trace : Trace) (call : TransactionCall) : Decidable (trace.Permits call) := by
  cases call <;> unfold Permits <;> infer_instance

end Trace

namespace SQLTransactionCoordinator

def step (coordinator : SQLTransactionCoordinator) :
    TransactionCall → Option (SQLTransactionCoordinator × List SQLTransactionBackend)
  | .acquireLock transaction => some (coordinator.acquireLock transaction)
  | .doCleanup transaction => coordinator.doCleanup transaction

/-- The calls lead from a new coordinator to this one. -/
inductive Run : Trace → SQLTransactionCoordinator → Prop
  | start : Run [] {}
  | step {trace : Trace} {coordinator later : SQLTransactionCoordinator} {call : TransactionCall}
      {notified : List SQLTransactionBackend} (run : Run trace coordinator) (permitted : trace.Permits call)
      (stepped : coordinator.step call = some (later, notified)) : Run (trace ++ [(call, notified)]) later

end SQLTransactionCoordinator

end WebNode.WebDatabase
