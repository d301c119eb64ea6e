import Boros.Pipeline.Ingest
import Boros.Pipeline.Monitor
import Boros.Server.Submit

/-!
# The pipeline

The ingest stage, the monitor stage and the creations of `submit_tx`, which meet
in the store only. Their steps interleave in any order.
-/

namespace Boros.Pipeline

open Boros.Data Boros.Semantics Boros.Storage Boros.Ledger Boros.Queue Boros.Server

/-- How the pipeline was built and configured. -/
structure Setup where
  profile : Profile
  ingest : Ingest.Stage
  monitor : Monitor.Config

/-- The store, the broadcast transactions and the two workers. -/
structure State where
  db : Db
  sent : List (String × Bytes)
  ingest : Ingest.Worker
  monitor : Monitor.Worker
deriving DecidableEq

/-- Both workers are about to schedule and nothing was broadcast. -/
def State.initial (db : Db) : State := ⟨db, [], .schedule, .schedule⟩

/-- Who takes the next step. -/
inductive Label (pallas : Pallas) where
  /-- `submit_tx` stores the transactions it accepted. -/
  | create (txs : List Transaction)
  | ingest (label : Ingest.Label pallas)
  | monitor (label : Monitor.Label)

variable {pallas : Pallas}

/-- One step of the pipeline. -/
inductive Step (setup : Setup) : State → Label pallas → State → Prop where
  | create {db next sent ingest monitor txs}
      (accepted : ∀ tx ∈ txs, Submit.Accepted pallas tx) (created : db.create txs = .ok next) :
      Step setup ⟨db, sent, ingest, monitor⟩ (.create txs) ⟨next, sent, ingest, monitor⟩
  | ingest {db db' sent sent' ingest ingest' monitor label}
      (step : Ingest.Step setup.profile setup.ingest ⟨db, sent, ingest⟩ label
        ⟨db', sent', ingest'⟩) :
      Step setup ⟨db, sent, ingest, monitor⟩ (.ingest label) ⟨db', sent', ingest', monitor⟩
  | monitor {db db' sent ingest monitor monitor' label}
      (step : Monitor.Step setup.profile setup.monitor (db, monitor) label (db', monitor')) :
      Step setup ⟨db, sent, ingest, monitor⟩ (.monitor label) ⟨db', sent, ingest, monitor'⟩

/-! ## A small pipeline

One queue and two pending transactions. -/

def sampleReplies : Ingest.Replies samplePallas := ⟨.ok, sampleAdapter, sampleAdapter⟩

def sampleSetup : Setup where
  profile := .debug
  ingest := ⟨⟨[{}], by decide⟩, false⟩
  monitor := ⟨1000⟩

/-- The transaction of one byte, as `submit_tx` stores it. -/
def sampleTx (byte : UInt8) (now : Nat) : Transaction :=
  Submit.txStorage (samplePallas.hash byte) [byte] none now

/-- A block with the transaction of one byte. -/
def sampleBlock (slot : UInt64) (byte : UInt8) : Event :=
  .rollForward (slot, List.replicate 32 1) [⟨List.replicate 32 byte⟩]

/-- The store after both were submitted. -/
def sampleDb : Db :=
  ⟨⟨[.ofTransaction (sampleTx 1 1), .ofTransaction (sampleTx 2 2)], by decide⟩, [], none⟩

theorem sample_create : Step sampleSetup (State.initial Db.empty)
    (.create [sampleTx 1 1, sampleTx 2 2] : Label samplePallas) (State.initial sampleDb) := by
  refine .create ?_ rfl
  intro tx member
  rcases List.mem_cons.mp member with rfl | member
  · exact ⟨(1 : UInt8), [1], none, 1, rfl, rfl⟩
  · rw [List.mem_singleton.mp member]
    exact ⟨(2 : UInt8), [2], none, 2, rfl, rfl⟩

/-- Both transactions fit into a batch. -/
theorem sample_schedule {sent : List (String × Bytes)} :
    Step sampleSetup ⟨sampleDb, sent, .schedule, .schedule⟩
      (.ingest (.schedule 0 (.inserted _)) : Label samplePallas)
      ⟨sampleDb, sent, .selecting [(defaultQueue, 2)], .schedule⟩ :=
  .ingest (.schedule 0 (.inserted _) (by decide +kernel))

/-- The unit of both transactions, oldest first. -/
def sampleUnit : List Transaction := [sampleTx 1 1, sampleTx 2 2]

theorem sample_select {sent : List (String × Bytes)} :
    Step sampleSetup ⟨sampleDb, sent, .selecting [(defaultQueue, 2)], .schedule⟩
      (.ingest (.select (.inserted _)) : Label samplePallas)
      ⟨sampleDb, sent, Ingest.proceed sampleUnit sampleUnit, .schedule⟩ :=
  .ingest (.select (.inserted _) rfl)

end Boros.Pipeline
