import Boros.Data.Table

/-!
# Queue configuration

`src/queue/mod.rs`. A configuration is hashed and compared by its name alone,
so a `HashSet<Config>` is a table keyed by name.
-/

namespace Boros.Queue

open Boros.Data

/-- `DEFAULT_QUEUE`. -/
def defaultQueue : String := "default"

/-- `DEFAULT_WEIGHT`. -/
def defaultWeight : UInt8 := 1

/-- `queue::Config`. -/
structure Config where
  name : String := defaultQueue
  weight : UInt8 := defaultWeight
  chained : Bool := false
  serverSigning : Bool := false
deriving DecidableEq, Repr

/-- `HashSet<Config>`. -/
abbrev Configs := Table Config String Config.name

/-- `self.queues.get(name)`. -/
abbrev Configs.get (queues : Configs) (name : String) : Option Config := queues.lookup name

/-- `main::Config::new`: the default queue is inserted unless one of that name
is configured. -/
def Configs.withDefault (queues : Configs) : Configs :=
  (queues.insert? {}).getD queues

/-- After loading, the default queue is always configured. -/
theorem Configs.withDefault_get (queues : Configs) :
    ∃ config, queues.withDefault.get defaultQueue = some config := by
  unfold Configs.withDefault
  cases inserted : queues.insert? ({} : Config) with
  | some next =>
      have effect := (Table.insert?_eq_some inserted).2 defaultQueue
      exact ⟨{}, by simpa using effect⟩
  | none => exact Table.insert?_eq_none_iff.mp inserted

end Boros.Queue
