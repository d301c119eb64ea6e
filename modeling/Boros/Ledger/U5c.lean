import Boros.Data.Bytes

/-!
# The U5C chain-sync stream

`src/ledger/u5c/mod.rs`: the follow-tip responses a U5C server sends, and the
events which `U5cDataAdapterImpl::stream` makes of them.
-/

namespace Boros.Ledger

open Boros.Data Boros.Semantics

/-- `Point`: a slot and a block hash. -/
abbrev Point := UInt64 × Bytes

/-- The transaction of a U5C block body, of which only the hash is used. -/
structure Tx where
  hash : Bytes
deriving DecidableEq, Repr

/-- `Event`. -/
inductive Event where
  | rollForward (point : Point) (txs : List Tx)
  | rollback (point : Point)
deriving DecidableEq, Repr

/-- The point an event carries. -/
def Event.point : Event → Point
  | .rollForward point _ => point
  | .rollback point => point

/-- A U5C block header. -/
structure BlockHeader where
  slot : UInt64
  hash : Bytes
deriving DecidableEq, Repr

/-- A U5C Cardano block; protobuf message fields are optional. -/
structure Block where
  header : Option BlockHeader
  body : Option (List Tx)
deriving DecidableEq, Repr

/-- `follow_tip_response::Action`; the block of `any.chain` is optional. -/
inductive Action where
  | apply (chain : Option Block)
  | undo (chain : Option Block)
  | reset (point : Point)
deriving DecidableEq, Repr

/-- One iteration of the loop in `stream`: the event yielded for a response, if
any. An applied block without a body and a reset yield nothing. -/
def streamEvent (action : Option Action) : Except Fault (Option Event) :=
  match action with
  | none => .ok none
  | some (.apply chain) => do
    let block ← unwrap chain
    match block.body with
    | some txs => do
      let header ← unwrap block.header
      return some (.rollForward (header.slot, header.hash) txs)
    | none => return none
  | some (.undo chain) => do
    let block ← unwrap chain
    let header ← unwrap block.header
    return some (.rollback (header.slot, header.hash))
  | some (.reset _) => .ok none

end Boros.Ledger
