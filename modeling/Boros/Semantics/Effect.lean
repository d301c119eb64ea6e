import Mathlib.Algebra.Group.Nat.Defs
import Mathlib.Data.List.Basic

/-!
# Fallible stateful computations

`Effect σ ε α` is a computation over a state `σ` which ends in a value, in an
error of type `ε`, or in a panic. The state survives both failures: whatever was
written before the failure stays written. `Effect.bind_ok_iff` is the inversion
rule by which a successful sequence of actions is peeled apart.

Integer arithmetic depends on the build profile: an operation that leaves its
type's range panics with overflow checks and wraps without them.
-/

namespace Boros.Semantics

/-- Why a computation panicked. -/
inductive Fault where
  /-- `unwrap` of `None` or of `Err`. -/
  | unwrap
  /-- An integer operation left its range in a build with overflow checks. -/
  | overflow
  /-- A slice or drain index past the end. -/
  | index
  /-- `panic!`, `todo!` or `unimplemented!`. -/
  | explicit
deriving DecidableEq, Repr

/-- Whether the build checks integer arithmetic for overflow. -/
inductive Profile where
  | debug
  | release
deriving DecidableEq, Repr

/-- The two ways a computation ends without a value. -/
inductive Abort (ε : Type) where
  | error (cause : ε)
  | panic (fault : Fault)
deriving DecidableEq, Repr

/-- A panic, where errors are possible too. -/
def orPanic {ε α : Type} : Except Fault α → Except (Abort ε) α
  | .ok value => .ok value
  | .error fault => .error (.panic fault)

/-- An error, where panics are possible too. -/
def orFail {ε α : Type} : Except ε α → Except (Abort ε) α
  | .ok value => .ok value
  | .error cause => .error (.error cause)

@[simp]
theorem orPanic_ok_iff {ε α : Type} {value : Except Fault α} {result : α} :
    (orPanic value : Except (Abort ε) α) = .ok result ↔ value = .ok result := by
  cases value <;> simp [orPanic]

@[simp]
theorem orFail_ok_iff {ε α : Type} {value : Except ε α} {result : α} :
    orFail value = .ok result ↔ value = .ok result := by
  cases value <;> simp [orFail]

/-- What a stage's worker asks of the runtime it runs under:
`gasket::framework::WorkerError`. -/
inductive WorkerError where
  | send
  | recv
  | retry
  | restart
  | panic
deriving DecidableEq, Repr

/-- `Option::unwrap`. -/
def unwrap {α : Type} : Option α → Except Fault α
  | some value => .ok value
  | none => .error .unwrap

@[simp]
theorem unwrap_ok_iff {α : Type} {value : Option α} {result : α} :
    unwrap value = .ok result ↔ value = some result := by
  cases value <;> simp [unwrap]

/-- A sequence of two fallible computations succeeds exactly when both do. -/
theorem except_bind_ok_iff {ε α β : Type} {first : Except ε α} {second : α → Except ε β}
    {result : β} :
    (first >>= second) = .ok result ↔ ∃ value, first = .ok value ∧ second value = .ok result := by
  cases first <;> simp [bind, Except.bind]

theorem except_bind_isOk_iff {ε α β : Type} {first : Except ε α} {second : α → Except ε β} :
    (∃ result, (first >>= second) = .ok result) ↔
      ∃ value, first = .ok value ∧ ∃ result, second value = .ok result := by
  cases first <;> simp [bind, Except.bind]

/-- A sequence of two fallible computations fails where the first or the second one does. -/
theorem except_bind_error_iff {ε α β : Type} {first : Except ε α} {second : α → Except ε β}
    {cause : ε} :
    (first >>= second) = .error cause ↔
      first = .error cause ∨ ∃ value, first = .ok value ∧ second value = .error cause := by
  cases first <;> simp [bind, Except.bind]

/-- A fallible computation over a state which survives its failures. -/
abbrev Effect (σ ε α : Type) := ExceptT (Abort ε) (StateM σ) α

namespace Effect

variable {σ ε δ α β : Type}

/-- Run a computation from `state`. -/
def exec (action : Effect σ ε α) (state : σ) : Except (Abort ε) α × σ :=
  StateT.run (ExceptT.run action) state

/-- Read the state; a failing read is reported as `onError`. -/
def query (read : σ → Except δ α) (onError : ε) : Effect σ ε α :=
  ExceptT.mk fun state =>
    match read state with
    | .ok value => (.ok value, state)
    | .error _ => (.error (.error onError), state)

/-- Replace the state; a failing write leaves it unchanged and is reported as
`onError`. -/
def write (update : σ → Except δ σ) (onError : ε) : Effect σ ε Unit :=
  ExceptT.mk fun state =>
    match update state with
    | .ok next => (.ok (), next)
    | .error _ => (.error (.error onError), state)

/-- A pure computation which may panic. -/
def panicking (value : Except Fault α) : Effect σ ε α :=
  ExceptT.mk fun state =>
    match value with
    | .ok value => (.ok value, state)
    | .error fault => (.error (.panic fault), state)

@[simp]
theorem exec_pure (value : α) (state : σ) :
    (pure value : Effect σ ε α).exec state = (.ok value, state) := rfl

/-- A sequence runs its second action from the state the first one left. -/
theorem exec_bind (first : Effect σ ε α) (second : α → Effect σ ε β) (state : σ) :
    (first >>= second).exec state =
      match first.exec state with
      | (.ok value, middle) => (second value).exec middle
      | (.error abort, middle) => (.error abort, middle) := by
  simp only [exec, ExceptT.run_bind, StateT.run_bind]
  cases outcome : StateT.run (ExceptT.run first) state with
  | mk value middle => cases value <;> rfl

/-- A sequence succeeds exactly when both of its actions do. -/
theorem bind_ok_iff {first : Effect σ ε α} {second : α → Effect σ ε β}
    {state final : σ} {result : β} :
    (first >>= second).exec state = (.ok result, final) ↔
      ∃ value middle, first.exec state = (.ok value, middle) ∧
        (second value).exec middle = (.ok result, final) := by
  rw [exec_bind]
  cases outcome : first.exec state with
  | mk value middle => cases value <;> simp

@[simp]
theorem query_ok_iff {read : σ → Except δ α} {onError : ε} {state final : σ} {value : α} :
    (query read onError).exec state = (.ok value, final) ↔
      read state = .ok value ∧ final = state := by
  simp only [exec, query, ExceptT.run_mk, StateT.run]
  cases read state <;> simp [eq_comm]

@[simp]
theorem write_ok_iff {update : σ → Except δ σ} {onError : ε} {state final : σ} {result : Unit} :
    (write update onError).exec state = (.ok result, final) ↔ update state = .ok final := by
  simp only [exec, write, ExceptT.run_mk, StateT.run]
  cases update state <;> simp

@[simp]
theorem panicking_ok_iff {value : Except Fault α} {state final : σ} {result : α} :
    (panicking value : Effect σ ε α).exec state = (.ok result, final) ↔
      value = .ok result ∧ final = state := by
  simp only [exec, panicking, ExceptT.run_mk, StateT.run]
  cases value <;> simp [eq_comm]

end Effect

/-- `a - b` on `u64`. -/
def u64Sub (profile : Profile) (a b : UInt64) : Except Fault UInt64 :=
  if b ≤ a then .ok (a - b)
  else match profile with
    | .debug => .error .overflow
    | .release => .ok (a - b)

/-- `a + b` on `u16`. -/
def u16Add (profile : Profile) (a b : UInt16) : Except Fault UInt16 :=
  if a.toNat + b.toNat < 2 ^ 16 then .ok (a + b)
  else match profile with
    | .debug => .error .overflow
    | .release => .ok (a + b)

/-- `a - b` on `u16`. -/
def u16Sub (profile : Profile) (a b : UInt16) : Except Fault UInt16 :=
  if b ≤ a then .ok (a - b)
  else match profile with
    | .debug => .error .overflow
    | .release => .ok (a - b)

/-- `a + b` on `u8`. -/
def u8Add (profile : Profile) (a b : UInt8) : Except Fault UInt8 :=
  if a.toNat + b.toNat < 2 ^ 8 then .ok (a + b)
  else match profile with
    | .debug => .error .overflow
    | .release => .ok (a + b)

/-- `a - b` on `u8`. -/
def u8Sub (profile : Profile) (a b : UInt8) : Except Fault UInt8 :=
  if b ≤ a then .ok (a - b)
  else match profile with
    | .debug => .error .overflow
    | .release => .ok (a - b)

/-- `a - b` on `usize`, whose values are the natural numbers below 2 ^ 64. -/
def usizeSub (profile : Profile) (a b : Nat) : Except Fault Nat :=
  if b ≤ a then .ok (a - b)
  else match profile with
    | .debug => .error .overflow
    | .release => .ok (2 ^ 64 + a - b)

/-- A difference is exact if it is not negative; without overflow checks, a negative one is
off by 2 ^ 64. -/
theorem u64Sub_ok_iff {profile : Profile} {a b difference : UInt64} :
    u64Sub profile a b = .ok difference ↔
      b.toNat ≤ a.toNat ∧ difference.toNat = a.toNat - b.toNat ∨
        a.toNat < b.toNat ∧ profile = .release ∧ difference.toNat = 2 ^ 64 + a.toNat - b.toNat := by
  have bound : b.toNat < 2 ^ 64 := b.toNat_lt
  by_cases ordered : b ≤ a
  · have exact : (a - b).toNat = a.toNat - b.toNat := UInt64.toNat_sub_of_le _ _ ordered
    simp only [u64Sub, if_pos ordered, Except.ok.injEq, ← UInt64.toNat_inj, exact]
    rw [UInt64.le_iff_toNat_le] at ordered
    omega
  · have wraps : (a - b).toNat = 2 ^ 64 + a.toNat - b.toNat := by
      rw [UInt64.le_iff_toNat_le] at ordered
      rw [UInt64.toNat_sub]
      omega
    simp only [u64Sub, if_neg ordered]
    rw [UInt64.le_iff_toNat_le] at ordered
    cases profile with
    | debug => simp [ordered]
    | release =>
        simp only [Except.ok.injEq, ← UInt64.toNat_inj, wraps, true_and]
        omega

/-- `value as u16` on a rounded float: out of range it saturates. -/
def saturateU16 (value : Int) : UInt16 := UInt16.ofNat (min value.toNat (2 ^ 16 - 1))

/-- Saturation does not go above the value. -/
theorem saturateU16_toNat_le (value : Int) : (saturateU16 value).toNat ≤ value.toNat := by
  have bound : min value.toNat (2 ^ 16 - 1) < 2 ^ 16 := by omega
  rw [saturateU16, UInt16.toNat_ofNat_of_lt' bound]
  exact Nat.min_le_left _ _

/-- `value as i64` on `u64`: the same 64 bits, read as two's complement. -/
def asI64 (value : UInt64) : Int64 := value.toInt64

/-- `u64::try_from` on an `i64`. -/
def tryFromI64 (value : Int64) : Option UInt64 :=
  if 0 ≤ value.toInt then some value.toUInt64 else none

theorem asI64_toInt (value : UInt64) : (asI64 value).toInt = value.toBitVec.toInt := rfl

/-- Below the sign boundary the cast keeps the value. -/
theorem asI64_of_lt {value : UInt64} (small : value.toNat < 2 ^ 63) :
    (asI64 value).toInt = value.toNat := by
  simp only [asI64_toInt, BitVec.toInt_eq_toNat_cond, UInt64.toNat_toBitVec]
  omega

/-- From the sign boundary on the cast is negative. -/
theorem asI64_neg {value : UInt64} (large : 2 ^ 63 ≤ value.toNat) : (asI64 value).toInt < 0 := by
  have bound : value.toNat < 2 ^ 64 := value.toNat_lt
  simp only [asI64_toInt, BitVec.toInt_eq_toNat_cond, UInt64.toNat_toBitVec]
  omega

/-- A slot written as `i64` is read back exactly when it lies below the sign
boundary. -/
theorem tryFromI64_asI64 (value : UInt64) :
    tryFromI64 (asI64 value) = if value.toNat < 2 ^ 63 then some value else none := by
  split
  · rename_i small
    have nonneg : 0 ≤ (asI64 value).toInt := by
      rw [asI64_of_lt small]
      omega
    simp only [tryFromI64, if_pos nonneg]
    simp [asI64]
  · rename_i large
    have negative := asI64_neg (Nat.le_of_not_lt large)
    simp [tryFromI64, Int.not_le.mpr negative]

/-- A value read back is written as the same bits. -/
theorem asI64_of_tryFromI64 {stored : Int64} {value : UInt64}
    (read : tryFromI64 stored = some value) : asI64 value = stored := by
  unfold tryFromI64 at read
  split at read
  · cases read
    simp [asI64]
  · cases read

/-- Which stored values are read back. -/
theorem tryFromI64_eq_some_iff {stored : Int64} {value : UInt64} :
    tryFromI64 stored = some value ↔ stored.toUInt64 = value ∧ value.toNat < 2 ^ 63 := by
  have bits : asI64 stored.toUInt64 = stored := by simp [asI64]
  have read := tryFromI64_asI64 stored.toUInt64
  rw [bits] at read
  rw [read]
  constructor
  · intro decoded
    split at decoded
    · rename_i small
      cases decoded
      exact ⟨rfl, small⟩
    · cases decoded
  · rintro ⟨rfl, small⟩
    exact if_pos small

/-- The order of the casts: from the sign boundary on they come before the others. -/
theorem asI64_lt_iff (first second : UInt64) :
    asI64 first < asI64 second ↔
      if first.toNat < 2 ^ 63 then second.toNat < 2 ^ 63 ∧ first < second
      else second.toNat < 2 ^ 63 ∨ first < second := by
  have firstBound : first.toNat < 2 ^ 64 := first.toNat_lt
  have secondBound : second.toNat < 2 ^ 64 := second.toNat_lt
  rw [Int64.lt_iff_toInt_lt, asI64_toInt, asI64_toInt, BitVec.toInt_eq_toNat_cond,
    BitVec.toInt_eq_toNat_cond, UInt64.toNat_toBitVec, UInt64.toNat_toBitVec,
    UInt64.lt_iff_toNat_lt]
  split <;> split <;> split <;> omega

/-- The cast keeps different values apart. -/
theorem asI64_injective : Function.Injective asI64 := by
  intro first second same
  simpa [asI64] using congrArg Int64.toUInt64 same

/-- A value read back is the stored one. -/
theorem toNat_of_tryFromI64 {stored : Int64} {value : UInt64}
    (read : tryFromI64 stored = some value) : (value.toNat : Int) = stored.toInt := by
  unfold tryFromI64 at read
  split at read
  · rename_i nonneg
    cases read
    have bound : stored.toUInt64.toNat < 2 ^ 64 := stored.toUInt64.toNat_lt
    have bits : stored.toInt = stored.toUInt64.toBitVec.toInt := rfl
    rw [bits, BitVec.toInt_eq_toNat_cond, UInt64.toNat_toBitVec] at nonneg ⊢
    omega
  · cases read

end Boros.Semantics
