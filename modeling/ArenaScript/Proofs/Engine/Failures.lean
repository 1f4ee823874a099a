import ArenaScript.Engine.Basic
import ArenaScript.Proofs.Value.Packing

/-!
# The errors behind a log

A log keeps the messages of the last errors only, and finds them by the number
that the value of an error carries.  Behind every log there is the list of all
errors so far; the log recalls the end of it.  Numbers are 32-bit words, so what a
log says about a value is reliable as long as there are fewer errors than numbers.

An engine that fails adds an error to its log.  One that keeps a trace has the
whole list in its trace.

Main definitions:

- `ErrorLog.value`: the value of an error with a number.
- `ErrorLog.Recalls`: the log of a list of errors.
- `Engine.failures`: the errors in the trace of an engine.

Main results:

- `ErrorLog.Recalls.record`: a further error.
- `ErrorLog.Recalls.message`: the message of any error so far.
- `Engine.fail_eq`: what a failure does.
-/

namespace ArenaScript

namespace ErrorLog

/-! ## Values of errors -/

/-- The value of the error with a number. -/
def value (number : UInt32) (kind : ErrorKind) : Value :=
  Value.box .error (kind.code ||| (number.toUInt64 <<< 8))

theorem isError_value (n : UInt32) (k : ErrorKind) : (value n k).isError = true := by
  rw [Value.isError, value, Value.kind_box]
  rfl

/-- The number stands above the byte of the kind. -/
theorem toNat_payload_value (n : UInt32) (k : ErrorKind) :
    (value n k).payload.toNat = 2 ^ 8 * n.toNat + k.code.toNat := by
  have small : k.code.toNat < 2 ^ 8 := by cases k <;> decide
  have word : n.toNat < 2 ^ 32 := n.toNat_lt
  have mask : Value.payloadMask.toNat = 2 ^ 48 - 1 := by decide
  have shift : (8 : UInt64).toNat % 64 = 8 := by decide
  have packed : (k.code ||| (n.toUInt64 <<< 8)).toNat = 2 ^ 8 * n.toNat + k.code.toNat := by
    rw [UInt64.toNat_or, UInt64.toNat_shiftLeft, shift, UInt32.toNat_toUInt64, Nat.shiftLeft_eq,
      Nat.mod_eq_of_lt (by omega), Nat.or_comm, Nat.mul_comm, ← Nat.two_pow_add_eq_or_of_lt small]
  rw [value, Value.box, Value.payload_pack, UInt64.toNat_and, mask, Nat.and_two_pow_sub_one_eq_mod,
    packed, Nat.mod_eq_of_lt (by omega)]

theorem kind_value (n : UInt32) (k : ErrorKind) : kind (value n k) = k := by
  have small : k.code.toNat < 2 ^ 8 := by cases k <;> decide
  have low : (value n k).payload &&& 0xff = k.code := by
    apply UInt64.toNat_inj.mp
    have byte : (0xff : UInt64).toNat = 2 ^ 8 - 1 := by decide
    rw [UInt64.toNat_and, byte, Nat.and_two_pow_sub_one_eq_mod, toNat_payload_value,
      Nat.mul_add_mod, Nat.mod_eq_of_lt small]
  rw [kind, low, ErrorKind.ofCode_code]

theorem number_value (n : UInt32) (k : ErrorKind) : number (value n k) = n := by
  have small : k.code.toNat < 2 ^ 8 := by cases k <;> decide
  have word : n.toNat < 2 ^ 32 := n.toNat_lt
  have shift : (8 : UInt64).toNat % 64 = 8 := by decide
  apply UInt32.toNat_inj.mp
  rw [number, UInt64.toNat_toUInt32, UInt64.toNat_shiftRight, shift, toNat_payload_value,
    Nat.shiftRight_eq_div_pow]
  omega

theorem isError_lastValue (log : ErrorLog) (k : ErrorKind) : (log.lastValue k).isError = true :=
  isError_value log.count k

/-- The kind of an error can be told from its value. -/
theorem kind_lastValue (log : ErrorLog) (k : ErrorKind) : kind (log.lastValue k) = k :=
  kind_value log.count k

/-! ## Lists of errors -/

/-- A log that goes back to a list of errors, the oldest first: it has counted
them, and the messages of the last ones are in their slots. -/
structure Recalls (log : ErrorLog) (errors : List (ErrorKind × ByteArray)) : Prop where
  count_eq : log.count = UInt32.ofNat errors.length
  size_eq : log.slots.size = capacity
  recent : ∀ (i : Nat) (k : ErrorKind) (message : ByteArray), errors[i]? = some (k, message) →
    errors.length ≤ i + capacity → log.slots[(i + 1) % capacity]? = some message

theorem recalls_empty : empty.Recalls [] where
  count_eq := rfl
  size_eq := Array.size_replicate
  recent := fun _ _ _ found => nomatch found

/-- The slot of an error is that of its place in the list. -/
theorem slot_ofNat (n : Nat) : slot (UInt32.ofNat n) = n % capacity := by
  rw [slot, UInt32.toNat_ofNat']
  exact Nat.mod_mod_of_dvd n (by decide : capacity ∣ 2 ^ 32)

namespace Recalls

variable {log : ErrorLog} {errors : List (ErrorKind × ByteArray)}

theorem lastValue_record (recalls : log.Recalls errors) (f : Failure) :
    (log.record f).lastValue f.kind = value (UInt32.ofNat (errors.length + 1)) f.kind := by
  show value (log.count + 1) f.kind = _
  rw [recalls.count_eq, UInt32.ofNat_add]
  rfl

/-- A further error takes the slot of the one that is no longer recalled. -/
theorem record (recalls : log.Recalls errors) (f : Failure) :
    (log.record f).Recalls (errors ++ [(f.kind, f.message)]) := by
  have count : (log.record f).count = UInt32.ofNat (errors.length + 1) := by
    show log.count + 1 = _
    rw [recalls.count_eq, UInt32.ofNat_add]
    rfl
  have slots : (log.record f).slots
      = log.slots.setIfInBounds ((errors.length + 1) % capacity) f.message := by
    show log.slots.setIfInBounds (slot (log.record f).count) f.message = _
    rw [count, slot_ofNat]
  have size : (log.record f).slots.size = capacity := by
    rw [slots, Array.size_setIfInBounds, recalls.size_eq]
  refine ⟨by rw [count, List.length_append]; rfl, size, fun i k message found near => ?_⟩
  rw [List.length_append] at near
  rw [slots, Array.getElem?_setIfInBounds]
  rcases Nat.lt_trichotomy i errors.length with older | rfl | beyond
  · -- an older error of the last ones has another slot
    have near : errors.length + 1 ≤ i + 32 := near
    have apart : (errors.length + 1) % capacity ≠ (i + 1) % capacity := by
      show (errors.length + 1) % 32 ≠ (i + 1) % 32
      omega
    rw [if_neg apart]
    rw [List.getElem?_append_left older] at found
    exact recalls.recent i k message found (Nat.le_of_succ_le near)
  · have inside : (errors.length + 1) % capacity < log.slots.size := by
      rw [recalls.size_eq]
      exact Nat.mod_lt _ (by decide)
    rw [List.getElem?_append_right (Nat.le_refl _), Nat.sub_self] at found
    cases found
    rw [if_pos rfl, if_pos inside]
  · rw [List.getElem?_eq_none (by rw [List.length_append]; exact beyond)] at found
    cases found

/-- The message of an error is recalled as long as there are few later ones, and
then the name of its kind takes its place.  It is never that of another error. -/
theorem message (recalls : log.Recalls errors) (few : errors.length < 2 ^ 32) {i : Nat}
    {k : ErrorKind} {message : ByteArray} (found : errors[i]? = some (k, message)) :
    log.message (value (UInt32.ofNat (i + 1)) k)
      = if errors.length ≤ i + capacity then message
        else Failure.announce (Bytes.ofString k.name) := by
  have before : i < errors.length := (List.getElem?_eq_some_iff.mp found).1
  have number : (UInt32.ofNat (i + 1)).toNat = i + 1 :=
    UInt32.toNat_ofNat_of_lt' (show i + 1 < 2 ^ 32 by omega)
  have nonzero : UInt32.ofNat (i + 1) ≠ 0 := fun zero => by
    rw [zero] at number
    exact absurd number (Nat.zero_ne_add_one i)
  have count : log.count.toNat = errors.length := by
    rw [recalls.count_eq]
    exact UInt32.toNat_ofNat_of_lt' few
  have age : (log.count - UInt32.ofNat (i + 1)).toNat = errors.length - (i + 1) := by
    rw [UInt32.toNat_sub_of_le _ _ (UInt32.le_iff_toNat_le.mpr (by omega)), count, number]
  rw [ErrorLog.message, number_value, kind_value, age, slot_ofNat]
  by_cases near : errors.length ≤ i + capacity
  · have recent : errors.length - (i + 1) < capacity := by
      have near : errors.length ≤ i + 32 := near
      show errors.length - (i + 1) < 32
      omega
    rw [if_pos ⟨nonzero, recent⟩, if_pos near, Array.getD_eq_getD_getElem?,
      recalls.recent i k message found near, Option.getD_some]
  · have old : ¬ errors.length - (i + 1) < capacity := by
      have near : ¬ errors.length ≤ i + 32 := near
      show ¬ errors.length - (i + 1) < 32
      omega
    rw [if_neg fun both => old both.2, if_neg near]

end Recalls

end ErrorLog

/-! ## Failures -/

namespace Engine

/-- A failure is recorded and told, and the text ends with it. -/
theorem fail_eq (f : Failure) (e : Engine) :
    fail f e = .ok ((e.log.record f).lastValue f.kind, { e with
      log := e.log.record f
      cursor := e.cursor.finish
      events := e.events ++ if e.tracing then #[.failed f.kind f.message] else #[] }) := by
  let failed := { e with log := e.log.record f, cursor := e.cursor.finish }
  let told := if failed.tracing then
      { failed with events := failed.events.push (.failed f.kind f.message) }
    else failed
  show Except.ok (told.log.lastValue f.kind, told) = _
  cases tracing : e.tracing <;> simp [told, failed, tracing]

/-- A failure leaves the arena alone. -/
theorem arena_fail {f : Failure} {e e' : Engine} {v : Value} (run : fail f e = .ok (v, e')) :
    e'.arena = e.arena := by
  rw [fail_eq] at run
  cases run
  rfl

/-- A failure is an error. -/
theorem isError_of_fail {f : Failure} {e e' : Engine} {v : Value}
    (failed : fail f e = .ok (v, e')) : v.isError = true := by
  rw [fail_eq] at failed
  cases failed
  exact ErrorLog.isError_lastValue _ _

end Engine

/-! ## Traces -/

/-- The error that an event tells of. -/
def Event.failure? : Event → Option (ErrorKind × ByteArray)
  | failed kind message => some (kind, message)
  | _ => none

/-- The errors in the trace of an engine, the oldest first, each with its kind and
the message it was made with. -/
def Engine.failures (e : Engine) : List (ErrorKind × ByteArray) :=
  e.events.toList.filterMap Event.failure?

end ArenaScript
