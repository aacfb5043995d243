import Mathlib.Algebra.Group.Nat.Defs
import Mathlib.Order.Lattice
import Mathlib.Tactic.Common

/-!
# The Counters of Connections

`stats.cpp` keeps a counter for each `SnmpField`, for the whole process. Two functions of it
are more than an addition: `snmp_connection_open` counts a connection among those opened and
those open and raises the maximum, and `snmp_connection_close` takes it out again, unless
there is none. Both loop until a compare-and-swap succeeds; a program runs its handlers on one
thread, so the first one does.

## Main results

* `SnmpStorage.Tally`: the counters of the connections tell how many were opened, how many are
  open, and the largest number that were.
* `Tally.connectionOpen`, `Tally.connectionClose`: both functions keep them so.
-/

namespace Shimakaze

/-- `SnmpField`: the counters that connections and arriving datagrams change. -/
inductive SnmpField
  | maxConn
  | activeOpens
  | passiveOpens
  | currEstab
  | inErrs
  | inCsumErrors
  | inPkts
  | inBytes
  deriving DecidableEq

/-- `SnmpStorage`. -/
structure SnmpStorage where
  counters : SnmpField → UInt64 := fun _ => 0

namespace SnmpStorage

variable (storage : SnmpStorage)

/-- `snmp_store`. -/
def snmpStore (field : SnmpField) (value : UInt64) : SnmpStorage :=
  ⟨fun other => if other = field then value else storage.counters other⟩

/-- `snmp_add`. -/
def snmpAdd (field : SnmpField) (value : UInt64) : SnmpStorage :=
  storage.snmpStore field (storage.counters field + value)

/-- `snmp_connection_open`. -/
def snmpConnectionOpen (active : Bool) : SnmpStorage :=
  let storage := storage.snmpAdd (if active then .activeOpens else .passiveOpens) 1
  let storage := storage.snmpAdd .currEstab 1
  let current := storage.counters .currEstab
  if storage.counters .maxConn < current then storage.snmpStore .maxConn current else storage

/-- `snmp_connection_close`. -/
def snmpConnectionClose : SnmpStorage :=
  let current := storage.counters .currEstab
  if 0 < current then storage.snmpStore .currEstab (current - 1) else storage

variable {storage}

@[simp] theorem snmpStore_self (field : SnmpField) (value : UInt64) :
    (storage.snmpStore field value).counters field = value := if_pos rfl

theorem snmpStore_of_ne {field other : SnmpField} (h : other ≠ field) (value : UInt64) :
    (storage.snmpStore field value).counters other = storage.counters other := if_neg h

@[simp] theorem snmpAdd_self (field : SnmpField) (value : UInt64) :
    (storage.snmpAdd field value).counters field = storage.counters field + value := if_pos rfl

theorem snmpAdd_of_ne {field other : SnmpField} (h : other ≠ field) (value : UInt64) :
    (storage.snmpAdd field value).counters other = storage.counters other := if_neg h

/-- The counter of the connections opened: by this side, or by the other one. -/
def opensField (active : Bool) : SnmpField := if active then .activeOpens else .passiveOpens

/-- The counters after `opened` connections were opened, all by the same side, of which
`established` are open now; at most `most` were open at a time. The first counter wraps
around. -/
structure Tally (active : Bool) (storage : SnmpStorage) (opened established most : ℕ) : Prop where
  opens : storage.counters (opensField active) = UInt64.ofNat opened
  currEstab : (storage.counters .currEstab).toNat = established
  maxConn : (storage.counters .maxConn).toNat = most

/-- No connection yet. -/
theorem Tally.init (active : Bool) : Tally active {} 0 0 0 := ⟨rfl, rfl, rfl⟩

variable {active : Bool} {opened established most : ℕ}

/-- The counters of arriving datagrams have nothing to do with connections. -/
theorem Tally.snmpAdd (h : Tally active storage opened established most) {field : SnmpField}
    (value : UInt64)
    (hfield : field ∈ [SnmpField.inErrs, .inCsumErrors, .inPkts, .inBytes]) :
    Tally active (storage.snmpAdd field value) opened established most := by
  have hother : ∀ other ∈ [SnmpField.activeOpens, .passiveOpens, .currEstab, .maxConn],
      (storage.snmpAdd field value).counters other = storage.counters other := by
    intro other hother
    refine snmpAdd_of_ne ?_ value
    rintro rfl
    revert other
    decide
  refine ⟨?_, ?_, ?_⟩
  · rw [hother _ (by cases active <;> decide)]
    exact h.opens
  · rw [hother _ (by decide)]
    exact h.currEstab
  · rw [hother _ (by decide)]
    exact h.maxConn

/-- **A connection is opened.** -/
theorem Tally.connectionOpen (h : Tally active storage opened established most)
    (hroom : established + 1 < 2 ^ 64) :
    Tally active (storage.snmpConnectionOpen active) (opened + 1) (established + 1)
      (max most (established + 1)) := by
  have hopens : storage.counters (opensField active) + 1 = UInt64.ofNat (opened + 1) := by
    rw [h.opens, UInt64.ofNat_add]
    rfl
  have hcurr : (storage.counters .currEstab + 1).toNat = established + 1 := by
    rw [UInt64.toNat_add, h.currEstab]
    exact Nat.mod_eq_of_lt hroom
  have hless : storage.counters .maxConn < storage.counters .currEstab + 1 ↔
      most < established + 1 := by
    rw [UInt64.lt_iff_toNat_lt, hcurr, h.maxConn]
  -- what the two additions leave
  have hadded : ∀ counted : SnmpStorage,
      counted = (storage.snmpAdd (opensField active) 1).snmpAdd .currEstab 1 →
      counted.counters (opensField active) = storage.counters (opensField active) + 1 ∧
        counted.counters .currEstab = storage.counters .currEstab + 1 ∧
        counted.counters .maxConn = storage.counters .maxConn := by
    rintro counted rfl
    cases active <;> exact ⟨rfl, rfl, rfl⟩
  rw [snmpConnectionOpen, ← opensField]
  obtain ⟨hopened, hestab, hmax⟩ := hadded _ rfl
  generalize (storage.snmpAdd (opensField active) 1).snmpAdd .currEstab 1 = counted at *
  rw [hestab, hmax]
  split_ifs with hraise
  · rw [max_eq_right (hless.mp hraise).le]
    refine ⟨?_, ?_, ?_⟩
    · rw [snmpStore_of_ne (by cases active <;> decide), hopened, hopens]
    · rw [snmpStore_of_ne (by decide), hestab, hcurr]
    · rw [snmpStore_self, hcurr]
  · rw [max_eq_left (not_lt.mp fun hlt => hraise (hless.mpr hlt))]
    exact ⟨hopened.trans hopens, (congrArg _ hestab).trans hcurr,
      (congrArg _ hmax).trans h.maxConn⟩

/-- **A connection is closed**, of which there is one. -/
theorem Tally.connectionClose (h : Tally active storage opened established most)
    (hsome : 0 < established) :
    Tally active storage.snmpConnectionClose opened (established - 1) most := by
  have hpos : 0 < storage.counters .currEstab := by
    rw [UInt64.lt_iff_toNat_lt, h.currEstab]
    exact hsome
  rw [snmpConnectionClose, if_pos hpos]
  refine ⟨?_, ?_, ?_⟩
  · rw [snmpStore_of_ne (by cases active <;> decide)]
    exact h.opens
  · rw [snmpStore_self, UInt64.toNat_sub_of_le, h.currEstab]
    · rfl
    · rw [UInt64.le_iff_toNat_le, h.currEstab]
      exact hsome
  · rw [snmpStore_of_ne (by decide)]
    exact h.maxConn

end SnmpStorage

end Shimakaze
