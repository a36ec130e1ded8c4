/-
Module: Gvds.Lib.StampedMemory
Layer: Lib
Purpose: Memory whose bytes remember when they were read at their source. A block holds a string of
  bytes since some time if each of its cells has the byte and was read no earlier; stores elsewhere
  and copies out of the block keep that.
Imports: Mathlib.Data.UInt, Mathlib.Data.List.GetD, Mathlib.Tactic.Basic
Trusted boundary: none
Main exports: StampedByte, StampedMemory.store, StampedMemory.copy, StampedMemory.Holds
-/
import Mathlib.Data.UInt
import Mathlib.Data.List.GetD
import Mathlib.Tactic.Basic

/-- A byte and the time at which its source was read. A byte from anywhere else has no time. -/
structure StampedByte where
  byte : UInt8
  time : Option Nat
deriving DecidableEq

/-- The cells from some base address on. -/
abbrev StampedMemory := Nat → StampedByte

namespace StampedMemory

/-- Put bytes that were read at `time` at `addr`. -/
def store (m : StampedMemory) (addr : Nat) (bytes : List UInt8) (time : Option Nat) :
    StampedMemory :=
  fun a => if addr ≤ a ∧ a < addr + bytes.length then ⟨bytes.getD (a - addr) 0, time⟩ else m a

/-- Copy `n` cells from `start` in `src` to `addr`. -/
def copy (m : StampedMemory) (addr : Nat) (src : StampedMemory) (start n : Nat) : StampedMemory :=
  fun a => if addr ≤ a ∧ a < addr + n then src (start + (a - addr)) else m a

/-- The block at `addr` holds `bytes`, each read no earlier than `since`. -/
def Holds (m : StampedMemory) (addr : Nat) (bytes : List UInt8) (since : Nat) : Prop :=
  ∀ j, j < bytes.length → ∃ time, since ≤ time ∧ m (addr + j) = ⟨bytes.getD j 0, some time⟩

theorem store_of_lt {m : StampedMemory} {addr j : Nat} {bytes : List UInt8} {time : Option Nat}
    (hj : j < bytes.length) : m.store addr bytes time (addr + j) = ⟨bytes.getD j 0, time⟩ := by
  have hin : addr ≤ addr + j ∧ addr + j < addr + bytes.length := ⟨by omega, by omega⟩
  simp only [store, if_pos hin, Nat.add_sub_cancel_left]

/-- At address zero the index is the address. -/
theorem store_zero_of_lt {m : StampedMemory} {j : Nat} {bytes : List UInt8} {time : Option Nat}
    (hj : j < bytes.length) : m.store 0 bytes time j = ⟨bytes.getD j 0, time⟩ := by
  have hcell : m.store 0 bytes time (0 + j) = ⟨bytes.getD j 0, time⟩ := store_of_lt hj
  rwa [Nat.zero_add] at hcell

theorem store_of_not_lt {m : StampedMemory} {addr a : Nat} {bytes : List UInt8}
    {time : Option Nat} (ha : a < addr ∨ addr + bytes.length ≤ a) :
    m.store addr bytes time a = m a := by
  have hout : ¬ (addr ≤ a ∧ a < addr + bytes.length) := by omega
  simp only [store, if_neg hout]

theorem copy_of_lt {m src : StampedMemory} {addr start n j : Nat} (hj : j < n) :
    m.copy addr src start n (addr + j) = src (start + j) := by
  have hin : addr ≤ addr + j ∧ addr + j < addr + n := ⟨by omega, by omega⟩
  simp only [copy, if_pos hin, Nat.add_sub_cancel_left]

theorem copy_zero_of_lt {m src : StampedMemory} {start n j : Nat} (hj : j < n) :
    m.copy 0 src start n j = src (start + j) := by
  have hcell : m.copy 0 src start n (0 + j) = src (start + j) := copy_of_lt hj
  rwa [Nat.zero_add] at hcell

theorem copy_of_not_lt {m src : StampedMemory} {addr start n a : Nat}
    (ha : a < addr ∨ addr + n ≤ a) : m.copy addr src start n a = m a := by
  have hout : ¬ (addr ≤ a ∧ a < addr + n) := by omega
  simp only [copy, if_neg hout]

/-- What was just stored is held. -/
theorem holds_store {m : StampedMemory} {addr since time : Nat} {bytes : List UInt8}
    (htime : since ≤ time) : (m.store addr bytes (some time)).Holds addr bytes since :=
  fun _ hj => ⟨time, htime, store_of_lt hj⟩

/-- A store elsewhere leaves a block as it is. -/
theorem Holds.store {m : StampedMemory} {addr since addr' : Nat} {bytes bytes' : List UInt8}
    {time : Option Nat} (h : m.Holds addr bytes since)
    (hapart : addr + bytes.length ≤ addr' ∨ addr' + bytes'.length ≤ addr) :
    (m.store addr' bytes' time).Holds addr bytes since := by
  intro j hj
  rw [store_of_not_lt (by omega)]
  exact h j hj

end StampedMemory
