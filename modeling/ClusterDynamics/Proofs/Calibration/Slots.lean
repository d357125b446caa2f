import ClusterDynamics.Calibration.Posterior
import ClusterDynamics.Proofs.OutOfRange

/-! The slots of a chain among the parameters of a model. Slots are accepted if they are distinct
positions; marks in a table tell the same as a list of the slots seen. Values that are written to
distinct slots can be read there afterwards, in whatever order they were written. -/

namespace ClusterDynamics

section Seen

variable {bound : Nat} {seen slots : List Nat}

theorem firstBadSlot_eq_none_iff : firstBadSlot bound seen slots = none ↔
    slots.Nodup ∧ ∀ slot ∈ slots, slot < bound ∧ slot ∉ seen := by
  induction slots generalizing seen with
  | nil => simp [firstBadSlot]
  | cons slot rest ih =>
    rw [firstBadSlot, List.nodup_cons, List.forall_mem_cons]
    by_cases hslot : slot < bound ∧ slot ∉ seen
    · rw [if_pos (by simpa using hslot), ih]
      simp only [List.mem_cons]
      grind
    · rw [if_neg (by simpa using hslot)]
      simp [hslot]

/-- The first number of a list that has no free mark. Those before it take theirs. -/
def firstTaken (marks : Array Bool) : List Nat → Option Nat
  | [] => none
  | slot :: rest =>
    if marks[slot]? = some false then firstTaken (marks.setIfInBounds slot true) rest
    else some slot

/-- The marks of the positions up to `bound` tell which of them were seen. -/
def Marks (marks : Array Bool) (bound : Nat) (seen : List Nat) : Prop :=
  ∀ slot, marks[slot]? = if slot < bound then some (seen.contains slot) else none

theorem marks_replicate (bound : Nat) : Marks (Array.replicate bound false) bound [] := by
  intro slot
  rw [Array.getElem?_replicate]
  rfl

theorem Marks.cons {marks : Array Bool} (h : Marks marks bound seen) {slot : Nat}
    (hslot : slot < bound) : Marks (marks.setIfInBounds slot true) bound (slot :: seen) := by
  intro slot'
  obtain ⟨hsize, -⟩ := Array.getElem?_eq_some_iff.mp ((h slot).trans (if_pos hslot))
  by_cases heq : slot' = slot
  · subst heq
    simp [hsize, hslot]
  · rw [Array.getElem?_setIfInBounds_ne (Ne.symm heq), h slot']
    simp [heq]

theorem firstTaken_eq {marks : Array Bool} (h : Marks marks bound seen) :
    firstTaken marks slots = firstBadSlot bound seen slots := by
  induction slots generalizing marks seen with
  | nil => rfl
  | cons slot rest ih =>
    rw [firstTaken, firstBadSlot, h slot]
    by_cases hslot : slot < bound ∧ seen.contains slot = false
    · rw [if_pos hslot.1, hslot.2, if_pos rfl, if_pos ⟨hslot.1, rfl⟩, ih (h.cons hslot.1)]
    · rw [if_neg (by grind), if_neg (by simpa using hslot)]

end Seen

section Write

variable {K : Type} {xs ys : Array K} {pairs pairs' : List (Nat × K)} {slot : Nat} {v : K}

/-- Write values to their slots, one after another. -/
def writeSlots (xs : Array K) (pairs : List (Nat × K)) : Array K :=
  pairs.foldl (fun xs p => xs.setIfInBounds p.1 p.2) xs

/-- `writeSlots`, where each slot must be there. -/
def writeSlots? (xs : Array K) (pairs : List (Nat × K)) : Except OutOfRange (Array K) :=
  pairs.foldlM (fun xs p => do
    checkRange p.1 xs.size
    return xs.setIfInBounds p.1 p.2) xs

theorem size_writeSlots (xs : Array K) (pairs : List (Nat × K)) :
    (writeSlots xs pairs).size = xs.size := by
  induction pairs generalizing xs with
  | nil => rfl
  | cons p pairs ih => exact (ih (xs.setIfInBounds p.1 p.2)).trans Array.size_setIfInBounds

theorem writeSlots?_eq (h : ∀ p ∈ pairs, p.1 < xs.size) :
    writeSlots? xs pairs = .ok (writeSlots xs pairs) := by
  induction pairs generalizing xs with
  | nil => rfl
  | cons p pairs ih =>
    have hp : checkRange p.1 xs.size = .ok () :=
      checkRange_eq_ok_iff.mpr (h p List.mem_cons_self)
    rw [writeSlots?, List.foldlM_cons, hp]
    refine ih fun q hq => ?_
    rw [Array.size_setIfInBounds]
    exact h q (List.mem_cons_of_mem p hq)

theorem getElem?_writeSlots_of_notMem (h : slot ∉ pairs.map Prod.fst) :
    (writeSlots xs pairs)[slot]? = xs[slot]? := by
  induction pairs generalizing xs with
  | nil => rfl
  | cons p pairs ih =>
    rw [List.map_cons, List.mem_cons, not_or] at h
    exact (ih h.2).trans (Array.getElem?_setIfInBounds_ne (Ne.symm h.1))

theorem getElem?_writeSlots (hslots : (pairs.map Prod.fst).Nodup) (h : (slot, v) ∈ pairs)
    (hslot : slot < xs.size) : (writeSlots xs pairs)[slot]? = some v := by
  induction pairs generalizing xs with
  | nil => cases h
  | cons p pairs ih =>
    rw [List.map_cons, List.nodup_cons] at hslots
    rcases List.mem_cons.mp h with rfl | hmem
    · exact (getElem?_writeSlots_of_notMem hslots.1).trans
        (Array.getElem?_setIfInBounds_self_of_lt hslot)
    · exact ih hslots.2 hmem (hslot.trans_eq Array.size_setIfInBounds.symm)

/-- What was there before shows through only where nothing is written. -/
theorem writeSlots_congr (hslots : (pairs.map Prod.fst).Nodup) (hsize : ys.size = xs.size)
    (h : ∀ slot, slot ∉ pairs.map Prod.fst → ys[slot]? = xs[slot]?) :
    writeSlots ys pairs = writeSlots xs pairs := by
  refine Array.ext_getElem? fun slot => ?_
  by_cases hslot : slot ∈ pairs.map Prod.fst
  · obtain ⟨⟨slot, v⟩, hmem, rfl⟩ := List.mem_map.mp hslot
    by_cases hlt : slot < xs.size
    · rw [getElem?_writeSlots hslots hmem hlt,
        getElem?_writeSlots hslots hmem (hlt.trans_eq hsize.symm)]
    · rw [Array.getElem?_eq_none, Array.getElem?_eq_none] <;> rw [size_writeSlots] <;> omega
  · rw [getElem?_writeSlots_of_notMem hslot, getElem?_writeSlots_of_notMem hslot, h slot hslot]

/-- The order in which distinct slots are written does not matter. -/
theorem writeSlots_perm (hslots : (pairs.map Prod.fst).Nodup) (h : pairs.Perm pairs')
    (xs : Array K) : writeSlots xs pairs' = writeSlots xs pairs := by
  refine (List.Perm.foldl_eq' h (fun p hp q hq xs => ?_) xs).symm
  by_cases hpq : p = q
  · rw [hpq]
  · exact Array.setIfInBounds_comm _ _ fun heq =>
      hpq (List.inj_on_of_nodup_map hslots hp hq heq)

end Write

end ClusterDynamics
