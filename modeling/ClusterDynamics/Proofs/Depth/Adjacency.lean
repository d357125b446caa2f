import ClusterDynamics.Depth.Grid
import ClusterDynamics.Proofs.Depth.Neighbours
import ClusterDynamics.Proofs.OutOfRange
import Mathlib.Logic.Equiv.Defs

/-! How the points of a grid lie to each other. Along depth neighbours are one node apart. Along a
periodic axis the next point and the previous one are permutations of the grid, inverse to each
other. -/

namespace ClusterDynamics.GridShape

variable {s : GridShape} {p j k : Nat} {a : Transverse}

section Along

def extent (s : GridShape) : Transverse → Nat
  | .y => s.ny
  | .z => s.nz

/-- The coordinate of a point along a periodic axis. -/
def along (s : GridShape) (p : Nat) : Transverse → Nat
  | .y => (s.coords p).2.1
  | .z => (s.coords p).2.2

/-- The point with another coordinate along a periodic axis. -/
def moveTo (s : GridShape) (p j : Nat) : Transverse → Nat
  | .y => s.linear (s.coords p).1 j (s.coords p).2.2
  | .z => s.linear (s.coords p).1 (s.coords p).2.1 j

theorem along_lt (hp : p < s.points) (a : Transverse) : s.along p a < s.extent a := by
  obtain ⟨-, hy, hz⟩ := coords_lt hp
  cases a with
  | y => exact hy
  | z => exact hz

theorem mod_extent_lt (hp : p < s.points) (a : Transverse) (j : Nat) :
    j % s.extent a < s.extent a :=
  Nat.mod_lt j (Nat.zero_lt_of_lt (along_lt hp a))

theorem moveTo_lt (hp : p < s.points) (hj : j < s.extent a) : s.moveTo p j a < s.points := by
  obtain ⟨hx, hy, hz⟩ := coords_lt hp
  cases a with
  | y => exact linear_lt hx hj hz
  | z => exact linear_lt hx hy hj

theorem coords_moveTo (hp : p < s.points) (hj : j < s.extent a) :
    s.coords (s.moveTo p j a) = match a with
      | .y => ((s.coords p).1, j, (s.coords p).2.2)
      | .z => ((s.coords p).1, (s.coords p).2.1, j) := by
  obtain ⟨hx, hy, -⟩ := coords_lt hp
  cases a with
  | y => exact coords_linear hx hj
  | z => exact coords_linear hx hy

theorem depth_moveTo (hp : p < s.points) (hj : j < s.extent a) :
    (s.coords (s.moveTo p j a)).1 = (s.coords p).1 := by
  rw [coords_moveTo hp hj]
  cases a <;> rfl

theorem along_moveTo (hp : p < s.points) (hj : j < s.extent a) (b : Transverse) :
    s.along (s.moveTo p j a) b = if b = a then j else s.along p b := by
  cases a <;> cases b <;> rw [along, coords_moveTo hp hj] <;> rfl

theorem moveTo_moveTo (hp : p < s.points) (hj : j < s.extent a) :
    s.moveTo (s.moveTo p j a) k a = s.moveTo p k a := by
  cases a <;> rw [moveTo, coords_moveTo hp hj] <;> rfl

theorem moveTo_along (s : GridShape) (p : Nat) (a : Transverse) :
    s.moveTo p (s.along p a) a = p := by
  cases a <;> exact linear_coords s p

end Along

section Cycle

/-- The next point along a periodic axis and, backwards, the previous one. -/
def cycle (s : GridShape) (a : Transverse) : Equiv.Perm (Fin s.points) where
  toFun p := ⟨s.moveTo p ((s.along p a + 1) % s.extent a) a,
    moveTo_lt p.isLt (mod_extent_lt p.isLt a _)⟩
  invFun p := ⟨s.moveTo p ((s.along p a + s.extent a - 1) % s.extent a) a,
    moveTo_lt p.isLt (mod_extent_lt p.isLt a _)⟩
  -- A move keeps all other coordinates, so the way back has to restore this one alone.
  left_inv p := by
    have hnext := mod_extent_lt p.isLt a (s.along p a + 1)
    apply Fin.ext
    dsimp only
    rw [moveTo_moveTo p.isLt hnext, along_moveTo p.isLt hnext, if_pos rfl,
      previous_next (along_lt p.isLt a), moveTo_along]
  right_inv p := by
    have hprevious := mod_extent_lt p.isLt a (s.along p a + s.extent a - 1)
    apply Fin.ext
    dsimp only
    rw [moveTo_moveTo p.isLt hprevious, along_moveTo p.isLt hprevious, if_pos rfl,
      next_previous (along_lt p.isLt a), moveTo_along]

theorem depth_cycle (a : Transverse) (p : Fin s.points) :
    (s.coords (s.cycle a p)).1 = (s.coords p).1 :=
  depth_moveTo p.isLt (mod_extent_lt p.isLt a _)

theorem depth_cycle_symm (a : Transverse) (p : Fin s.points) :
    (s.coords ((s.cycle a).symm p)).1 = (s.coords p).1 := by
  rw [← depth_cycle a, Equiv.apply_symm_apply]

theorem along_cycle (a b : Transverse) (p : Fin s.points) :
    s.along (s.cycle a p) b =
      if b = a then (s.along p a + 1) % s.extent a else s.along p b :=
  along_moveTo p.isLt (mod_extent_lt p.isLt a _) b

/-- The periodic axes in use, in order. -/
def axesInUse (s : GridShape) : List Transverse := [.y, .z].filter (1 < s.extent ·)

theorem transverse_neighbours (p : Fin s.points) (surface : Nat) :
    (s.neighbours p surface).transverse =
      s.axesInUse.map fun a => (((s.cycle a).symm p : Nat), (s.cycle a p : Nat)) := by
  by_cases hy : 1 < s.ny <;> by_cases hz : 1 < s.nz <;>
    simp only [neighbours, axesInUse, extent, List.filter, hy, hz, if_true, if_false, decide_true,
      decide_false] <;> rfl

end Cycle

/-- What the neighbours of a point in a column with the given surface node are. -/
structure Adjacent (s : GridShape) (p : Fin s.points) (surface : Nat) : Prop where
  lt_points : ∀ o q, (s.neighbours p surface).resolve o = some q → q < s.points
  left_eq_none_iff : (s.neighbours p surface).left = none ↔ (s.coords p).1 ≤ surface
  /-- The point above lies in the same column. -/
  above : ∀ q, (s.neighbours p surface).left = some q →
    s.coords p = ((s.coords q).1 + 1, (s.coords q).2)
  below : (s.coords p).1 + 1 < s.nx →
    s.coords (s.neighbours p surface).right = ((s.coords p).1 + 1, (s.coords p).2)
  bulk : (s.coords p).1 + 1 = s.nx → (s.neighbours p surface).right = p
  transverse : (s.neighbours p surface).transverse =
    s.axesInUse.map fun a => (((s.cycle a).symm p : Nat), (s.cycle a p : Nat))
  depth : ∀ x ∈ (s.neighbours p surface).transverse,
    (s.coords x.1).1 = (s.coords p).1 ∧ (s.coords x.2).1 = (s.coords p).1

theorem adjacent (p : Fin s.points) (surface : Nat) : s.Adjacent p surface := by
  refine ⟨fun o q h => resolve_lt p.isLt h, ?_, ?_, ?_, ?_, transverse_neighbours p surface, ?_⟩
  · simp [neighbours]
  · intro q hq
    obtain ⟨hsurface, hcoords⟩ := coords_left p.isLt hq
    rw [hcoords, Nat.sub_add_cancel (by omega)]
  · intro hbelow
    rw [coords_right p.isLt, Nat.min_eq_left (by omega)]
  · intro hlast
    have hcoords := coords_right p.isLt surface
    rw [Nat.min_eq_right (by omega), ← hlast, Nat.add_sub_cancel] at hcoords
    rw [← linear_coords s (s.neighbours p surface).right, hcoords, linear_coords]
  · intro x hx
    rw [transverse_neighbours] at hx
    obtain ⟨a, -, rfl⟩ := List.mem_map.mp hx
    exact ⟨depth_cycle_symm a p, depth_cycle a p⟩

section Words

/-- The previous and the next place along a periodic axis of `n` points, if it is in use. Sums on
the way must be words. -/
def pairAround? (n i : Nat) (place : Nat → Except OutOfRange Nat) :
    Except OutOfRange (List (Nat × Nat)) :=
  if 1 < n then do
    let before ← word (i + n)
    let previous ← place ((before - 1) % n)
    let after ← word (i + 1)
    let next ← place (after % n)
    return [(previous, next)]
  else return []

/-- `neighbours`, where every sum on the way must be a word. -/
def neighbours? (s : GridShape) (p surface : Nat) : Except OutOfRange Neighbours := do
  let (ix, iy, iz) ← s.coords? p
  let left ← (if surface < ix then some (ix - 1) else none).mapM fun i => s.linear? i iy iz
  let below ← word (ix + 1)
  let right ← s.linear? (min below (s.nx - 1)) iy iz
  let alongY ← pairAround? s.ny iy fun j => s.linear? ix j iz
  let alongZ ← pairAround? s.nz iz fun j => s.linear? ix iy j
  return { center := p, left, right, transverse := alongY ++ alongZ }

theorem linear?_eq_ok {ix iy iz : Nat} (hroom : s.points ≤ wordLimit) (hx : ix < s.nx)
    (hy : iy < s.ny) (hz : iz < s.nz) : s.linear? ix iy iz = .ok (s.linear ix iy iz) := by
  have hword : s.linear ix iy iz < wordLimit := lt_of_lt_of_le (linear_lt hx hy hz) hroom
  have hcolumn : iy + s.ny * iz ≤ s.linear ix iy iz :=
    le_trans (Nat.le_mul_of_pos_left _ (Nat.zero_lt_of_lt hx)) (Nat.le_add_left _ _)
  rw [linear?, word_eq_ok_iff.mpr ⟨rfl, lt_of_le_of_lt hcolumn hword⟩, ok_bind]
  exact word_eq_ok_iff.mpr ⟨rfl, hword⟩

theorem pairAround?_eq_ok {n i : Nat} {place? : Nat → Except OutOfRange Nat} {place : Nat → Nat}
    (hi : i < n) (hroom : 2 * n ≤ wordLimit) (hplace : ∀ j < n, place? j = .ok (place j)) :
    pairAround? n i place? =
      .ok (if 1 < n then [(place ((i + n - 1) % n), place ((i + 1) % n))] else []) := by
  have hn : 0 < n := Nat.zero_lt_of_lt hi
  by_cases hone : 1 < n
  · rw [pairAround?, if_pos hone, if_pos hone, word_eq_ok_iff.mpr ⟨rfl, by omega⟩, ok_bind,
      hplace _ (Nat.mod_lt _ hn), ok_bind, word_eq_ok_iff.mpr ⟨rfl, by omega⟩, ok_bind,
      hplace _ (Nat.mod_lt _ hn), ok_bind]
    rfl
  · rw [pairAround?, if_neg hone, if_neg hone]
    rfl

theorem extent_le_points (hp : p < s.points) :
    s.nx ≤ s.points ∧ s.ny ≤ s.points ∧ s.nz ≤ s.points := by
  obtain ⟨hx, hy, hz⟩ := extents_pos hp
  have hxy : s.nx * s.ny ≤ s.points := Nat.le_mul_of_pos_right _ hz
  exact ⟨le_trans (Nat.le_mul_of_pos_right _ hy) hxy, le_trans (Nat.le_mul_of_pos_left _ hx) hxy,
    Nat.le_mul_of_pos_left _ (Nat.mul_pos hx hy)⟩

/-- With a value at every point, no sum on the way to the neighbours is too large. -/
theorem neighbours?_eq_ok (hroom : s.points ≤ tableLimit) (hp : p < s.points) (surface : Nat) :
    s.neighbours? p surface = .ok (s.neighbours p surface) := by
  obtain ⟨hx, hy, hz⟩ := coords_lt hp
  obtain ⟨hnx, hny, hnz⟩ := extents_pos hp
  obtain ⟨hlex, hley, hlez⟩ := extent_le_points hp
  have htable : 2 * tableLimit ≤ wordLimit := by decide
  have hpoints : s.points ≤ wordLimit := by omega
  have hcoords : s.coords? p = .ok (s.coords p) := if_neg (by omega)
  have hleft : (if surface < (s.coords p).1 then some ((s.coords p).1 - 1) else none).mapM
      (fun i => s.linear? i (s.coords p).2.1 (s.coords p).2.2) =
        .ok (s.neighbours p surface).left := by
    simp only [neighbours]
    split_ifs with hsurface
    · have habove : (s.coords p).1 - 1 < s.nx := by omega
      rw [Option.mapM_some, linear?_eq_ok hpoints habove hy hz]
      rfl
    · rfl
  have hbelow : min ((s.coords p).1 + 1) (s.nx - 1) < s.nx := by omega
  have hright := linear?_eq_ok hpoints hbelow hy hz
  have halongY := pairAround?_eq_ok hy (by omega) fun j hj => linear?_eq_ok hpoints hx hj hz
  have halongZ := pairAround?_eq_ok hz (by omega) fun j hj => linear?_eq_ok hpoints hx hy hj
  rw [neighbours?, hcoords, ok_bind]
  simp only
  rw [hleft, ok_bind, word_eq_ok_iff.mpr ⟨rfl, by omega⟩, ok_bind, hright, ok_bind, halongY, ok_bind,
    halongZ, ok_bind]
  rfl

end Words

/-- Positions and coordinates determine each other, every point's neighbours are those adjacent to
it, and along each periodic axis they move by one place around it. The machine's words suffice for
every grid with a value at each point. -/
theorem positions_and_neighbours (s : GridShape) :
    (∀ ix < s.nx, ∀ iy < s.ny, ∀ iz < s.nz, s.linear ix iy iz < s.points ∧
      s.coords (s.linear ix iy iz) = (ix, iy, iz)) ∧
    (∀ p < s.points, ((s.coords p).1 < s.nx ∧ (s.coords p).2.1 < s.ny ∧ (s.coords p).2.2 < s.nz) ∧
      s.linear (s.coords p).1 (s.coords p).2.1 (s.coords p).2.2 = p) ∧
    (∀ p surface, s.Adjacent p surface) ∧
    (∀ a b p, s.along (s.cycle a p) b =
      if b = a then (s.along p a + 1) % s.extent a else s.along p b) ∧
    (s.points ≤ tableLimit →
      (∀ ix < s.nx, ∀ iy < s.ny, ∀ iz < s.nz,
        s.linear? ix iy iz = .ok (s.linear ix iy iz)) ∧
      ∀ p < s.points, s.coords? p = .ok (s.coords p) ∧
        ∀ surface, s.neighbours? p surface = .ok (s.neighbours p surface)) := by
  refine ⟨fun ix hx iy hy iz hz => ⟨linear_lt hx hy hz, coords_linear hx hy⟩,
    fun p hp => ⟨coords_lt hp, linear_coords s p⟩, adjacent, along_cycle, fun hroom => ⟨?_, ?_⟩⟩
  · intro ix hx iy hy iz hz
    exact linear?_eq_ok (le_trans hroom (by decide)) hx hy hz
  · intro p hp
    obtain ⟨hnx, hny, -⟩ := extents_pos hp
    exact ⟨if_neg (by omega), neighbours?_eq_ok hroom hp⟩

/-- In the second of two layers, at the first of four columns. -/
theorem positions_and_neighbours_block :
    (⟨3, 4, 2⟩ : GridShape).coords ((⟨3, 4, 2⟩ : GridShape).linear 1 0 1) = (1, 0, 1) ∧
      (⟨3, 4, 2⟩ : GridShape).Adjacent ⟨13, by decide⟩ 0 ∧
      (⟨3, 4, 2⟩ : GridShape).neighbours? 13 0 =
        .ok { center := 13, left := some 12, right := 14, transverse := [(22, 16), (1, 1)] } := by
  obtain ⟨hcoords, -, hadjacent, -, hwords⟩ := positions_and_neighbours ⟨3, 4, 2⟩
  obtain ⟨-, hneighbours⟩ := hwords (by decide)
  refine ⟨(hcoords 1 (by decide) 0 (by decide) 1 (by decide)).2, hadjacent _ 0, ?_⟩
  rw [(hneighbours 13 (by decide)).2 0]
  rfl

end ClusterDynamics.GridShape
