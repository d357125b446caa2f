import ClusterDynamics.Depth.Stencil
import Mathlib.Tactic.Common

/-! The points around a grid point are points of the grid. -/

namespace ClusterDynamics

section Periodic

variable {j n : Nat}

theorem previous_next (hj : j < n) : ((j + 1) % n + n - 1) % n = j := by
  by_cases hlast : j + 1 = n
  · rw [hlast, Nat.mod_self, Nat.zero_add, Nat.mod_eq_of_lt (by omega)]
    omega
  · rw [Nat.mod_eq_of_lt (by omega : j + 1 < n), show j + 1 + n - 1 = j + n by omega,
      Nat.add_mod_right, Nat.mod_eq_of_lt hj]

theorem next_previous (hj : j < n) : ((j + n - 1) % n + 1) % n = j := by
  rw [Nat.mod_add_mod, show j + n - 1 + 1 = j + n by omega, Nat.add_mod_right,
    Nat.mod_eq_of_lt hj]

end Periodic

namespace GridShape

variable {s : GridShape} {ix iy iz p : Nat}

theorem add_mul_lt_mul {a n k m : Nat} (ha : a < n) (hk : k < m) : a + n * k < n * m :=
  calc a + n * k < n + n * k := Nat.add_lt_add_right ha _
    _ = n * (k + 1) := by rw [Nat.mul_succ, Nat.add_comm]
    _ ≤ n * m := Nat.mul_le_mul_left n hk

theorem linear_lt (hx : ix < s.nx) (hy : iy < s.ny) (hz : iz < s.nz) :
    s.linear ix iy iz < s.points := by
  rw [points, Nat.mul_assoc]
  exact add_mul_lt_mul hx (add_mul_lt_mul hy hz)

theorem extents_pos (hp : p < s.points) : 0 < s.nx ∧ 0 < s.ny ∧ 0 < s.nz := by
  have hpos : 0 < s.nx * s.ny * s.nz := Nat.zero_lt_of_lt hp
  have hxy : 0 < s.nx * s.ny := Nat.pos_of_mul_pos_right hpos
  exact ⟨Nat.pos_of_mul_pos_right hxy, Nat.pos_of_mul_pos_left hxy, Nat.pos_of_mul_pos_left hpos⟩

theorem coords_lt (hp : p < s.points) :
    (s.coords p).1 < s.nx ∧ (s.coords p).2.1 < s.ny ∧ (s.coords p).2.2 < s.nz := by
  obtain ⟨hx, hy, -⟩ := extents_pos hp
  exact ⟨Nat.mod_lt _ hx, Nat.mod_lt _ hy, Nat.div_lt_of_lt_mul hp⟩

theorem coords_linear (hx : ix < s.nx) (hy : iy < s.ny) :
    s.coords (s.linear ix iy iz) = (ix, iy, iz) := by
  have hnx : 0 < s.nx := Nat.zero_lt_of_lt hx
  have hcolumn : s.linear ix iy iz / s.nx = iy + s.ny * iz := by
    rw [linear, Nat.add_mul_div_left _ _ hnx, Nat.div_eq_of_lt hx, Nat.zero_add]
  rw [coords, ← Nat.div_div_eq_div_mul, hcolumn, Nat.add_mul_mod_self_left, Nat.mod_eq_of_lt hy,
    Nat.add_mul_div_left _ _ (Nat.zero_lt_of_lt hy), Nat.div_eq_of_lt hy, Nat.zero_add, linear,
    Nat.add_mul_mod_self_left, Nat.mod_eq_of_lt hx]

theorem linear_coords (s : GridShape) (p : Nat) :
    s.linear (s.coords p).1 (s.coords p).2.1 (s.coords p).2.2 = p := by
  rw [coords, linear, ← Nat.div_div_eq_div_mul, Nat.mod_add_div, Nat.mod_add_div]

/-- The point above lies in the same column, one node up. -/
theorem coords_left (hp : p < s.points) {surface q : Nat}
    (h : (s.neighbours p surface).left = some q) :
    surface < (s.coords p).1 ∧ s.coords q = ((s.coords p).1 - 1, (s.coords p).2) := by
  obtain ⟨hx, hy, -⟩ := coords_lt hp
  simp only [neighbours] at h
  split_ifs at h with hsurface
  obtain rfl := Option.some.inj h
  exact ⟨hsurface, coords_linear (by omega) hy⟩

theorem coords_right (hp : p < s.points) (surface : Nat) :
    s.coords (s.neighbours p surface).right =
      (min ((s.coords p).1 + 1) (s.nx - 1), (s.coords p).2) := by
  obtain ⟨hx, hy, -⟩ := coords_lt hp
  exact coords_linear (by omega) hy

theorem transverse_lt (hp : p < s.points) {surface : Nat} {x : Nat × Nat}
    (h : x ∈ (s.neighbours p surface).transverse) : x.1 < s.points ∧ x.2 < s.points := by
  obtain ⟨hx, hy, hz⟩ := coords_lt hp
  obtain ⟨-, hny, hnz⟩ := extents_pos hp
  simp only [neighbours, List.mem_append] at h
  rcases h with h | h
  · split_ifs at h with hone
    · obtain rfl := List.mem_singleton.mp h
      exact ⟨linear_lt hx (Nat.mod_lt _ hny) hz, linear_lt hx (Nat.mod_lt _ hny) hz⟩
    · cases h
  · split_ifs at h with hone
    · obtain rfl := List.mem_singleton.mp h
      exact ⟨linear_lt hx hy (Nat.mod_lt _ hnz), linear_lt hx hy (Nat.mod_lt _ hnz)⟩
    · cases h

/-- A neighbour that is there is a point of the grid. -/
theorem resolve_lt (hp : p < s.points) {surface : Nat} {o : Offset} {q : Nat}
    (h : (s.neighbours p surface).resolve o = some q) : q < s.points := by
  obtain ⟨hx, hy, hz⟩ := coords_lt hp
  cases o with
  | center =>
    obtain rfl := Option.some.inj h
    exact hp
  | left =>
    simp only [Neighbours.resolve, neighbours] at h
    split_ifs at h with hsurface
    obtain rfl := Option.some.inj h
    exact linear_lt (by omega) hy hz
  | right =>
    obtain rfl := Option.some.inj h
    exact linear_lt (by omega) hy hz
  | minus axis =>
    obtain ⟨x, hx', rfl⟩ := Option.map_eq_some_iff.mp h
    exact (transverse_lt hp (List.mem_of_getElem? hx')).1
  | plus axis =>
    obtain ⟨x, hx', rfl⟩ := Option.map_eq_some_iff.mp h
    exact (transverse_lt hp (List.mem_of_getElem? hx')).2

theorem length_transverse_le (surface : Nat) : (s.neighbours p surface).transverse.length ≤ 2 := by
  simp only [neighbours, List.length_append]
  split_ifs <;> simp

end GridShape

end ClusterDynamics
