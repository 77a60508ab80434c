import Mathlib

/-!
# Tilings of an interval

A list of intervals that follow each other from one end of an interval to the other.

* `Tiles` — each interval begins where the one before it ends.
* `Tiles.append` — tilings of adjacent intervals.
* `Tiles.existsUnique` — every point is in exactly one of them.
-/

namespace Tiling

variable {K : Type} [LinearOrder K] {a b c x : K} {left right : List (K × K)}

/-- The intervals follow each other from `a` to `b`, and none of them is empty. -/
def Tiles : K → K → List (K × K) → Prop
  | a, b, [] => a = b
  | a, b, tile :: rest => tile.1 = a ∧ a < tile.2 ∧ Tiles tile.2 b rest

theorem tiles_single (h : a < b) : Tiles a b [(a, b)] := ⟨rfl, h, rfl⟩

theorem Tiles.append (hleft : Tiles a b left) (hright : Tiles b c right) :
    Tiles a c (left ++ right) := by
  induction left generalizing a with
  | nil =>
    obtain rfl : a = b := hleft
    exact hright
  | cons tile rest ih =>
    obtain ⟨hstart, hlt, hrest⟩ := hleft
    exact ⟨hstart, hlt, ih hrest⟩

/-- No tile begins before the first one. -/
theorem Tiles.le_of_mem (h : Tiles a b left) {tile : K × K} (htile : tile ∈ left) : a ≤ tile.1 := by
  induction left generalizing a with
  | nil => cases htile
  | cons first rest ih =>
    obtain ⟨hstart, hlt, hrest⟩ := h
    rcases List.mem_cons.mp htile with rfl | htile
    · exact hstart.ge
    · exact hlt.le.trans (ih hrest htile)

/-- Every point of the interval is in exactly one tile. -/
theorem Tiles.existsUnique (h : Tiles a b left) (hax : a ≤ x) (hxb : x < b) :
    ∃! tile, tile ∈ left ∧ tile.1 ≤ x ∧ x < tile.2 := by
  induction left generalizing a with
  | nil =>
    obtain rfl : a = b := h
    exact absurd hxb (not_lt.mpr hax)
  | cons first rest ih =>
    obtain ⟨hstart, hlt, hrest⟩ := h
    rcases lt_or_ge x first.2 with hx | hx
    · refine ⟨first, ⟨List.mem_cons_self, hstart.le.trans hax, hx⟩, ?_⟩
      rintro tile ⟨htile, hle, -⟩
      rcases List.mem_cons.mp htile with rfl | htile
      · rfl
      · exact absurd (hx.trans_le (hrest.le_of_mem htile)) (not_lt.mpr hle)
    · obtain ⟨tile, ⟨htile, hle, hlt'⟩, hunique⟩ := ih hrest hx
      refine ⟨tile, ⟨List.mem_cons_of_mem _ htile, hle, hlt'⟩, ?_⟩
      rintro other ⟨hother, hother_le, hother_lt⟩
      rcases List.mem_cons.mp hother with rfl | hother
      · exact absurd hother_lt (not_lt.mpr hx)
      · exact hunique other ⟨hother, hother_le, hother_lt⟩

end Tiling
