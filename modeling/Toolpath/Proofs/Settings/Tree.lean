import Mathlib.Data.List.Basic
import Toolpath.Settings.Decoding

/-!
# Settings read from trees

A tree that has all settings under their names gives what its leaves give, whatever format it comes
from: one lemma for each section, and `config?_of_entries?` for the sections together.
-/

namespace Toolpath.Settings.Readable

variable {τ : Type} [Readable τ]

/-- Entries with texts as keys. -/
def keyed (entries : List (String × τ)) : List (Option String × τ) :=
  entries.map fun e ↦ (some e.1, e.2)

omit [Readable τ] in
theorem known_keyed {keys : List String} {entries : List (String × τ)}
    (hkeys : ∀ e ∈ entries, e.1 ∈ keys) (hnodup : (entries.map Prod.fst).Nodup) :
    known keys (keyed entries) = some entries := by
  have htext : ¬(keyed entries).any (·.1.isNone) = true := by
    simp [keyed]
  unfold known
  rw [if_neg htext]
  extract_lets found
  have hfound : found = entries := by
    simp only [found, keyed, List.filterMap_map]
    refine (List.filterMap_eq_map_iff_forall_eq_some.2 fun e he ↦ ?_).trans
      (List.map_id entries)
    exact if_pos (List.contains_iff_mem.2 (hkeys e he))
  rw [hfound, if_pos hnodup]

/-- A table with the given keys gives its entries. -/
theorem fields?_of_entries? {t : τ} (keys : List String) {entries : List (String × τ)}
    (h : entries? t = some (keyed entries)) (hkeys : entries.map Prod.fst = keys)
    (hnodup : keys.Nodup) : fields? keys t = some entries := by
  subst hkeys
  rw [fields?, h]
  exact known_keyed (fun e he ↦ List.mem_map_of_mem he) hnodup

/-- A word is read from a tree that gives its number. -/
theorem word64?_of_natural? {t : τ} {w : UInt64} (h : natural? t = some w.toNat) :
    word64? t = some w := by
  rw [word64?, h, Option.bind_some, if_pos w.toNat_lt]
  simp

theorem word32?_of_natural? {t : τ} {w : UInt32} (h : natural? t = some w.toNat) :
    word32? t = some w := by
  rw [word32?, h, Option.bind_some, if_pos w.toNat_lt]
  simp

section Sections

variable {t a b c d e f : τ}

theorem interpreter?_of_entries? (h : entries? t = some (keyed [
      ("arc_step_degrees", a), ("max_repeat_depth", b)])) :
    interpreter? t = do return { arcStep := ← real? a, repeatDepth := ← word64? b } := by
  unfold interpreter?
  rw [fields?_of_entries? ["arc_step_degrees", "max_repeat_depth"] h rfl (by decide)]
  rfl

theorem playback?_of_entries? (h : entries? t = some (keyed [
      ("tick_interval_ms", a), ("default_speed", b), ("removal_interval", c)])) :
    playback? t = do
      return { tick := ← word64? a, speed := ← real? b, removalInterval := ← word32? c } := by
  unfold playback?
  rw [fields?_of_entries? ["tick_interval_ms", "default_speed", "removal_interval"] h rfl
    (by decide)]
  rfl

theorem stock?_of_entries? (h : entries? t = some (keyed [
      ("width", a), ("height", b), ("depth", c), ("origin", d), ("resolution", e),
      ("tool_radius", f)])) :
    stock? t = do
      return {
        width := ← real? a
        height := ← real? b
        depth := ← real? c
        origin := ← point? d
        resolution := ← real? e
        toolRadius := ← real? f } := by
  unfold stock?
  rw [fields?_of_entries? ["width", "height", "depth", "origin", "resolution", "tool_radius"] h rfl
    (by decide)]
  rfl

theorem config?_of_entries? (h : entries? t = some (keyed [
      ("interpreter", a), ("playback", b), ("stock", c)])) :
    config? t = do
      return {
        interpreter := ← interpreter? a
        playback := ← playback? b
        stock := ← stock? c } := by
  unfold config?
  rw [fields?_of_entries? ["interpreter", "playback", "stock"] h rfl (by decide)]
  rfl

end Sections

end Toolpath.Settings.Readable
