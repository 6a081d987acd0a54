/-!
# Tables

Finite maps kept as a list in the ascending order of their keys.
-/

namespace Toolpath

structure Table (κ ν : Type) where
  entries : List (κ × ν) := []

namespace Table

variable {κ ν : Type} [DecidableEq κ]

def find (k : κ) : List (κ × ν) → Option ν
  | [] => none
  | (k', v) :: rest => if k = k' then some v else find k rest

def get? (t : Table κ ν) (k : κ) : Option ν := find k t.entries

def size (t : Table κ ν) : Nat := t.entries.length

def isEmpty (t : Table κ ν) : Bool := t.entries.isEmpty

theorem mem_of_find {k : κ} {v : ν} {es : List (κ × ν)} (h : find k es = some v) :
    (k, v) ∈ es := by
  induction es with
  | nil => simp [find] at h
  | cons e rest ih =>
    rw [find] at h
    split at h
    · rename_i hk
      cases h
      exact hk ▸ List.mem_cons_self
    · exact List.mem_cons_of_mem _ (ih h)

variable [LT κ] [DecidableLT κ]

def place (k : κ) (v : ν) : List (κ × ν) → List (κ × ν)
  | [] => [(k, v)]
  | (k', v') :: rest =>
    if k = k' then (k, v) :: rest
    else if k < k' then (k, v) :: (k', v') :: rest
    else (k', v') :: place k v rest

/-- The table with `v` under `k`, whatever was there before. -/
def set (t : Table κ ν) (k : κ) (v : ν) : Table κ ν := ⟨place k v t.entries⟩

theorem find_place_self (k : κ) (v : ν) (es : List (κ × ν)) : find k (place k v es) = some v := by
  induction es with
  | nil => simp [place, find]
  | cons e rest ih =>
    rw [place]
    split
    · simp [find]
    · rename_i h
      split <;> simp [find, h, ih]

theorem find_place_of_ne {k j : κ} (v : ν) (es : List (κ × ν)) (h : j ≠ k) :
    find j (place k v es) = find j es := by
  induction es with
  | nil => simp [place, find, h]
  | cons e rest ih =>
    rw [place]
    split
    · rename_i hk
      simp [find, h, ← hk]
    · split <;> simp [find, h, ih]

theorem mem_of_mem_place {e : κ × ν} {k : κ} {v : ν} {es : List (κ × ν)}
    (h : e ∈ place k v es) : e = (k, v) ∨ e ∈ es := by
  induction es with
  | nil => simpa [place] using h
  | cons e' rest ih =>
    rw [place] at h
    split at h
    · exact (List.mem_cons.1 h).imp id (List.mem_cons_of_mem _)
    · split at h
      · exact List.mem_cons.1 h
      · rcases List.mem_cons.1 h with h | h
        · exact .inr (h ▸ List.mem_cons_self)
        · exact (ih h).imp id (List.mem_cons_of_mem _)

@[simp] theorem get?_set_self (t : Table κ ν) (k : κ) (v : ν) : (t.set k v).get? k = some v :=
  find_place_self k v t.entries

theorem get?_set_of_ne (t : Table κ ν) {k j : κ} (v : ν) (h : j ≠ k) :
    (t.set k v).get? j = t.get? j :=
  find_place_of_ne v t.entries h

end Table

end Toolpath
