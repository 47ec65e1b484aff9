/-
# `Lib.Written` — an array known by what was stored in it

`log` lists the values stored and where, in the order of the stores.  An array
that was filled from its start is `l.zipIdx`: each place was stored to once
(`places_zipIdx`) and holds its element of `l` (`written_zipIdx`).
-/
import Mathlib.Data.List.Induction

universe u

namespace Written

variable {α : Type u}

/-- What place `k` holds, if it was stored to. -/
def written (log : List (α × Nat)) (k : Nat) : Option α :=
  (log.reverse.find? (fun w => w.2 == k)).map Prod.fst

/-- Where the stores went. -/
def places (log : List (α × Nat)) : List Nat :=
  log.map Prod.snd

theorem places_zipIdx (l : List α) : places l.zipIdx = List.range l.length := by
  rw [places, List.zipIdx_map_snd, List.range_eq_range']

/-- The last store to a place decides. -/
theorem written_append (log : List (α × Nat)) (x : α) (i k : Nat) :
    written (log ++ [(x, i)]) k = if i = k then some x else written log k := by
  rw [written, List.reverse_append, List.reverse_singleton, List.singleton_append]
  by_cases h : i = k
  · rw [List.find?_cons_of_pos (by simpa using h), if_pos h]
    rfl
  · rw [List.find?_cons_of_neg (by simpa using h), if_neg h]
    rfl

/-- Later stores cover earlier ones. -/
theorem written_log_append (log log' : List (α × Nat)) (k : Nat) :
    written (log ++ log') k = (written log' k).or (written log k) := by
  rw [written, List.reverse_append, List.find?_append, Option.map_or]
  rfl

theorem zipIdx_concat (l : List α) (x : α) : (l ++ [x]).zipIdx = l.zipIdx ++ [(x, l.length)] := by
  rw [List.zipIdx_append, Nat.zero_add]
  rfl

theorem written_zipIdx (l : List α) (k : Nat) : written l.zipIdx k = l[k]? := by
  induction l using List.reverseRecOn with
  | nil => rfl
  | append_singleton l x ih =>
      rw [zipIdx_concat, written_append, ih]
      rcases Nat.lt_trichotomy k l.length with h | h | h
      · rw [if_neg (by omega), List.getElem?_append_left h]
      · subst h
        rw [if_pos rfl, List.getElem?_concat_length]
      · rw [if_neg (by omega), List.getElem?_eq_none (by omega),
          List.getElem?_eq_none (by rw [List.length_append, List.length_singleton]; omega)]

end Written
