/-!
# Ordered keyed lists

Lists of key and value pairs in order of first insertion. `put` keeps the place of a key that
is there and appends one that is not, so it keeps keys distinct.
-/

namespace DotGraph.Keyed

variable {κ : Type u} {α : Type v} [DecidableEq κ]

def keys (l : List (κ × α)) : List κ := l.map Prod.fst

def find? (k : κ) : List (κ × α) → Option α
  | [] => none
  | (k', v) :: l => if k' = k then some v else find? k l

/-- Set the value of a key in its place, or append the key. -/
def put (k : κ) (v : α) : List (κ × α) → List (κ × α)
  | [] => [(k, v)]
  | (k', v') :: l => if k' = k then (k, v) :: l else (k', v') :: put k v l

def erase (k : κ) (l : List (κ × α)) : List (κ × α) := l.filter (fun e => e.1 ≠ k)

theorem keys_put (k : κ) (v : α) (l : List (κ × α)) :
    keys (put k v l) = if k ∈ keys l then keys l else keys l ++ [k] := by
  induction l with
  | nil => rfl
  | cons e l ih =>
    obtain ⟨k', v'⟩ := e
    by_cases h : k' = k
    · simp [put, keys, h]
    · simp only [put, h, if_false]
      simp only [keys, List.map_cons, List.mem_cons, Ne.symm h, false_or] at ih ⊢
      split <;> simp_all

theorem nodup_keys_put (k : κ) (v : α) (l : List (κ × α)) (h : (keys l).Nodup) :
    (keys (put k v l)).Nodup := by
  rw [keys_put]
  split
  · exact h
  · rename_i hk
    rw [List.nodup_append]
    refine ⟨h, by simp, fun a ha b hb => ?_⟩
    simp only [List.mem_singleton] at hb
    rintro rfl
    exact hk (hb ▸ ha)

theorem nodup_keys_erase (k : κ) (l : List (κ × α)) (h : (keys l).Nodup) :
    (keys (erase k l)).Nodup :=
  h.sublist (List.filter_sublist.map _)

theorem find?_put_self (k : κ) (v : α) (l : List (κ × α)) : find? k (put k v l) = some v := by
  induction l with
  | nil => simp [put, find?]
  | cons e l ih =>
    obtain ⟨k', v'⟩ := e
    by_cases h : k' = k <;> simp [put, find?, h, ih]

theorem find?_put_of_ne {k k' : κ} (h : k' ≠ k) (v : α) (l : List (κ × α)) :
    find? k (put k' v l) = find? k l := by
  induction l with
  | nil => simp [put, find?, h]
  | cons e l ih =>
    obtain ⟨k'', v'⟩ := e
    by_cases h' : k'' = k'
    · subst h'; simp [put, find?, h]
    · simp [put, find?, h', ih]

end DotGraph.Keyed
