import Mathlib.Data.List.AList
import Mathlib.Algebra.GroupWithZero.Nat
/-!
# The total weight of a finite map

What an insertion and a removal do to the number of entries of a finite map and to
the sum of the weights of its values.
-/

namespace MacVnc.Lib.WeightedMap

variable {α β : Type*} [DecidableEq α] (weight : β → Nat)

/-- What is found after an insertion is what was inserted, or was there under another key. -/
theorem of_lookup_insert {s : AList fun _ : α => β} {key other : α} {value found : β}
    (h : (s.insert key value).lookup other = some found) :
    (other = key ∧ found = value) ∨ (other ≠ key ∧ s.lookup other = some found) := by
  by_cases hsame : other = key
  · rw [hsame, AList.lookup_insert, Option.some.injEq] at h
    exact Or.inl ⟨hsame, h.symm⟩
  · rw [AList.lookup_insert_ne hsame] at h
    exact Or.inr ⟨hsame, h⟩

def total (s : AList fun _ : α => β) : Nat := (s.entries.map fun e => weight e.2).sum

theorem sum_kerase (key : α) (entries : List (Sigma fun _ : α => β)) :
    (entries.map fun e => weight e.2).sum =
      ((entries.dlookup key).map weight).getD 0 +
        ((entries.kerase key).map fun e => weight e.2).sum := by
  induction entries with
  | nil => rfl
  | cons e rest ih =>
      by_cases hkey : key = e.1
      · subst hkey
        rw [List.kerase_cons_eq rfl, List.dlookup_cons_eq]
        rfl
      · rw [List.kerase_cons_ne hkey, List.dlookup_cons_ne _ _ hkey, List.map_cons, List.map_cons,
          List.sum_cons, List.sum_cons, ih]
        omega

/-- The weight of the value at a key, and of the rest. -/
theorem total_eq (key : α) (s : AList fun _ : α => β) :
    total weight s = ((s.lookup key).map weight).getD 0 + total weight (s.erase key) :=
  sum_kerase weight key s.entries

theorem total_erase_le (key : α) (s : AList fun _ : α => β) :
    total weight (s.erase key) ≤ total weight s := by
  have := total_eq weight key s
  omega

theorem total_insert (key : α) (value : β) (s : AList fun _ : α => β) :
    total weight (s.insert key value) = weight value + total weight (s.erase key) := by
  show ((List.kinsert key value s.entries).map fun e => weight e.2).sum = _
  rw [List.kinsert_def, List.map_cons, List.sum_cons]
  rfl

theorem perm_erase {key : α} {value : β} {s : AList fun _ : α => β}
    (h : s.lookup key = some value) : s.entries.Perm (⟨key, value⟩ :: (s.erase key).entries) := by
  have hmem : (⟨key, value⟩ : Sigma fun _ : α => β) ∈ s.entries := AList.mem_lookup_iff.1 h
  obtain ⟨front, back, hentries⟩ := List.append_of_mem hmem
  have hperm : s.entries.Perm (⟨key, value⟩ :: (front ++ back)) := by
    rw [hentries]
    exact List.perm_middle
  have hkerase : (List.kerase key s.entries).Perm (List.kerase key _) :=
    List.Perm.kerase s.nodupKeys hperm
  have hself : List.kerase key (⟨key, value⟩ :: (front ++ back)) = front ++ back :=
    List.kerase_cons_eq rfl
  rw [hself] at hkerase
  exact hperm.trans (hkerase.symm.cons _)

theorem length_keys_erase_le (key : α) (s : AList fun _ : α => β) :
    (s.erase key).keys.length ≤ s.keys.length := by
  rw [AList.keys_erase]
  exact List.length_erase_le

theorem length_keys_erase {key : α} {value : β} {s : AList fun _ : α => β}
    (h : s.lookup key = some value) : (s.erase key).keys.length + 1 = s.keys.length := by
  have hmem : key ∈ s.keys := by
    rw [← AList.mem_keys, ← AList.lookup_isSome, h]
    rfl
  have hpos := List.length_pos_of_mem hmem
  rw [AList.keys_erase, List.length_erase_of_mem hmem]
  omega

theorem length_keys_insert {key : α} {old value : β} {s : AList fun _ : α => β}
    (h : s.lookup key = some old) : (s.insert key value).keys.length = s.keys.length := by
  rw [AList.keys_insert, List.length_cons, ← AList.keys_erase]
  exact length_keys_erase h

theorem length_keys_insert_le (key : α) (value : β) (s : AList fun _ : α => β) :
    (s.insert key value).keys.length ≤ s.keys.length + 1 := by
  rw [AList.keys_insert, List.length_cons, ← AList.keys_erase]
  have := length_keys_erase_le key s
  omega

end MacVnc.Lib.WeightedMap
