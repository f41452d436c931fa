import Mathlib.Data.List.Basic
import ResourceAtlas.Proofs.Keyed

/-!
# Notes counted by keys

Notes come in one after the other, each under a key, and a keyed list keeps for every key what its notes
amount to. The keys of the list are those of the notes, in the order in which they first came. Ranked by
what they amount to, keys that amount to the same keep that order, because the sort is stable.
-/

namespace ResourceAtlas.Keyed

variable {α β : Type} {key : String} {notes : Keyed β} {entries : Keyed α}

/-- A key that is present keeps its place when something is put under it. -/
theorem keys_put_of_mem {entries : Keyed α} (h : key ∈ entries.keys) (value : α) :
    (entries.put key value).keys = entries.keys := by
  induction entries with
  | nil => exact absurd h List.not_mem_nil
  | cons e rest ih =>
    obtain ⟨k, v⟩ := e
    by_cases hk : k = key
    · rw [put, if_pos hk, hk]
      rfl
    · have hrest : key ∈ keys rest := (List.mem_cons.mp h).resolve_left (Ne.symm hk)
      rw [put, if_neg hk]
      exact congrArg (k :: ·) (ih hrest)

/-- There is nothing under a key exactly if it is not present. -/
theorem get?_eq_none_iff : entries.get? key = none ↔ key ∉ entries.keys := by
  induction entries with
  | nil => exact iff_of_true rfl List.not_mem_nil
  | cons e rest ih =>
    obtain ⟨k, v⟩ := e
    by_cases hk : k = key
    · rw [get?, if_pos hk]
      exact iff_of_false (Option.some_ne_none v) fun h => h (hk ▸ List.mem_cons_self)
    · rw [get?, if_neg hk, ih, keys, keys, List.map_cons, List.mem_cons]
      exact ⟨fun h => not_or.mpr ⟨Ne.symm hk, h⟩, fun h => (not_or.mp h).2⟩

/-- The values under a key that is not present. -/
theorem under_eq_nil (h : key ∉ notes.keys) : notes.under key = [] := by
  rw [List.eq_nil_iff_forall_not_mem]
  exact fun b hb => h (List.mem_map_of_mem (mem_under.mp hb))

/-- One more note comes under its key. -/
theorem under_concat (notes : Keyed β) (key : String) (b : β) (other : String) :
    under other (notes ++ [(key, b)]) = notes.under other ++ if key = other then [b] else [] := by
  rw [under, List.filterMap_append]
  by_cases hk : key = other <;> simp [under, hk]

/-- A sum over what stands under the keys changes with what is put as one entry for another does; for an
absent key that other one is an entry that counts nothing. -/
theorem sum_put (count : α → Nat) (zero : α) (hzero : count zero = 0) (key : String) (value : α)
    (entries : Keyed α) :
    (entries.put key value).foldr (fun e total => count e.2 + total) 0 +
        count ((entries.get? key).getD zero) =
      entries.foldr (fun e total => count e.2 + total) 0 + count value := by
  induction entries with
  | nil => simp [put, get?, hzero]
  | cons e rest ih =>
    obtain ⟨k, v⟩ := e
    by_cases hk : k = key
    · simp only [put, get?, if_pos hk, List.foldr_cons, Option.getD_some]
      omega
    · simp only [put, get?, if_neg hk, List.foldr_cons]
      omega

/-- A keyed list tallies notes: it has their keys in the order in which those first came, and under every
key what its notes amount to. -/
structure Tallies (amounts : List β → α → Prop) (notes : Keyed β) (entries : Keyed α) : Prop where
  /-- A key is present exactly if a note came under it. -/
  mem_keys : ∀ key, key ∈ entries.keys ↔ key ∈ notes.keys
  /-- Keys stand in the order of first notes. -/
  ordered : entries.keys.Pairwise fun k k' => notes.keys.idxOf k < notes.keys.idxOf k'
  /-- Under a key stands what its notes amount to. -/
  each : ∀ key a, entries.get? key = some a → amounts (notes.under key) a

namespace Tallies

variable {amounts : List β → α → Prop}

/-- No entries tally no notes. -/
theorem nil : Tallies amounts ([] : Keyed β) ([] : Keyed α) :=
  ⟨fun _ => Iff.rfl, List.Pairwise.nil, nofun⟩

/-- No key comes twice. -/
theorem nodup (h : Tallies amounts notes entries) : entries.keys.Nodup :=
  h.ordered.imp fun hlt heq => absurd (heq ▸ hlt) (Nat.lt_irrefl _)

/-- Every entry is what the notes under its key amount to. -/
theorem each_mem (h : Tallies amounts notes entries) {e : String × α} (he : e ∈ entries) :
    amounts (notes.under e.1) e.2 :=
  h.each e.1 e.2 (get?_of_mem h.nodup he)

/-- What stands under a key, or nothing at all, is what the notes under it amount to. -/
theorem getD (h : Tallies amounts notes entries) (zero : α) (hzero : amounts [] zero) (key : String) :
    amounts (notes.under key) ((entries.get? key).getD zero) := by
  cases hget : entries.get? key with
  | some a => exact h.each key a hget
  | none =>
    rw [get?_eq_none_iff, h.mem_keys] at hget
    rw [under_eq_nil hget]
    exact hzero

/-- One more note is tallied by putting what the notes under its key amount to with it. -/
theorem put (h : Tallies amounts notes entries) (key : String) {b : β} {a : α}
    (ha : amounts (notes.under key ++ [b]) a) :
    Tallies amounts (notes ++ [(key, b)]) (entries.put key a) := by
  have hkeys : keys (notes ++ [(key, b)]) = notes.keys ++ [key] := List.map_append
  refine ⟨fun other => ?_, ?_, fun other value hget => ?_⟩
  · rw [mem_keys_put, hkeys, List.mem_append, List.mem_singleton, h.mem_keys, or_comm]
  · -- Keys that came before keep their places, and a new one comes behind all of them.
    have hkept : entries.keys.Pairwise fun k k' =>
        (notes.keys ++ [key]).idxOf k < (notes.keys ++ [key]).idxOf k' := by
      refine h.ordered.imp_of_mem fun hk hk' hlt => ?_
      rwa [List.idxOf_append_of_mem ((h.mem_keys _).mp hk),
        List.idxOf_append_of_mem ((h.mem_keys _).mp hk')]
    rw [hkeys]
    by_cases hpresent : key ∈ entries.keys
    · rw [keys_put_of_mem hpresent]
      exact hkept
    · have hput : (entries.put key a).keys = entries.keys ++ [key] := by
        rw [put_of_not_mem hpresent]
        exact List.map_append
      rw [hput]
      refine List.pairwise_append.mpr ⟨hkept, List.pairwise_singleton _ _, fun k hk k' hk' => ?_⟩
      have hmem := (h.mem_keys k).mp hk
      rw [List.mem_singleton.mp hk', List.idxOf_append_of_mem hmem,
        List.idxOf_append_of_notMem fun hkey => hpresent ((h.mem_keys key).mpr hkey)]
      exact Nat.lt_of_lt_of_le (List.idxOf_lt_length_iff.mpr hmem) (Nat.le_add_right _ _)
  · rw [under_concat]
    by_cases hk : key = other
    · subst hk
      rw [get?_put_self] at hget
      rwa [if_pos rfl, ← Option.some.inj hget]
    · rw [get?_put_other (Ne.symm hk)] at hget
      rw [if_neg hk, List.append_nil]
      exact h.each other value hget

end Tallies

end ResourceAtlas.Keyed

namespace ResourceAtlas.Ledger

variable {α : Type} {le : α → α → Bool} {l : List α}

/-- A sort keeps members that are alike in the order in which they stood. -/
theorem filter_mergeSort (trans : ∀ a b c, le a b = true → le b c = true → le a c = true)
    (total : ∀ a b, (le a b || le b a) = true) (l : List α) (z : α) :
    (l.mergeSort le).filter (fun a => le z a && le a z) = l.filter fun a => le z a && le a z := by
  have halike : (l.filter fun a => le z a && le a z).Pairwise fun a b => le a b = true := by
    rw [List.pairwise_filter]
    refine List.pairwise_of_forall fun a b ha hb => ?_
    exact trans a z b (Bool.and_eq_true_iff.mp ha).2 (Bool.and_eq_true_iff.mp hb).1
  have hsub := (List.sublist_mergeSort trans total halike List.filter_sublist).filter
    fun a => le z a && le a z
  simp only [List.filter_filter, Bool.and_self] at hsub
  exact (hsub.eq_of_length ((List.mergeSort_perm l le).filter _).length_eq.symm).symm

/-- What holds of any two members in their order holds of two that are alike after a sort. -/
theorem pairwise_mergeSort_alike (trans : ∀ a b c, le a b = true → le b c = true → le a c = true)
    (total : ∀ a b, (le a b || le b a) = true) {r : α → α → Prop} (h : l.Pairwise r) :
    (l.mergeSort le).Pairwise fun a b => le a b = true ∧ (le b a = true → r a b) := by
  refine List.pairwise_of_forall_sublist fun {a b} hab => ?_
  have hle := (List.pairwise_mergeSort trans total l).forall_sublist hab
  refine ⟨hle, fun hge => h.forall_sublist ?_⟩
  have haa : le a a = true := by simpa using total a a
  have hpair := hab.filter fun x => le a x && le x a
  rw [filter_mergeSort trans total] at hpair
  rw [List.filter_cons_of_pos (by rw [haa]; rfl), List.filter_cons_of_pos (by rw [hle, hge]; rfl)] at hpair
  exact hpair.trans List.filter_sublist

end ResourceAtlas.Ledger
