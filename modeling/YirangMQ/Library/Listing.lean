import Mathlib.Data.List.Nodup
import Mathlib.Data.List.Perm.Basic

namespace YirangMQ

/-!
# Listing the latest entries

What a listing of entries with keys and times owes its reader: with a limit that leaves room for
all, each of them once; with a smaller one the latest, latest first.

* `Lists` — a listing that shows the entries so;
* `lists_iff_sorted` — one that cuts off the entries in some order;
* `lists_iff_shown` — one that cuts off what it shows of the entries, latest first.
-/

universe u v w

variable {α : Type u} {β : Type v} {κ : Type w} [DecidableEq κ]

/-- The listing shows the entries, the latest ones where the limit does not leave room for all. -/
structure Lists (key : α → κ) (time : α → Int) (list : Int → List α) (entries : List α) : Prop where
  all : ∀ n : Int, (entries.length : Int) ≤ n → ∀ e ∈ entries,
    (list n).filter (fun e' => key e' = key e) = [e]
  recent : ∀ n : Int, 0 < n → n < entries.length → ∃ rest, (list n ++ rest).Perm entries ∧
    ((list n).length : Int) = n ∧ (list n).Pairwise (fun e e' => time e' ≤ time e) ∧
    ∀ e ∈ list n, ∀ e' ∈ rest, time e' ≤ time e

variable {key : α → κ} {time : α → Int} {list : Int → List α} {entries shown : List α}

/-- No entries are listed by any listing. -/
theorem lists_nil : Lists key time list [] where
  all := by simp
  recent n hpos hlt := by
    rw [List.length_nil] at hlt
    omega

/-- In a list with distinct keys, an entry is the one of its key. -/
theorem filter_key_eq (hkeys : (shown.map key).Nodup) {e : α} (he : e ∈ shown) :
    shown.filter (fun e' => key e' = key e) = [e] := by
  induction shown with
  | nil => cases he
  | cons a shown ih =>
    rw [List.map_cons, List.nodup_cons] at hkeys
    obtain ⟨hnew, hkeys⟩ := hkeys
    rcases List.mem_cons.mp he with rfl | he
    · have hrest : shown.filter (fun e' => key e' = key e) = [] := by
        rw [List.filter_eq_nil_iff]
        intro e' he' hsame
        exact hnew (List.mem_map.mpr ⟨e', he', by simpa using hsame⟩)
      rw [List.filter_cons_of_pos (by simp), hrest]
    · have hne : key a ≠ key e := fun heq => hnew (heq ▸ List.mem_map_of_mem he)
      rw [List.filter_cons_of_neg (by simpa using hne)]
      exact ih hkeys he

/-- The last entry of a list is not later than those before it, when these are listed in order and
    it comes after them. -/
theorem pairwise_of_take {n : Nat} (hn : shown.length = n + 1)
    (hfirst : (shown.take n).Pairwise fun e e' => time e' ≤ time e)
    (hlast : ∀ e ∈ shown.take n, ∀ e' ∈ shown.drop n, time e' ≤ time e) :
    shown.Pairwise fun e e' => time e' ≤ time e := by
  obtain ⟨e, he⟩ := List.length_eq_one_iff.mp (show (shown.drop n).length = 1 by
    rw [List.length_drop]
    omega)
  rw [← List.take_append_drop n shown, List.pairwise_append]
  refine ⟨hfirst, ?_, hlast⟩
  rw [he]
  exact List.pairwise_singleton _ _

/-- **A listing that cuts off the entries in some order** shows them when this is latest first. -/
theorem lists_iff_sorted (hkeys : (entries.map key).Nodup) (hperm : shown.Perm entries)
    (hlist : ∀ n : Int, 0 ≤ n → list n = shown.take n.toNat) :
    Lists key time list entries ↔ shown.Pairwise fun e e' => time e' ≤ time e := by
  have hlength : shown.length = entries.length := hperm.length_eq
  constructor
  · intro h
    by_cases htwo : 1 < entries.length
    · -- all but one leave the one in its place
      have hn : shown.length = (entries.length - 1) + 1 := by omega
      obtain ⟨rest, hrest, -, hfirst, hlater⟩ := h.recent (entries.length - 1 : Nat)
        (by omega) (by omega)
      rw [hlist _ (by omega), Int.toNat_natCast] at hrest hfirst hlater
      refine pairwise_of_take hn hfirst fun e he e' he' => hlater e he e' ?_
      have hdrop : rest.Perm (shown.drop (entries.length - 1)) := by
        rw [← List.perm_append_left_iff (shown.take (entries.length - 1)),
          List.take_append_drop]
        exact hrest.trans hperm.symm
      exact hdrop.mem_iff.mpr he'
    · have hshort : shown.length ≤ 1 := by omega
      match shown, hshort with
      | [], _ => exact List.Pairwise.nil
      | [e], _ => exact List.pairwise_singleton _ _
  · intro hsorted
    refine ⟨fun n hn e he => ?_, fun n hpos hlt => ⟨shown.drop n.toNat, ?_⟩⟩
    · have hall : list n = shown := by
        rw [hlist n (by omega), List.take_of_length_le (by omega)]
      rw [hall]
      exact filter_key_eq ((hperm.map key).nodup_iff.mpr hkeys) (hperm.mem_iff.mpr he)
    · rw [hlist n (by omega), List.take_append_drop, List.length_take]
      have hpairs := hsorted
      rw [← List.take_append_drop n.toNat shown, List.pairwise_append] at hpairs
      exact ⟨hperm, by omega, hpairs.1, hpairs.2.2⟩

/-- **A listing of what it shows of the entries**, latest first, shows them when it shows each as it
    is.  `clip` is what becomes of a key. -/
theorem lists_iff_shown {items : List β} {entry show' : β → α} (clip : κ → κ)
    (hkeys : (items.map fun b => key (entry b)).Nodup) (hclip : ∀ k, clip (clip k) = clip k)
    (hshow : ∀ b ∈ items, key (show' b) = clip (key (entry b)))
    (hperm : shown.Perm (items.map show'))
    (hsorted : shown.Pairwise fun e e' => time e' ≤ time e)
    (hlist : ∀ n : Int, 0 ≤ n → list n = shown.take n.toNat) :
    Lists key time list (items.map entry) ↔ ∀ b ∈ items, show' b = entry b := by
  have hlength : shown.length = items.length := by
    rw [hperm.length_eq, List.length_map]
  constructor
  · intro h b hb
    have hroom : ((items.map entry).length : Int) ≤ items.length := by simp
    have hfilter := h.all items.length hroom (entry b) (List.mem_map_of_mem hb)
    rw [hlist _ (by omega), Int.toNat_natCast, List.take_of_length_le (by omega)] at hfilter
    have hmem : ∀ e, e ∈ shown → key e = key (entry b) → e = entry b := by
      intro e he hkey
      have hfound : e ∈ shown.filter fun e' => key e' = key (entry b) :=
        List.mem_filter.mpr ⟨he, by simpa using hkey⟩
      rw [hfilter, List.mem_singleton] at hfound
      exact hfound
    -- the entry is shown, so its key is one that is shown, and clipped already
    have hshown : entry b ∈ shown := by
      have hself : entry b ∈ [entry b] := List.mem_singleton_self _
      rw [← hfilter] at hself
      exact (List.mem_filter.mp hself).1
    obtain ⟨b', hb', heq⟩ := List.mem_map.mp (hperm.mem_iff.mp hshown)
    have hclipped : clip (key (entry b)) = key (entry b) := by
      rw [← heq, hshow b' hb', hclip]
    refine hmem _ (hperm.mem_iff.mpr (List.mem_map_of_mem hb)) ?_
    rw [hshow b hb, hclipped]
  · intro hsame
    have hmap : items.map show' = items.map entry := List.map_congr_left hsame
    have hdistinct : ((items.map entry).map key).Nodup := by
      rw [List.map_map]
      exact hkeys
    exact (lists_iff_sorted hdistinct (hmap ▸ hperm) hlist).mpr hsorted

/-- In a sorted list, what holds of the elements in its order holds along it. -/
theorem pairwise_iff_of_sorted {lt R : α → α → Prop} (hasymm : ∀ a b, lt a b → ¬lt b a)
    {l : List α} (hsorted : l.Pairwise lt) :
    l.Pairwise R ↔ ∀ a ∈ l, ∀ b ∈ l, lt a b → R a b := by
  constructor
  · intro hpairs
    induction l with
    | nil => simp
    | cons x l ih =>
      rw [List.pairwise_cons] at hsorted hpairs
      intro a ha b hb hab
      rcases List.mem_cons.mp ha with rfl | hrest
      · rcases List.mem_cons.mp hb with rfl | hrest'
        · exact absurd hab (hasymm _ _ hab)
        · exact hpairs.1 b hrest'
      · rcases List.mem_cons.mp hb with rfl | hrest'
        · exact absurd (hsorted.1 a hrest) (hasymm _ _ hab)
        · exact ih hsorted.2 hpairs.2 a hrest b hrest' hab
  · intro hall
    exact hsorted.imp_of_mem fun {a b} ha hb hlt => hall a ha b hb hlt

end YirangMQ
