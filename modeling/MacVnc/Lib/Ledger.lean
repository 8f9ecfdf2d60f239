import Mathlib.Data.List.Basic
import Mathlib.Data.List.Nodup
import Mathlib.Data.List.Perm.Basic
/-!
# Ledgers

Numbered items that are issued in increasing order, stay open and are closed, each
with a fate.  A balanced ledger has every issued item open or closed, and once.  It
serves in order when the items that are closed with a fate of one kind are closed by
increasing number, ahead of all that are open.
-/

namespace MacVnc.Lib

variable {ρ : Type}

structure Ledger (ρ : Type) where
  issued : List Nat
  opened : List Nat
  closed : List (Nat × ρ)

namespace Ledger

/-- The entries of one item among the closed ones. -/
def fates (l : Ledger ρ) (n : Nat) : List (Nat × ρ) := l.closed.filter fun e => e.1 = n

/-- Every issued item is open or closed, once. -/
structure Balanced (l : Ledger ρ) : Prop where
  increasing : l.issued.Pairwise (· < ·)
  account : (l.opened ++ l.closed.map Prod.fst).Perm l.issued

/-- The items that were closed with a fate of this kind. -/
def served (kind : ρ → Bool) (l : Ledger ρ) : List Nat :=
  (l.closed.filter fun e => kind e.2).map Prod.fst

/-- Items are served by increasing number, and none overtakes an open one. -/
structure InOrder (kind : ρ → Bool) (l : Ledger ρ) : Prop where
  increasing : (l.served kind).Pairwise (· < ·)
  ahead : ∀ n ∈ l.served kind, ∀ m ∈ l.opened, n < m

def issue (l : Ledger ρ) (n : Nat) : Ledger ρ :=
  { l with issued := l.issued ++ [n], opened := n :: l.opened }

def close (l : Ledger ρ) (entries : List (Nat × ρ)) (opened : List Nat) : Ledger ρ :=
  { l with opened, closed := l.closed ++ entries }

variable {l : Ledger ρ} {n : Nat}

theorem Balanced.nodup (h : l.Balanced) : (l.opened ++ l.closed.map Prod.fst).Nodup :=
  h.account.nodup_iff.2 (h.increasing.imp fun hlt => Nat.ne_of_lt hlt)

theorem Balanced.issued_of_closed (h : l.Balanced) {e : Nat × ρ} (he : e ∈ l.closed) :
    e.1 ∈ l.issued :=
  h.account.subset (List.mem_append_right _ (List.mem_map_of_mem he))

theorem Balanced.issue (h : l.Balanced) (hn : ∀ m ∈ l.issued, m < n) : (l.issue n).Balanced where
  increasing := by
    apply List.pairwise_append.2
    refine ⟨h.increasing, List.pairwise_singleton _ _, ?_⟩
    intro m hm k hk
    rw [List.mem_singleton.1 hk]
    exact hn m hm
  account := (h.account.cons n).trans (List.perm_append_singleton n l.issued).symm

theorem Balanced.close (h : l.Balanced) {entries : List (Nat × ρ)} {opened : List Nat}
    (hopened : l.opened.Perm (entries.map Prod.fst ++ opened)) :
    (l.close entries opened).Balanced where
  increasing := h.increasing
  account := by
    refine List.Perm.trans ?_ h.account
    change (opened ++ (l.closed ++ entries).map Prod.fst).Perm _
    rw [List.map_append, ← List.append_assoc]
    refine (List.perm_append_comm.trans ?_)
    rw [← List.append_assoc]
    exact hopened.symm.append_right _

theorem Balanced.length_issued (h : l.Balanced) (hn : ∀ m ∈ l.issued, m < n) :
    l.issued.length ≤ n := by
  have hnodup : l.issued.Nodup := h.increasing.imp fun hlt => Nat.ne_of_lt hlt
  have hsub : l.issued ⊆ List.range n := fun m hm => List.mem_range.2 (hn m hm)
  calc l.issued.length ≤ (List.range n).length :=
        (List.subperm_of_subset hnodup hsub).length_le
    _ = n := List.length_range

theorem Balanced.length_served (h : l.Balanced) (kind : ρ → Bool) :
    (l.served kind).length ≤ l.issued.length := by
  have hperm := h.account.length_eq
  have hfilter := List.length_filter_le (fun e : Nat × ρ => kind e.2) l.closed
  rw [List.length_append, List.length_map] at hperm
  rw [served, List.length_map]
  omega

/-- Each issued item has one condition: it is open, or it was closed once. -/
theorem Balanced.once (h : l.Balanced) (hn : n ∈ l.issued) :
    (n ∈ l.opened ∧ l.fates n = []) ∨ (n ∉ l.opened ∧ ∃ r, l.fates n = [(n, r)]) := by
  obtain ⟨_, hclosed, hdisjoint⟩ := List.nodup_append.1 h.nodup
  have hmem {e : Nat × ρ} : e ∈ l.fates n ↔ e ∈ l.closed ∧ e.1 = n := by
    simp [fates, List.mem_filter]
  rcases List.mem_append.1 (h.account.symm.subset hn) with hopen | hleft
  · refine .inl ⟨hopen, List.eq_nil_iff_forall_not_mem.2 ?_⟩
    intro e he
    obtain ⟨hin, rfl⟩ := hmem.1 he
    exact hdisjoint _ hopen _ (List.mem_map_of_mem hin) rfl
  · refine .inr ⟨fun hopen => hdisjoint n hopen n hleft rfl, ?_⟩
    obtain ⟨e, he, rfl⟩ := List.mem_map.1 hleft
    have hfates : (l.fates e.1).Pairwise fun a b => a.1 ≠ b.1 :=
      (List.pairwise_map.1 hclosed).filter _
    have hself : e ∈ l.fates e.1 := hmem.2 ⟨he, rfl⟩
    generalize hall : l.fates e.1 = entries at hfates hself
    have hsame : ∀ a ∈ entries, a.1 = e.1 := fun a ha => (hmem.1 (hall ▸ ha)).2
    match entries with
    | [a] => exact ⟨e.2, by rw [List.mem_singleton.1 hself]⟩
    | a :: b :: rest =>
        have hne := (List.pairwise_cons.1 hfates).1 b List.mem_cons_self
        exact absurd ((hsame a List.mem_cons_self).trans (hsame b (by simp)).symm) hne

theorem served_close (kind : ρ → Bool) (entries : List (Nat × ρ)) (opened : List Nat) :
    (l.close entries opened).served kind =
      l.served kind ++ (entries.filter fun e => kind e.2).map Prod.fst := by
  rw [served, close, List.filter_append, List.map_append]
  rfl

theorem InOrder.issue {kind : ρ → Bool} (h : l.InOrder kind) (hbalanced : l.Balanced)
    (hn : ∀ m ∈ l.issued, m < n) : (l.issue n).InOrder kind where
  increasing := h.increasing
  ahead m hm k hk := by
    rcases List.mem_cons.1 hk with rfl | hold
    · obtain ⟨e, he, rfl⟩ := List.mem_map.1 hm
      exact hn _ (hbalanced.issued_of_closed (List.mem_of_mem_filter he))
    · exact h.ahead m hm k hold

theorem InOrder.close_other {kind : ρ → Bool} (h : l.InOrder kind) {entries : List (Nat × ρ)}
    {opened : List Nat} (hkind : ∀ e ∈ entries, kind e.2 = false) (hopened : opened ⊆ l.opened) :
    (l.close entries opened).InOrder kind := by
  have hnone : entries.filter (fun e => kind e.2) = [] := by
    rw [List.filter_eq_nil_iff]
    intro e he
    rw [hkind e he]
    exact Bool.false_ne_true
  have hserved : (l.close entries opened).served kind = l.served kind := by
    rw [served_close, hnone, List.map_nil, List.append_nil]
  refine ⟨hserved ▸ h.increasing, ?_⟩
  intro m hm k hk
  exact h.ahead m (hserved ▸ hm) k (hopened hk)

/-- The least open item may be served. -/
theorem InOrder.serve {kind : ρ → Bool} (h : l.InOrder kind) {r : ρ} {opened : List Nat}
    (hkind : kind r = true) (hopened : l.opened.Perm (n :: opened)) (hleast : ∀ m ∈ opened, n < m) :
    (l.close [(n, r)] opened).InOrder kind := by
  have hserved : (l.close [(n, r)] opened).served kind = l.served kind ++ [n] := by
    have hself : [(n, r)].filter (fun e => kind e.2) = [(n, r)] := List.filter_cons_of_pos hkind
    rw [served_close, hself]
    rfl
  have hn : n ∈ l.opened := hopened.symm.subset List.mem_cons_self
  constructor
  · rw [hserved]
    apply List.pairwise_append.2
    refine ⟨h.increasing, List.pairwise_singleton _ _, ?_⟩
    intro m hm k hk
    rw [List.mem_singleton.1 hk]
    exact h.ahead m hm n hn
  · rw [hserved]
    intro m hm k hk
    rcases List.mem_append.1 hm with hold | hnew
    · exact h.ahead m hold k (hopened.symm.subset (List.mem_cons_of_mem n hk))
    · rw [List.mem_singleton.1 hnew]
      exact hleast k hk

end Ledger

end MacVnc.Lib
