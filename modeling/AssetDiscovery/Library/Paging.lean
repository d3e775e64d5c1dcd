import Mathlib.Algebra.Order.Floor.Div
import Mathlib.Data.List.Nodup
import Mathlib.Data.List.Sort
import Mathlib.Data.Nat.Basic

/-!
# Paging through sorted rows

`ORDER BY key DESC OFFSET o LIMIT l` sorts the rows by a key and leaves the order of rows with equal
keys open: an `OrderBy` is one way of deciding it, and each query may decide it anew. Walking
through the pages, one query each, gives every row once, however the queries decide, if and only if
no two rows with equal keys lie on both sides of a page boundary (`walk_perm_iff`): a `Cut` of the
rows at each boundary, that is a key which exactly the rows before it exceed.
-/

set_option autoImplicit false

/-- A way of sorting rows by a key, the greatest first. -/
structure OrderBy {α κ : Type} [LinearOrder κ] (key : α → κ) where
  order : List α → List α
  perm : ∀ rows, (order rows).Perm rows
  sorted : ∀ rows, (order rows).Pairwise fun a b ↦ key b ≤ key a

namespace OrderBy

variable {α β κ : Type} [LinearOrder κ] {key : α → κ} {rows : List α} {l j : ℕ}

/-- Rows with equal keys stay in the order of `arrange`, which rearranges the rows. -/
def stable (key : α → κ) (arrange : List α → List α) (h : ∀ rows, (arrange rows).Perm rows) :
    OrderBy key where
  order rows := (arrange rows).insertionSort fun a b ↦ key b ≤ key a
  perm rows := (List.perm_insertionSort _ _).trans (h rows)
  sorted rows := by
    have htotal : Std.Total fun a b ↦ key b ≤ key a := ⟨fun a b ↦ le_total (key b) (key a)⟩
    have htrans : IsTrans α fun a b ↦ key b ≤ key a := ⟨fun _ _ _ hab hbc ↦ hbc.trans hab⟩
    exact List.pairwise_insertionSort _ _

/-- Page `p`, counted from 0, of `l` rows each. -/
def page (o : OrderBy key) (rows : List α) (l p : ℕ) : List α :=
  ((o.order rows).drop (p * l)).take l

theorem mem_of_mem_page {o : OrderBy key} {p : ℕ} {a : α} (h : a ∈ o.page rows l p) : a ∈ rows :=
  (o.perm rows).mem_iff.1 (List.mem_of_mem_drop (List.mem_of_mem_take h))

theorem length_page (o : OrderBy key) (rows : List α) (l p : ℕ) :
    (o.page rows l p).length = min l (rows.length - p * l) := by
  rw [page, List.length_take, List.length_drop, (o.perm rows).length_eq]

/-- Exactly `j` rows have a key above `t`, for some `t`. -/
def Cut (key : α → κ) (rows : List α) (j : ℕ) : Prop :=
  ∃ t, rows.countP (fun a ↦ t < key a) = j

/-- Rows that are cut at every page boundary between two of them. -/
def CutsPages (key : α → κ) (rows : List α) (l : ℕ) : Prop :=
  ∀ k, 0 < k → k * l < rows.length → Cut key rows (k * l)

/-! ### Sorted lists -/

/-- If the elements that satisfy `p` come first, they are a prefix. -/
theorem filter_eq_take {p : α → Bool} {s : List α} (h : s.Pairwise fun a b ↦ p b → p a) :
    s.filter p = s.take (s.countP p) := by
  induction s with
  | nil => rfl
  | cons a s ih =>
    obtain ⟨ha, h⟩ := List.pairwise_cons.1 h
    by_cases hpa : p a = true
    · rw [List.filter_cons_of_pos hpa, List.countP_cons_of_pos hpa, List.take_succ_cons, ih h]
    · have hnone : ∀ b ∈ s, ¬ p b = true := fun b hb hpb ↦ hpa (ha b hb hpb)
      rw [List.filter_cons_of_neg hpa, List.countP_cons_of_neg hpa, List.filter_eq_nil_iff.2 hnone,
        List.countP_eq_zero.2 hnone, List.take_zero]

theorem filter_order (o : OrderBy key) (rows : List α) (t : κ) :
    (o.order rows).filter (fun a ↦ t < key a) =
      (o.order rows).take (rows.countP fun a ↦ t < key a) := by
  rw [← (o.perm rows).countP_eq]
  refine filter_eq_take ((o.sorted rows).imp fun hab ht ↦ ?_)
  simp only [decide_eq_true_eq] at ht ⊢
  exact ht.trans_le hab

/-- Before a cut, all ways of sorting have the same rows. -/
theorem take_perm_take (o o' : OrderBy key)
    (h : 0 < j → j < rows.length → Cut key rows j) :
    ((o.order rows).take j).Perm ((o'.order rows).take j) := by
  rcases Nat.eq_zero_or_pos j with rfl | hpos
  · simp
  · rcases Nat.lt_or_ge j rows.length with hlt | hge
    · obtain ⟨t, rfl⟩ := h hpos hlt
      rw [← o.filter_order, ← o'.filter_order]
      exact ((o.perm rows).trans (o'.perm rows).symm).filter _
    · rw [List.take_of_length_le ((o.perm rows).length_eq.trans_le hge),
        List.take_of_length_le ((o'.perm rows).length_eq.trans_le hge)]
      exact (o.perm rows).trans (o'.perm rows).symm

/-! ### Walking through the pages -/

/-- Between cuts the pages add up, whatever order each of them uses. -/
theorem flatMap_page_perm (h : CutsPages key rows l) (o : ℕ → OrderBy key) (n : ℕ)
    (o' : OrderBy key) : ((List.range n).flatMap fun p ↦ (o p).page rows l p).Perm
      ((o'.order rows).take (n * l)) := by
  induction n generalizing o' with
  | zero => simp
  | succ n ih =>
    have hpages : (((o n).order rows).take (n * l) ++ (o n).page rows l n) =
        ((o n).order rows).take ((n + 1) * l) := by
      rw [page, ← List.take_add, Nat.add_mul, Nat.one_mul]
    rw [List.range_succ, List.flatMap_append, List.flatMap_singleton]
    refine ((ih (o n)).append_right _).trans ?_
    rw [hpages]
    exact take_perm_take (o n) o' fun _ ↦ h (n + 1) n.succ_pos

/-- The order `o`, but the rows `rows` are ordered as in `s`. -/
def choosing [DecidableEq α] (o : OrderBy key) (rows s : List α) (hperm : s.Perm rows)
    (hsorted : s.Pairwise fun a b ↦ key b ≤ key a) : OrderBy key where
  order rows' := if rows' = rows then s else o.order rows'
  perm rows' := by
    split
    · next h => exact h ▸ hperm
    · exact o.perm rows'
  sorted rows' := by
    split
    · exact hsorted
    · exact o.sorted rows'

/-- Without a cut, the rows on both sides have equal keys. -/
theorem key_eq_of_not_cut {pre post : List α} {a b : α}
    (hsorted : (pre ++ a :: b :: post).Pairwise fun a b ↦ key b ≤ key a)
    (h : ¬ Cut key (pre ++ a :: b :: post) (pre.length + 1)) : key a = key b := by
  obtain ⟨-, hpost, hpre⟩ := List.pairwise_append.1 hsorted
  obtain ⟨ha, hpost⟩ := List.pairwise_cons.1 hpost
  obtain ⟨hb, -⟩ := List.pairwise_cons.1 hpost
  have hle : key b ≤ key a := ha b List.mem_cons_self
  refine hle.antisymm' (not_lt.1 fun hlt ↦ h ⟨key b, ?_⟩)
  have hall : pre.countP (fun c ↦ key b < key c) = pre.length := by
    refine List.countP_eq_length.2 fun c hc ↦ decide_eq_true ?_
    exact hlt.trans_le (hpre c hc a List.mem_cons_self)
  have hnone : post.countP (fun c ↦ key b < key c) = 0 := by
    refine List.countP_eq_zero.2 fun c hc ↦ ?_
    simpa using hb c hc
  rw [List.countP_append, hall, List.countP_cons_of_pos (by simpa using hlt),
    List.countP_cons_of_neg (by simp), hnone]

/-- Two pages of a walk that gives no row twice have no row in common. -/
theorem disjoint_of_nodup {f : ℕ → List β} {n i k : ℕ} (h : ((List.range n).flatMap f).Nodup)
    (hik : i < k) (hk : k < n) {b : β} (hi : b ∈ f i) (hb : b ∈ f k) : False := by
  have hpairs := (List.nodup_flatMap.1 h).2
  have hdisjoint := List.pairwise_iff_getElem.1 hpairs i k (by simp; omega) (by simpa) hik
  simp only [List.getElem_range] at hdisjoint
  exact hdisjoint hi hb

/-- Two rows with equal keys can be swapped. -/
theorem sorted_swap {pre post : List α} {a b : α}
    (h : (pre ++ a :: b :: post).Pairwise fun a b ↦ key b ≤ key a) (heq : key a = key b) :
    (pre ++ b :: a :: post).Pairwise fun a b ↦ key b ≤ key a := by
  obtain ⟨hpre, hpost, hacross⟩ := List.pairwise_append.1 h
  obtain ⟨ha, hpost⟩ := List.pairwise_cons.1 hpost
  obtain ⟨hb, hpost⟩ := List.pairwise_cons.1 hpost
  have hb' : ∀ c ∈ a :: post, key c ≤ key b := List.forall_mem_cons.2 ⟨heq.le, hb⟩
  have ha' : ∀ c ∈ post, key c ≤ key a := fun c hc ↦ ha c (List.mem_cons_of_mem _ hc)
  refine List.pairwise_append.2 ⟨hpre, List.pairwise_cons.2 ⟨hb', List.pairwise_cons.2
    ⟨ha', hpost⟩⟩, fun c hc ↦ ?_⟩
  have hc := hacross c hc
  simp only [List.forall_mem_cons] at hc ⊢
  exact ⟨hc.2.1, hc.1, hc.2.2⟩

theorem exists_split {s : List α} (hj : 0 < j) (hlt : j < s.length) :
    ∃ pre a b post, s = pre ++ a :: b :: post ∧ pre.length + 1 = j := by
  refine ⟨s.take (j - 1), s[j - 1], s[j], s.drop (j + 1), ?_, ?_⟩
  · have hdrop : s.drop (j - 1 + 1) = s[j] :: s.drop (j + 1) := by
      rw [Nat.sub_add_cancel hj]
      exact List.drop_eq_getElem_cons _
    rw [← hdrop, ← List.drop_eq_getElem_cons, List.take_append_drop]
  · rw [List.length_take]
    omega

/-- The last row before a boundary is on the page that ends there. -/
theorem mem_page_before (o : OrderBy key) {pre post : List α} {a : α} {k : ℕ} (hk : 0 < k)
    (hs : o.order rows = pre ++ a :: post) (hpre : pre.length + 1 = k * l) :
    a ∈ o.page rows l (k - 1) := by
  have hmul : (k - 1) * l + l = k * l := by
    rw [← Nat.succ_mul, Nat.succ_eq_add_one, Nat.sub_add_cancel hk]
  have hl : 0 < l := by
    rcases Nat.eq_zero_or_pos l with rfl | hl
    · simp at hpre
    · exact hl
  have hone : l - (pre.drop ((k - 1) * l)).length = 1 := by
    rw [List.length_drop]
    omega
  rw [page, hs, List.drop_append_of_le_length (by omega), List.take_append, hone]
  exact List.mem_append_right _ List.mem_cons_self

/-- The first row after a boundary is on the page that begins there. -/
theorem mem_page_after (o : OrderBy key) {pre post : List α} {a : α} {k : ℕ} (hl : 0 < l)
    (hs : o.order rows = pre ++ a :: post) (hpre : pre.length = k * l) : a ∈ o.page rows l k := by
  obtain ⟨l, rfl⟩ := Nat.exists_eq_succ_of_ne_zero hl.ne'
  rw [page, hs, ← hpre, List.drop_left]
  exact List.mem_cons_self

/-- Without a cut at a boundary, one row can be given on both sides of it. -/
theorem exists_not_nodup (f : α → β) (hl : 0 < l) {k n : ℕ} (hk : 0 < k) (hlt : k * l < rows.length)
    (hkn : k < n) (h : ¬ Cut key rows (k * l)) : ∃ o : ℕ → OrderBy key,
      ¬ ((List.range n).flatMap fun p ↦ ((o p).page rows l p).map f).Nodup := by
  classical
  let o := stable key id fun _ ↦ .refl _
  obtain ⟨pre, a, b, post, hs, hpre⟩ :=
    exists_split (s := o.order rows) (Nat.mul_pos hk hl) ((o.perm rows).length_eq ▸ hlt)
  have hperm : (pre ++ a :: b :: post).Perm rows := hs ▸ o.perm rows
  have hsorted : (pre ++ a :: b :: post).Pairwise fun a b ↦ key b ≤ key a := hs ▸ o.sorted rows
  have heq : key a = key b := by
    refine key_eq_of_not_cut hsorted fun hcut ↦ h ?_
    obtain ⟨t, ht⟩ := hcut
    exact ⟨t, by rw [← hperm.countP_eq, ht, hpre]⟩
  -- the next query gives the two rows in the opposite order
  have hperm' : (pre ++ b :: a :: post).Perm rows :=
    ((List.Perm.swap a b post).append_left pre).trans hperm
  let o' := choosing o rows _ hperm' (sorted_swap hsorted heq)
  have hbefore : a ∈ o.page rows l (k - 1) := o.mem_page_before hk hs hpre
  have hs' : o'.order rows = pre ++ [b] ++ a :: post := by
    rw [List.append_assoc]
    exact if_pos rfl
  have hafter : a ∈ o'.page rows l k := o'.mem_page_after hl hs' (by simpa using hpre)
  refine ⟨fun p ↦ if p = k then o' else o, fun hnodup ↦ ?_⟩
  have hne : k - 1 ≠ k := by omega
  refine disjoint_of_nodup hnodup (Nat.sub_lt hk Nat.one_pos) hkn (b := f a) ?_ ?_
  · simpa only [if_neg hne] using List.mem_map_of_mem hbefore
  · simpa only [if_true] using List.mem_map_of_mem hafter

/-- **Walking through all pages gives every row once**, however each query decides the order of rows
with equal keys, if and only if the rows are cut at every boundary. Here `f` is what is shown of a
row. -/
theorem walk_perm_iff {f : α → β} (hf : (rows.map f).Nodup) (hl : 0 < l) :
    (∀ o : ℕ → OrderBy key,
      ((List.range (rows.length ⌈/⌉ l)).flatMap fun p ↦ ((o p).page rows l p).map f).Perm
        (rows.map f)) ↔ CutsPages key rows l := by
  constructor
  · intro h k hk hlt
    by_contra hcut
    have hkn : k < rows.length ⌈/⌉ l := by
      by_contra hle
      have hle' := (ceilDiv_le_iff_le_mul hl).1 (Nat.le_of_not_lt hle)
      rw [Nat.mul_comm] at hle'
      omega
    obtain ⟨o, hnot⟩ := exists_not_nodup f hl hk hlt hkn hcut
    exact hnot ((h o).nodup_iff.2 hf)
  · intro h o
    have hall : rows.length ≤ rows.length ⌈/⌉ l * l := by
      have hle := (ceilDiv_le_iff_le_mul hl).1 (le_refl (rows.length ⌈/⌉ l))
      rwa [Nat.mul_comm] at hle
    have hwalk := flatMap_page_perm h o (rows.length ⌈/⌉ l) (o 0)
    rw [List.take_of_length_le (((o 0).perm rows).length_eq.trans_le hall)] at hwalk
    have hshown := (hwalk.trans ((o 0).perm rows)).map f
    rwa [List.map_flatMap] at hshown

end OrderBy
