import Mathlib.Algebra.BigOperators.Group.List
import Mathlib.Algebra.Order.BigOperators.Group.List
import Mathlib.Tactic.Ring
import TgiRouter.Queue.BatchType

/-!
# What `exceeds_weight` decides

The rationale of both cost models: a batch must fit not only now but at every later
decode step, when the requests with shorter remaining output have left. For a list of
(remaining output `r`, input `i`) tuples the projected weight at future step `t` is

* `flashWeight`: the sum of `i + t` over the tuples with `r ≥ t`;
* `paddedWeight`: the number of tuples with `r ≥ t`, times the square of their longest
  input plus `t`.

Each `exceeds_weight` loop compares a value against the limit at some positions of the
descending walk. `checkpoints` lists those (remaining output, value) pairs, and
`exceedsWeightFrom_eq_any` says the loop answers whether one of them with a short enough
output exceeds the limit. Then:

* every checkpoint is at most the projected weight at its own step
  (`FlashBatch.checkpoint_le`, `PaddedBatch.checkpoint_le`), so a `true` answer is
  always a real overflow (`exceedsWeight_sound` for both models);
* for `FlashBatch`, every step is covered by a checkpoint at least as large
  (`FlashBatch.exists_checkpoint`), and tiers longer than the candidate cannot overflow
  when the rest of the tree fits, so the loop decides the whole future
  (`FlashBatch.exceedsWeight_iff_exceeds`);
* `PaddedBatch` evaluates a tier at its first tuple, counting only the tuples walked so
  far, and misses an overflow that needs the whole tier
  (`PaddedBatch.exceedsWeight_misses_tie`); when every tier is one tuple, and none has
  remaining output `0`, which `last_ol = 0` hides, it decides the whole future
  (`PaddedBatch.exceedsWeight_iff_exceeds_of_distinct`).

`CostModel` names the two implementations with the weight each is meant to bound, so
that a statement about the queue can range over both.
-/

namespace TgiRouter

/-- The tuples still generating at future step `t`. -/
def live (slots : List Slot) (t : Nat) : List Slot := slots.filter (fun s => t ≤ s.outputLen)

/-- `FlashBatch` projected weight at future step `t`. -/
def flashWeight (slots : List Slot) (t : Nat) : Nat :=
  ((live slots t).map (fun s => s.inputLen + t)).sum

/-- The longest input of a list of tuples, `0` for none. -/
def maxInput (slots : List Slot) : Nat := (slots.map Slot.inputLen).foldr max 0

/-- `PaddedBatch` projected weight at future step `t`. -/
def paddedWeight (slots : List Slot) (t : Nat) : Nat :=
  (live slots t).length * (maxInput (live slots t) + t) ^ 2

/-! ## Tuples still generating -/

@[simp] theorem live_nil (t : Nat) : live [] t = [] := rfl

theorem live_append (l m : List Slot) (t : Nat) : live (l ++ m) t = live l t ++ live m t :=
  List.filter_append l m

theorem live_cons (s : Slot) (l : List Slot) (t : Nat) :
    live (s :: l) t = if t ≤ s.outputLen then s :: live l t else live l t := by
  by_cases h : t ≤ s.outputLen <;> simp [live, List.filter_cons, h]

theorem live_of_forall_le {l : List Slot} {t : Nat} (h : ∀ s ∈ l, t ≤ s.outputLen) :
    live l t = l :=
  List.filter_eq_self.mpr fun s hs => decide_eq_true (h s hs)

theorem live_of_forall_lt {l : List Slot} {t : Nat} (h : ∀ s ∈ l, s.outputLen < t) :
    live l t = [] :=
  List.filter_eq_nil_iff.mpr fun s hs => by simpa using h s hs

theorem live_perm {l m : List Slot} (p : l.Perm m) (t : Nat) : (live l t).Perm (live m t) :=
  p.filter _

theorem live_subperm {l m : List Slot} (sub : l.Subperm m) (t : Nat) : (live l t).Subperm (live m t) :=
  sub.filter _

theorem mem_live {l : List Slot} {t : Nat} {s : Slot} :
    s ∈ live l t ↔ s ∈ l ∧ t ≤ s.outputLen := by
  simp [live]

/-! ## Flash weight -/

theorem flashWeight_append (l m : List Slot) (t : Nat) :
    flashWeight (l ++ m) t = flashWeight l t + flashWeight m t := by
  simp [flashWeight, live_append]

theorem flashWeight_of_forall_le {l : List Slot} {t : Nat} (h : ∀ s ∈ l, t ≤ s.outputLen) :
    flashWeight l t = (l.map Slot.inputLen).sum + l.length * t := by
  rw [flashWeight, live_of_forall_le h]
  induction l with
  | nil => simp
  | cons s l ih =>
    simp only [List.map_cons, List.sum_cons, List.length_cons,
      ih fun s' hs' => h s' (List.mem_cons_of_mem _ hs')]
    ring

theorem flashWeight_of_forall_lt {l : List Slot} {t : Nat} (h : ∀ s ∈ l, s.outputLen < t) :
    flashWeight l t = 0 := by
  simp [flashWeight, live_of_forall_lt h]

/-- Taking a tuple out of a list takes exactly its own share out of the weight. -/
theorem flashWeight_erase {l : List Slot} {x : Slot} (mem : x ∈ l) (t : Nat) :
    flashWeight l t =
      flashWeight (l.erase x) t + if t ≤ x.outputLen then x.inputLen + t else 0 := by
  have perm : (live l t).Perm (live (x :: l.erase x) t) := live_perm (List.perm_cons_erase mem) t
  rw [flashWeight, (perm.map _).sum_eq, live_cons]
  split_ifs <;> simp [flashWeight, Nat.add_comm]

/-- A sub-multiset of the tuples never weighs more. -/
theorem flashWeight_le_of_subperm {l m : List Slot} (sub : l.Subperm m) (t : Nat) :
    flashWeight l t ≤ flashWeight m t := by
  obtain ⟨l', perm, sub'⟩ := live_subperm sub t
  rw [flashWeight, ← (perm.map _).sum_eq]
  exact (sub'.map _).sum_le_sum fun _ _ => Nat.zero_le _

/-- Some tuple still generates at any step where the weight is positive. -/
theorem exists_live_of_flashWeight_pos {l : List Slot} {t : Nat} (pos : 0 < flashWeight l t) :
    ∃ s ∈ l, t ≤ s.outputLen := by
  by_contra none
  push_neg at none
  simp [flashWeight_of_forall_lt none] at pos

/-! ## Padded weight -/

theorem le_maxInput {l : List Slot} {s : Slot} (mem : s ∈ l) : s.inputLen ≤ maxInput l := by
  induction l with
  | nil => simp at mem
  | cons y l ih =>
    simp only [maxInput, List.map_cons, List.foldr_cons] at ih ⊢
    rcases List.mem_cons.mp mem with rfl | mem
    · exact le_max_left _ _
    · exact (ih mem).trans (le_max_right _ _)

theorem maxInput_append (l m : List Slot) : maxInput (l ++ m) = max (maxInput l) (maxInput m) := by
  induction l with
  | nil => simp [maxInput]
  | cons y l ih =>
    simp only [maxInput, List.cons_append, List.map_cons, List.foldr_cons] at ih ⊢
    rw [ih, max_assoc]

theorem maxInput_le_of_subset {l m : List Slot} (sub : l ⊆ m) : maxInput l ≤ maxInput m := by
  induction l with
  | nil => exact Nat.zero_le _
  | cons y l ih =>
    rw [List.cons_subset] at sub
    exact max_le (le_maxInput sub.1) (ih sub.2)

/-- A longer list of live tuples never weighs less. -/
theorem paddedWeight_le_of_live {l : List Slot} {t n m : Nat}
    (count : n ≤ (live l t).length) (longest : m ≤ maxInput (live l t)) :
    n * (m + t) ^ 2 ≤ paddedWeight l t :=
  Nat.mul_le_mul count (Nat.pow_le_pow_left (Nat.add_le_add_right longest t) 2)

/-- A sub-multiset of the tuples never weighs more. -/
theorem paddedWeight_le_of_subperm {l m : List Slot} (sub : l.Subperm m) (t : Nat) :
    paddedWeight l t ≤ paddedWeight m t :=
  paddedWeight_le_of_live (live_subperm sub t).length_le
    (maxInput_le_of_subset (live_subperm sub t).subset)

/-! ## Walking a tree from its longest tuples

Both `exceeds_weight` loops walk the tree from the tuples that generate longest. Past a
prefix `P`, the tuple `s` passed joins the prefix, which still generates at least as long
as `s` and as every tuple left. -/

section Prefix

variable {P : List Slot} {s : Slot} {rest : List Slot}

theorem above_append_single (above : ∀ p ∈ P, ∀ r ∈ s :: rest, r.outputLen ≤ p.outputLen)
    (sortedS : ∀ r ∈ rest, r.outputLen ≤ s.outputLen) :
    ∀ p ∈ P ++ [s], ∀ r ∈ rest, r.outputLen ≤ p.outputLen := by
  simp only [List.mem_append, List.mem_singleton]
  rintro p (hp | rfl) r hr
  · exact above p hp r (List.mem_cons_of_mem _ hr)
  · exact sortedS r hr

theorem head_le_append_single (above : ∀ p ∈ P, ∀ r ∈ s :: rest, r.outputLen ≤ p.outputLen) :
    ∀ p ∈ P ++ [s], s.outputLen ≤ p.outputLen := by
  simp only [List.mem_append, List.mem_singleton]
  rintro p (hp | rfl)
  · exact above p hp s (List.mem_cons_self _ _)
  · exact le_rfl

end Prefix

/-! ## `FlashBatch::exceeds_weight` -/

namespace FlashBatch

/-- The (remaining output, `in_sum + (bs + 1) * ol`) pairs the loop computes, one per
position of the walk. -/
def checkpoints : Nat → Nat → List Slot → List (Nat × Nat)
  | _, _, [] => []
  | bs, inSum, s :: rest =>
    (s.outputLen, inSum + s.inputLen + (bs + 1) * s.outputLen) ::
      checkpoints (bs + 1) (inSum + s.inputLen) rest

/-- The loop answers `true` exactly when a checkpoint of a short enough tier exceeds
the limit. -/
theorem exceedsWeightFrom_eq_any (maxTotalWeight currentOutputLen : Nat) :
    ∀ bs inSum l, exceedsWeightFrom maxTotalWeight currentOutputLen bs inSum l =
      (checkpoints bs inSum l).any
        (fun q => decide (q.1 ≤ currentOutputLen ∧ maxTotalWeight < q.2))
  | _, _, [] => rfl
  | bs, inSum, s :: rest => by
    rw [exceedsWeightFrom, checkpoints, List.any_cons,
      exceedsWeightFrom_eq_any maxTotalWeight currentOutputLen (bs + 1) (inSum + s.inputLen) rest]
    split_ifs with h <;> simp [h]

section Walk

variable {R : List Slot} {P : List Slot} {bs inSum : Nat}

/-- Walking on from a prefix `P` whose tuples all generate at least as long as the rest:
each checkpoint is at most the projected weight at its own step. -/
theorem checkpoint_le (sorted : R.Pairwise (fun a b => b.outputLen ≤ a.outputLen))
    (above : ∀ p ∈ P, ∀ r ∈ R, r.outputLen ≤ p.outputLen)
    (hbs : bs = P.length) (hsum : inSum = (P.map Slot.inputLen).sum) :
    ∀ q ∈ checkpoints bs inSum R, q.2 ≤ flashWeight (P ++ R) q.1 := by
  induction R generalizing P bs inSum with
  | nil => simp [checkpoints]
  | cons s rest ih =>
    rw [List.pairwise_cons] at sorted
    have split : P ++ s :: rest = (P ++ [s]) ++ rest := by simp
    rintro q (_ | ⟨_, hq⟩)
    · have prefixWeight : flashWeight (P ++ [s]) s.outputLen =
          inSum + s.inputLen + (bs + 1) * s.outputLen := by
        rw [flashWeight_of_forall_le (head_le_append_single above)]
        simp [hbs, hsum]
      show _ ≤ flashWeight _ _
      rw [split, flashWeight_append, prefixWeight]
      exact Nat.le_add_right _ _
    · rw [split]
      exact ih (P := P ++ [s]) sorted.2 (above_append_single above sorted.1) (by simp [hbs]) (by simp [hsum]) q hq

/-- Every step at which some tuple still generates is covered by a checkpoint of a
tier at least as long, whose value is at least the weight at that step. -/
theorem exists_checkpoint (sorted : R.Pairwise (fun a b => b.outputLen ≤ a.outputLen))
    (above : ∀ p ∈ P, ∀ r ∈ R, r.outputLen ≤ p.outputLen)
    (hbs : bs = P.length) (hsum : inSum = (P.map Slot.inputLen).sum)
    {t : Nat} (hit : ∃ r ∈ R, t ≤ r.outputLen) :
    ∃ q ∈ checkpoints bs inSum R, t ≤ q.1 ∧ flashWeight (P ++ R) t ≤ q.2 := by
  induction R generalizing P bs inSum with
  | nil => simp at hit
  | cons s rest ih =>
    rw [List.pairwise_cons] at sorted
    have split : P ++ s :: rest = (P ++ [s]) ++ rest := by simp
    by_cases later : ∃ r ∈ rest, t ≤ r.outputLen
    · obtain ⟨q, hq, cover⟩ := @ih (P ++ [s]) (bs + 1) (inSum + s.inputLen) sorted.2
        (above_append_single above sorted.1) (by simp [hbs]) (by simp [hsum]) later
      exact ⟨q, List.mem_cons_of_mem _ hq, split ▸ cover⟩
    · push_neg at later
      have hs : t ≤ s.outputLen := by
        obtain ⟨r, hr, hle⟩ := hit
        rcases List.mem_cons.mp hr with rfl | hr
        · exact hle
        · exact absurd hle (Nat.not_le.mpr (later r hr))
      have prefixLive : ∀ p ∈ P ++ [s], t ≤ p.outputLen :=
        fun p hp => hs.trans (head_le_append_single above p hp)
      refine ⟨_, List.mem_cons_self _ _, hs, ?_⟩
      rw [split, flashWeight_append, flashWeight_of_forall_le prefixLive,
        flashWeight_of_forall_lt later]
      have : (P.length + 1) * t ≤ (bs + 1) * s.outputLen := hbs ▸ Nat.mul_le_mul_left _ hs
      simp only [List.map_append, List.sum_append, List.length_append, List.map_cons,
        List.map_nil, List.sum_cons, List.sum_nil, List.length_singleton]
      omega

end Walk

/-- A `true` answer is a real overflow at some future step. -/
theorem exceedsWeight_sound {T : Tree} {L c : Nat} (exceeds : exceedsWeight T L c = true) :
    ∃ t, L < flashWeight T.desc t := by
  rw [exceedsWeight, exceedsWeightFrom_eq_any, List.any_eq_true] at exceeds
  obtain ⟨q, hq, hit⟩ := exceeds
  have bound := checkpoint_le (P := []) T.outputLen_antitone (by simp) rfl rfl q hq
  exact ⟨q.1, lt_of_lt_of_le (of_decide_eq_true hit).2 bound⟩

/-- `FlashBatch::exceeds_weight` at the candidate's output length decides whether the
tree overflows at any future step, once the tree without the candidate fits. -/
theorem exceedsWeight_iff_exceeds (T : Tree) (x : Slot) (mem : x ∈ T.desc) (L : Nat)
    (restFits : ∀ t, flashWeight (T.desc.erase x) t ≤ L) :
    exceedsWeight T L x.outputLen = true ↔ ∃ t, L < flashWeight T.desc t := by
  refine ⟨exceedsWeight_sound, fun ⟨t, over⟩ => ?_⟩
  obtain ⟨q, hq, covers, atLeast⟩ := exists_checkpoint (P := []) T.outputLen_antitone (by simp)
    rfl rfl (exists_live_of_flashWeight_pos (Nat.lt_of_le_of_lt (Nat.zero_le L) over))
  have bound := checkpoint_le (P := []) T.outputLen_antitone (by simp) rfl rfl q hq
  have short : q.1 ≤ x.outputLen := by
    by_contra longer
    have weight := flashWeight_erase mem q.1
    rw [if_neg longer, Nat.add_zero] at weight
    have := restFits q.1
    simp only [List.nil_append] at bound atLeast
    omega
  rw [exceedsWeight, exceedsWeightFrom_eq_any, List.any_eq_true]
  exact ⟨q, hq, decide_eq_true ⟨short, lt_of_lt_of_le over (by simpa using atLeast)⟩⟩

/-- A tuple `(2, 3)` beside the candidate `(1, 1)`. -/
def pairTree : Tree := ⟨[⟨2, 3, 0⟩, ⟨1, 1, 1⟩], by decide⟩

/-- Under the limit `5` the tuple `(2, 3)` alone fits, and the loop finds the overflow
`(3 + 1) + (1 + 1) = 6` at step `1`. -/
theorem exceedsWeight_iff_exceeds_pairTree :
    (⟨1, 1, 1⟩ : Slot) ∈ pairTree.desc ∧ (∀ t, flashWeight (pairTree.desc.erase ⟨1, 1, 1⟩) t ≤ 5) ∧
      (exceedsWeight pairTree 5 1 = true ↔ ∃ t, 5 < flashWeight pairTree.desc t) := by
  have restFits : ∀ t, flashWeight (pairTree.desc.erase ⟨1, 1, 1⟩) t ≤ 5 := by
    intro t
    rcases t with _ | _ | _ | t <;> simp [flashWeight, live, pairTree]
  exact ⟨by decide, restFits, exceedsWeight_iff_exceeds pairTree ⟨1, 1, 1⟩ (by decide) 5 restFits⟩

end FlashBatch

/-! ## `PaddedBatch::exceeds_weight` -/

namespace PaddedBatch

/-- The (remaining output, `(max_in + ol)^2 * (bs + 1)`) pairs the loop computes: one at
the first tuple of every tier of equal remaining output, except a first tier with
remaining output `0`, which `last_ol = 0` hides. -/
def checkpoints : Nat → Nat → Nat → List Slot → List (Nat × Nat)
  | _, _, _, [] => []
  | bs, maxIn, lastOl, s :: rest =>
    if s.outputLen ≠ lastOl then
      (s.outputLen, (max maxIn s.inputLen + s.outputLen) ^ 2 * (bs + 1)) ::
        checkpoints (bs + 1) (max maxIn s.inputLen) s.outputLen rest
    else checkpoints (bs + 1) maxIn lastOl rest

theorem exceedsWeightFrom_eq_any (maxTotalWeight currentOutputLen : Nat) :
    ∀ bs maxIn lastOl l, exceedsWeightFrom maxTotalWeight currentOutputLen bs maxIn lastOl l =
      (checkpoints bs maxIn lastOl l).any
        (fun q => decide (q.1 ≤ currentOutputLen ∧ maxTotalWeight < q.2))
  | _, _, _, [] => rfl
  | bs, maxIn, lastOl, s :: rest => by
    rw [exceedsWeightFrom, checkpoints]
    split_ifs with tier h
    · simp [h]
    · rw [List.any_cons, exceedsWeightFrom_eq_any]
      simp [h]
    · exact exceedsWeightFrom_eq_any _ _ _ _ _ _

/-- Walking on from a prefix `P` whose tuples all generate at least as long as the rest,
with `max_in` at most their longest input: each checkpoint is at most the projected
weight at its own step. -/
theorem checkpoint_le {R P : List Slot} {bs maxIn lastOl : Nat}
    (sorted : R.Pairwise (fun a b => b.outputLen ≤ a.outputLen))
    (above : ∀ p ∈ P, ∀ r ∈ R, r.outputLen ≤ p.outputLen)
    (hbs : bs = P.length) (hmax : maxIn ≤ maxInput P) :
    ∀ q ∈ checkpoints bs maxIn lastOl R, q.2 ≤ paddedWeight (P ++ R) q.1 := by
  induction R generalizing P bs maxIn lastOl with
  | nil => simp [checkpoints]
  | cons s rest ih =>
    rw [List.pairwise_cons] at sorted
    have split : P ++ s :: rest = (P ++ [s]) ++ rest := by simp
    have aboveS := above_append_single above sorted.1
    have maxS : maxInput (P ++ [s]) = max (maxInput P) s.inputLen := by
      rw [maxInput_append]; simp [maxInput]
    rw [checkpoints]
    split_ifs with tier
    · rintro q (_ | ⟨_, hq⟩)
      · have prefixLive : live (P ++ [s]) s.outputLen = P ++ [s] :=
          live_of_forall_le (head_le_append_single above)
        show _ ≤ paddedWeight _ _
        rw [Nat.mul_comm]
        refine paddedWeight_le_of_live ?_ ?_
        · rw [split, live_append, prefixLive]
          simp [hbs]
        · rw [split, live_append, prefixLive, maxInput_append, maxS]
          exact le_max_of_le_left (max_le_max hmax le_rfl)
      · rw [split]
        exact ih sorted.2 aboveS (by simp [hbs]) (by rw [maxS]; exact max_le_max hmax le_rfl) q hq
    · intro q hq
      rw [split]
      exact ih sorted.2 aboveS (by simp [hbs]) (by rw [maxS]; exact le_max_of_le_left hmax) q hq

/-- A `true` answer is a real overflow at some future step. -/
theorem exceedsWeight_sound {T : Tree} {L c : Nat} (exceeds : exceedsWeight T L c = true) :
    ∃ t, L < paddedWeight T.desc t := by
  rw [exceedsWeight, exceedsWeightFrom_eq_any, List.any_eq_true] at exceeds
  obtain ⟨q, hq, hit⟩ := exceeds
  have bound := checkpoint_le (P := []) T.outputLen_antitone (by simp) rfl (Nat.zero_le _) q hq
  exact ⟨q.1, lt_of_lt_of_le (of_decide_eq_true hit).2 bound⟩

theorem paddedWeight_perm {l m : List Slot} (perm : l.Perm m) (t : Nat) : paddedWeight l t = paddedWeight m t :=
  le_antisymm (paddedWeight_le_of_subperm perm.subperm t) (paddedWeight_le_of_subperm perm.symm.subperm t)

/-- Taking out a tuple that no longer generates leaves the weight as it is. -/
theorem paddedWeight_erase_of_lt {l : List Slot} {x : Slot} (mem : x ∈ l) {t : Nat} (done : x.outputLen < t) :
    paddedWeight (l.erase x) t = paddedWeight l t := by
  rw [paddedWeight_perm (List.perm_cons_erase mem) t, paddedWeight, paddedWeight, live_cons,
    if_neg (Nat.not_le.mpr done)]

/-- With remaining outputs strictly descending and none equal to `last_ol`, every tuple
opens a tier, and every step at which some tuple still generates is covered by a
checkpoint of a tier at least as long, whose value is at least the weight at that step. -/
theorem exists_checkpoint {R P : List Slot} {bs maxIn lastOl : Nat}
    (sorted : R.Pairwise (fun a b => b.outputLen < a.outputLen))
    (above : ∀ p ∈ P, ∀ r ∈ R, r.outputLen ≤ p.outputLen)
    (hbs : bs = P.length) (hmax : maxIn = maxInput P) (fresh : ∀ r ∈ R, r.outputLen ≠ lastOl)
    {t : Nat} (hit : ∃ r ∈ R, t ≤ r.outputLen) :
    ∃ q ∈ checkpoints bs maxIn lastOl R, t ≤ q.1 ∧ paddedWeight (P ++ R) t ≤ q.2 := by
  induction R generalizing P bs maxIn lastOl with
  | nil => simp at hit
  | cons s rest ih =>
    rw [List.pairwise_cons] at sorted
    have split : P ++ s :: rest = (P ++ [s]) ++ rest := List.append_cons P s rest
    have maxS : maxInput (P ++ [s]) = max maxIn s.inputLen := by
      rw [maxInput_append, hmax]
      exact congrArg (max (maxInput P)) (Nat.max_zero s.inputLen)
    rw [checkpoints, if_pos (fresh s (List.mem_cons_self _ _))]
    by_cases later : ∃ r ∈ rest, t ≤ r.outputLen
    · obtain ⟨q, hq, cover⟩ := @ih (P ++ [s]) (bs + 1) (max maxIn s.inputLen) s.outputLen sorted.2
        (above_append_single above fun r hr => (sorted.1 r hr).le) (by rw [List.length_append, hbs]; rfl) maxS.symm
        (fun r hr => (sorted.1 r hr).ne) later
      exact ⟨q, List.mem_cons_of_mem _ hq, split ▸ cover⟩
    · push_neg at later
      have hs : t ≤ s.outputLen := by
        obtain ⟨r, hr, hle⟩ := hit
        rcases List.mem_cons.mp hr with rfl | hr
        · exact hle
        · exact absurd hle (Nat.not_le.mpr (later r hr))
      have prefixLive : live (P ++ s :: rest) t = P ++ [s] := by
        rw [split, live_append, live_of_forall_le fun p hp => hs.trans (head_le_append_single above p hp),
          live_of_forall_lt later, List.append_nil]
      refine ⟨_, List.mem_cons_self _ _, hs, ?_⟩
      rw [paddedWeight, prefixLive, maxS, List.length_append, List.length_singleton, ← hbs, Nat.mul_comm]
      exact Nat.mul_le_mul_right _ (Nat.pow_le_pow_left (Nat.add_le_add_left hs _) 2)

/-- When no two tuples share a remaining output and every tuple generates at least one
more token, `PaddedBatch::exceeds_weight` at the candidate's output length decides whether
the tree overflows at any future step, once the tree without the candidate fits. -/
theorem exceedsWeight_iff_exceeds_of_distinct (T : Tree) (x : Slot) (mem : x ∈ T.desc) (L : Nat)
    (distinct : (T.desc.map Slot.outputLen).Nodup) (positive : ∀ s ∈ T.desc, 0 < s.outputLen)
    (restFits : ∀ t, paddedWeight (T.desc.erase x) t ≤ L) :
    exceedsWeight T L x.outputLen = true ↔ ∃ t, L < paddedWeight T.desc t := by
  refine ⟨exceedsWeight_sound, fun ⟨t, over⟩ => ?_⟩
  have sorted : T.desc.Pairwise (fun a b => b.outputLen < a.outputLen) :=
    (T.sorted.and (List.pairwise_map.mp distinct)).imp fun ⟨lt, ne⟩ => by
      simp only [Slot.lt] at lt; omega
  have hit : ∃ r ∈ T.desc, t ≤ r.outputLen := by
    by_contra none
    push_neg at none
    rw [paddedWeight, live_of_forall_lt none, List.length_nil, Nat.zero_mul] at over
    exact Nat.not_lt_zero L over
  obtain ⟨q, hq, -, atLeast⟩ := exists_checkpoint (P := []) sorted (by simp) rfl rfl
    (fun r hr => (positive r hr).ne') hit
  have bound := checkpoint_le (P := []) T.outputLen_antitone (by simp) rfl (Nat.zero_le _) q hq
  simp only [List.nil_append] at atLeast bound
  -- a checkpoint of a tier longer than the candidate weighs what the rest weighs
  have short : q.1 ≤ x.outputLen := by
    by_contra longer
    have := restFits q.1
    rw [paddedWeight_erase_of_lt mem (Nat.lt_of_not_le longer)] at this
    omega
  rw [exceedsWeight, exceedsWeightFrom_eq_any, List.any_eq_true]
  exact ⟨q, hq, decide_eq_true ⟨short, over.trans_le atLeast⟩⟩

/-- The tuples of `FlashBatch.pairTree` under the limit `25`: `(2, 3)` alone weighs at
most `(3 + 2)^2 = 25`, and with `(1, 1)` the tree weighs `2 * (3 + 1)^2 = 32` at step `1`. -/
theorem exceedsWeight_iff_exceeds_of_distinct_pairTree :
    (⟨1, 1, 1⟩ : Slot) ∈ FlashBatch.pairTree.desc ∧ (FlashBatch.pairTree.desc.map Slot.outputLen).Nodup ∧
      (∀ s ∈ FlashBatch.pairTree.desc, 0 < s.outputLen) ∧
      (∀ t, paddedWeight (FlashBatch.pairTree.desc.erase ⟨1, 1, 1⟩) t ≤ 25) ∧
      (exceedsWeight FlashBatch.pairTree 25 1 = true ↔ ∃ t, 25 < paddedWeight FlashBatch.pairTree.desc t) := by
  have early : ∀ t < 4, paddedWeight (FlashBatch.pairTree.desc.erase ⟨1, 1, 1⟩) t ≤ 25 := by decide
  have restFits : ∀ t, paddedWeight (FlashBatch.pairTree.desc.erase ⟨1, 1, 1⟩) t ≤ 25 := fun t => by
    rcases Nat.lt_or_ge t 4 with small | big
    · exact early t small
    · have done : ∀ s ∈ FlashBatch.pairTree.desc.erase ⟨1, 1, 1⟩, s.outputLen < t := by
        have short : ∀ s ∈ FlashBatch.pairTree.desc.erase ⟨1, 1, 1⟩, s.outputLen ≤ 3 := by decide
        exact fun s hs => (short s hs).trans_lt big
      rw [paddedWeight, live_of_forall_lt done, List.length_nil, Nat.zero_mul]
      exact Nat.zero_le _
  exact ⟨by decide, by decide, by decide, restFits,
    exceedsWeight_iff_exceeds_of_distinct FlashBatch.pairTree ⟨1, 1, 1⟩ (by decide) 25 (by decide) (by decide) restFits⟩

/-- Two tuples with the same remaining output `1` and input `0`. -/
def tieTree : Tree := ⟨[⟨1, 0, 1⟩, ⟨1, 0, 0⟩], by decide⟩

/-- With the candidate `(1, 0, 0)` beside `(1, 0, 1)` and limit `1`, the rest of the
tree fits, both tuples generate at step `1` where the weight is `2 * 1^2 = 2`, and the
loop, which evaluates the tier at its first tuple with `bs + 1 = 1`, answers `false`. -/
theorem exceedsWeight_misses_tie :
    (⟨1, 0, 0⟩ : Slot) ∈ tieTree.desc ∧
      (∀ t, paddedWeight (tieTree.desc.erase ⟨1, 0, 0⟩) t ≤ 1) ∧
      exceedsWeight tieTree 1 1 = false ∧ 1 < paddedWeight tieTree.desc 1 := by
  refine ⟨by decide, fun t => ?_, by decide, by decide⟩
  rcases t with _ | _ | t <;> simp [paddedWeight, live, maxInput, tieTree]

end PaddedBatch

/-! ## The two cost models -/

/-- The `BatchType` a router runs with. -/
inductive CostModel where
  | flash
  | padded
  deriving DecidableEq, Repr

namespace CostModel

/-- `FlashBatch` or `PaddedBatch`. -/
def batchType : CostModel → BatchType
  | flash => flashBatch
  | padded => paddedBatch

/-- The projected weight the model is meant to bound. -/
def weight : CostModel → List Slot → Nat → Nat
  | flash => flashWeight
  | padded => paddedWeight

/-- For both models, a `true` answer of `exceeds_weight` is a real overflow. -/
theorem exceedsWeight_sound (M : CostModel) {T : Tree} {L c : Nat}
    (exceeds : M.batchType.exceedsWeight T L c = true) : ∃ t, L < M.weight T.desc t := by
  cases M with
  | flash => exact FlashBatch.exceedsWeight_sound exceeds
  | padded => exact PaddedBatch.exceedsWeight_sound exceeds

theorem weight_le_of_subperm (M : CostModel) {l m : List Slot} (sub : l.Subperm m) (t : Nat) :
    M.weight l t ≤ M.weight m t := by
  cases M with
  | flash => exact flashWeight_le_of_subperm sub t
  | padded => exact paddedWeight_le_of_subperm sub t

end CostModel

end TgiRouter
