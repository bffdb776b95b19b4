import Mathlib.Data.List.Sort
import TgiRouter.Queue.Entry

/-!
# The admission tree

`next_batch` checks a candidate against the projected shape of the whole batch with a
`BTreeSet<(usize, usize, &u64)>` of (remaining output, input, entry id) tuples, and both
cost models walk it with `tree.iter().rev()`. A `Tree` is that walk: the set's tuples in
strictly descending lexicographic order. Strictness is a field, so a `Tree` holds every
tuple at most once, as a set does, and every finite set of tuples is exactly one `Tree`.

`Tree.insert` and `Tree.erase` are `BTreeSet::insert` and `BTreeSet::remove`.
-/

namespace TgiRouter

/-- One `(usize, usize, &u64)` tuple: remaining output length, input length, entry id. -/
structure Slot where
  outputLen : Nat
  inputLen : Nat
  entryId : Nat
  deriving DecidableEq, Repr

/-- The lexicographic order a `BTreeSet` of tuples is sorted by. -/
def Slot.lt (a b : Slot) : Prop :=
  a.outputLen < b.outputLen ∨ a.outputLen = b.outputLen ∧
    (a.inputLen < b.inputLen ∨ a.inputLen = b.inputLen ∧ a.entryId < b.entryId)

instance : DecidableRel Slot.lt := fun _ _ => inferInstanceAs (Decidable (_ ∨ _))

namespace Slot

theorem lt_irrefl (a : Slot) : ¬ a.lt a := by
  simp [Slot.lt]

theorem lt_trans {a b c : Slot} (hab : a.lt b) (hbc : b.lt c) : a.lt c := by
  simp only [Slot.lt] at *
  omega

theorem lt_asymm {a b : Slot} (hab : a.lt b) : ¬ b.lt a :=
  fun hba => lt_irrefl a (lt_trans hab hba)

/-- Two tuples are equal or one precedes the other. -/
theorem lt_trichotomy (a b : Slot) : a.lt b ∨ a = b ∨ b.lt a := by
  rcases a with ⟨o, i, d⟩
  rcases b with ⟨o', i', d'⟩
  simp only [Slot.lt, Slot.mk.injEq]
  omega

/-- Descending order fixes the remaining output length first. -/
theorem outputLen_le_of_lt {a b : Slot} (hab : a.lt b) : a.outputLen ≤ b.outputLen := by
  simp only [Slot.lt] at hab
  omega

end Slot

/-- `BTreeSet::insert` on the descending listing: the tuple goes before the first
smaller one, and nothing changes when it is already there. -/
def insertDesc (x : Slot) : List Slot → List Slot
  | [] => [x]
  | y :: ys => if y.lt x then x :: y :: ys else if x = y then y :: ys else y :: insertDesc x ys

theorem mem_insertDesc {x z : Slot} {l : List Slot} : z ∈ insertDesc x l ↔ z = x ∨ z ∈ l := by
  induction l with
  | nil => simp [insertDesc]
  | cons y ys ih =>
    unfold insertDesc
    split_ifs with hlt heq
    · simp
    · subst heq; simp
    · simp only [List.mem_cons, ih]; tauto

theorem pairwise_insertDesc {x : Slot} {l : List Slot}
    (sorted : l.Pairwise (fun a b => b.lt a)) : (insertDesc x l).Pairwise (fun a b => b.lt a) := by
  induction l with
  | nil => simp [insertDesc]
  | cons y ys ih =>
    rw [List.pairwise_cons] at sorted
    unfold insertDesc
    split_ifs with hlt heq
    · refine List.Pairwise.cons (fun z hz => ?_) (List.Pairwise.cons sorted.1 sorted.2)
      rcases List.mem_cons.mp hz with rfl | hz
      · exact hlt
      · exact Slot.lt_trans (sorted.1 z hz) hlt
    · exact List.Pairwise.cons sorted.1 sorted.2
    · have below : x.lt y := by
        rcases Slot.lt_trichotomy x y with h | h | h
        · exact h
        · exact absurd h heq
        · exact absurd h hlt
      refine List.Pairwise.cons (fun z hz => ?_) (ih sorted.2)
      rcases mem_insertDesc.mp hz with rfl | hz
      · exact below
      · exact sorted.1 z hz

/-- `BTreeSet<(usize, usize, &u64)>`, listed as `iter().rev()` walks it. -/
structure Tree where
  desc : List Slot
  sorted : desc.Pairwise (fun a b => b.lt a)

namespace Tree

/-- `BTreeSet::new`. -/
def empty : Tree := ⟨[], List.Pairwise.nil⟩

/-- `BTreeSet::insert`. -/
def insert (t : Tree) (x : Slot) : Tree := ⟨insertDesc x t.desc, pairwise_insertDesc t.sorted⟩

/-- `BTreeSet::remove`. -/
def erase (t : Tree) (x : Slot) : Tree := ⟨t.desc.erase x, t.sorted.sublist (List.erase_sublist _ _)⟩

@[simp] theorem mem_insert {t : Tree} {x z : Slot} : z ∈ (t.insert x).desc ↔ z = x ∨ z ∈ t.desc :=
  mem_insertDesc

/-- A tree lists each tuple once. -/
theorem nodup (t : Tree) : t.desc.Nodup :=
  t.sorted.imp fun h eq => by subst eq; exact Slot.lt_irrefl _ h

theorem mem_erase {t : Tree} {x z : Slot} : z ∈ (t.erase x).desc ↔ z ≠ x ∧ z ∈ t.desc :=
  t.nodup.mem_erase_iff

/-- Later tuples of the walk never have a longer remaining output. -/
theorem outputLen_antitone (t : Tree) :
    t.desc.Pairwise (fun a b => b.outputLen ≤ a.outputLen) :=
  t.sorted.imp Slot.outputLen_le_of_lt

end Tree

end TgiRouter
