import Mathlib.Tactic

/-!
# Records of a stream

A record of a stream is an element whose key exceeds the key of everything before it. `records` is
the list of them, by its definition a comparison with the whole past. `newest` remembers one key
only, that of the last element it kept, and compares with that. The comparison `gt` need not be
transitive or total: `newest` keeps the records as soon as some rank orders the keys that occur
(`newest_eq_records`).
-/

namespace Records

variable {α β : Type*} (key : α → β) (gt : β → β → Bool)

/-- The elements whose key exceeds every earlier key, those of `seen` included. -/
def records (seen : List β) : List α → List α
  | [] => []
  | x :: xs =>
    if seen.all fun b => gt (key x) b then x :: records (key x :: seen) xs
    else records (key x :: seen) xs

/-- The elements whose key exceeds the key that was kept last, `top` at the start. -/
def newest (top : Option β) : List α → List α
  | [] => []
  | x :: xs =>
    if top.all fun b => gt (key x) b then x :: newest (some (key x)) xs else newest top xs

/-- On the keys that satisfy `P` the comparison is that of a rank. -/
def RankedOn (P : β → Prop) (rank : β → ℕ) : Prop :=
  ∀ a b, P a → P b → (gt a b = true ↔ rank b < rank a)

variable {key gt} {P : β → Prop} {rank : β → ℕ}

/-- The key kept last has the highest rank of those seen. -/
def IsTop (rank : β → ℕ) (seen : List β) : Option β → Prop
  | none => seen = []
  | some t => t ∈ seen ∧ ∀ b ∈ seen, rank b ≤ rank t

/-- A comparison with the key kept last is one with all keys seen. -/
theorem IsTop.all_eq {seen : List β} {top : Option β} (ht : IsTop rank seen top)
    (hrank : RankedOn gt P rank) (hseen : ∀ b ∈ seen, P b) {a : β} (ha : P a) :
    top.all (fun b => gt a b) = seen.all fun b => gt a b := by
  cases top with
  | none =>
    rw [show seen = [] from ht]
    rfl
  | some t =>
    obtain ⟨hmem, hmax⟩ := ht
    rw [Option.all_some, Bool.eq_iff_iff, List.all_eq_true]
    constructor
    · intro hgt b hb
      have hlt : rank t < rank a := (hrank a t ha (hseen t hmem)).1 hgt
      exact (hrank a b ha (hseen b hb)).2 ((hmax b hb).trans_lt hlt)
    · intro hall
      exact hall t hmem

/-- The next key is the new top if it exceeds all keys seen, and otherwise the top stays. -/
theorem IsTop.cons {seen : List β} {top : Option β} (ht : IsTop rank seen top)
    (hrank : RankedOn gt P rank) (hseen : ∀ b ∈ seen, P b) {a : β} (ha : P a) :
    IsTop rank (a :: seen) (if top.all fun b => gt a b then some a else top) := by
  split
  next hgt =>
    rw [ht.all_eq hrank hseen ha, List.all_eq_true] at hgt
    refine ⟨List.mem_cons_self, List.forall_mem_cons.2 ⟨le_rfl, ?_⟩⟩
    intro b hb
    exact ((hrank a b ha (hseen b hb)).1 (hgt b hb)).le
  next hgt =>
    cases top with
    | none => exact absurd rfl hgt
    | some t =>
      obtain ⟨hmem, hmax⟩ := ht
      refine ⟨List.mem_cons_of_mem a hmem, List.forall_mem_cons.2 ⟨?_, hmax⟩⟩
      exact not_lt.1 fun hlt => hgt ((hrank a t ha (hseen t hmem)).2 hlt)

/-- **Remembering the key kept last is enough to find the records.** -/
theorem newest_eq_records (hrank : RankedOn gt P rank) {xs : List α} (hxs : ∀ x ∈ xs, P (key x))
    {seen : List β} (hseen : ∀ b ∈ seen, P b) {top : Option β} (ht : IsTop rank seen top) :
    newest key gt top xs = records key gt seen xs := by
  induction xs generalizing seen top with
  | nil => rfl
  | cons x xs ih =>
    obtain ⟨hx, hxs⟩ := List.forall_mem_cons.1 hxs
    have hseen' : ∀ b ∈ key x :: seen, P b := List.forall_mem_cons.2 ⟨hx, hseen⟩
    have htop := ht.cons hrank hseen hx
    rw [newest, records, ← ht.all_eq hrank hseen hx]
    split
    next hgt => rw [ih hxs hseen' (by rwa [if_pos hgt] at htop)]
    next hgt => rw [ih hxs hseen' (by rwa [if_neg hgt] at htop)]

/-- A record exceeds everything seen before the stream. -/
theorem gt_of_mem_records {xs : List α} {seen : List β} {x : α}
    (hx : x ∈ records key gt seen xs) : x ∈ xs ∧ ∀ b ∈ seen, gt (key x) b = true := by
  induction xs generalizing seen with
  | nil => exact absurd hx List.not_mem_nil
  | cons y xs ih =>
    have hrest : x ∈ records key gt (key y :: seen) xs →
        x ∈ y :: xs ∧ ∀ b ∈ seen, gt (key x) b = true := by
      intro h
      obtain ⟨hmem, hgt⟩ := ih h
      exact ⟨List.mem_cons_of_mem y hmem, fun b hb => hgt b (List.mem_cons_of_mem _ hb)⟩
    rw [records] at hx
    split at hx
    next hall =>
      rcases List.mem_cons.1 hx with rfl | h
      · exact ⟨List.mem_cons_self, List.all_eq_true.1 hall⟩
      · exact hrest h
    next => exact hrest hx

/-- **Each record exceeds all records before it.** -/
theorem pairwise_records (seen : List β) (xs : List α) :
    (records key gt seen xs).Pairwise fun x y => gt (key y) (key x) = true := by
  induction xs generalizing seen with
  | nil => exact List.Pairwise.nil
  | cons x xs ih =>
    rw [records]
    split
    · exact List.Pairwise.cons
        (fun y hy => (gt_of_mem_records hy).2 (key x) List.mem_cons_self) (ih _)
    · exact ih _

end Records
