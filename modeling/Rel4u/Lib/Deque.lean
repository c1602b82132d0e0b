import Mathlib.Tactic

/-!
# Bounded double-ended lists

A list whose elements have weights and whose total weight is kept below a limit. A push that does
not fit is refused, or it first evicts elements from the front until it fits; where the store of
an element is allocated, it may also fail after the eviction. A ring of `c` cells is the case of
weight one and limit `c` (`push_one`).

`evict r l` is the longest suffix of `l` of total weight at most `r`: it is a suffix that fits
(`evict_suffix`, `total_evict_le`) and every suffix that fits is a suffix of it (`suffix_evict`).
-/

namespace Deque

variable {α : Type*} (weight : α → ℕ)

/-- The total weight of a list. -/
def total (l : List α) : ℕ := (l.map weight).sum

@[simp] theorem total_nil : total weight [] = 0 := rfl

@[simp] theorem total_cons (x : α) (l : List α) :
    total weight (x :: l) = weight x + total weight l := by simp [total]

@[simp] theorem total_append (l m : List α) :
    total weight (l ++ m) = total weight l + total weight m := by simp [total]

theorem total_one (l : List α) : total (fun _ => 1) l = l.length := by simp [total]

/-- Drop elements from the front until the total weight is at most `r`. -/
def evict (r : ℕ) : List α → List α
  | [] => []
  | x :: l => if total weight (x :: l) > r then evict r l else x :: l

variable {weight}

theorem evict_of_le {r : ℕ} {l : List α} (h : total weight l ≤ r) : evict weight r l = l := by
  cases l with
  | nil => rfl
  | cons x l => rw [evict, if_neg (not_lt.2 h)]

theorem evict_cons_of_lt {r : ℕ} {x : α} {l : List α} (h : r < total weight (x :: l)) :
    evict weight r (x :: l) = evict weight r l := by
  rw [evict, if_pos h]

theorem evict_suffix (r : ℕ) (l : List α) : evict weight r l <:+ l := by
  induction l with
  | nil => exact List.suffix_rfl
  | cons x l ih =>
    rw [evict]
    split_ifs
    · exact ih.trans (List.suffix_cons x l)
    · exact List.suffix_rfl

theorem total_evict_le (r : ℕ) (l : List α) : total weight (evict weight r l) ≤ r := by
  induction l with
  | nil => exact Nat.zero_le r
  | cons x l ih =>
    rw [evict]
    split_ifs with h
    · exact ih
    · exact not_lt.1 h

/-- Nothing is evicted exactly when everything fits. -/
theorem evict_eq_self_iff {r : ℕ} {l : List α} : evict weight r l = l ↔ total weight l ≤ r := by
  constructor
  · intro h
    rw [← h]
    exact total_evict_le r l
  · exact evict_of_le

/-- Eviction stops as soon as it can. -/
theorem suffix_evict {r : ℕ} {s l : List α} (hs : s <:+ l) (hfit : total weight s ≤ r) :
    s <:+ evict weight r l := by
  induction l with
  | nil => exact hs
  | cons x l ih =>
    rw [evict]
    split_ifs with h
    · rcases List.suffix_cons_iff.1 hs with rfl | hs
      · omega
      · exact ih hs
    · exact hs

variable (weight)

/-- There is room for a weight, or room can be made. -/
def Admits (limit : ℕ) (evicts : Bool) (needed : ℕ) (l : List α) : Prop :=
  needed ≤ limit ∧ (evicts = true ∨ total weight l + needed ≤ limit)

instance (limit : ℕ) (evicts : Bool) (needed : ℕ) (l : List α) :
    Decidable (Admits weight limit evicts needed l) := inferInstanceAs (Decidable (_ ∧ _))

/-- A push of weight `needed` under limit `limit`, which places the new element by `place`. The
result says whether it was placed. `alloc` is whether the store for it could be allocated. -/
def push (limit : ℕ) (evicts alloc : Bool) (place : List α → List α) (needed : ℕ) (l : List α) :
    Bool × List α :=
  if Admits weight limit evicts needed l then
    if alloc then (true, place (evict weight (limit - needed) l))
    else (false, evict weight (limit - needed) l)
  else (false, l)

variable {weight}

/-- An element that fits beside the others is placed. -/
theorem push_of_fits {limit needed : ℕ} {evicts : Bool} {place : List α → List α} {l : List α}
    (h : total weight l + needed ≤ limit) :
    push weight limit evicts true place needed l = (true, place l) := by
  rw [push, if_pos ⟨by omega, Or.inr h⟩, if_pos rfl, evict_of_le (by omega)]

/-- A push that refuses or finds room loses nothing. -/
theorem push_keeps {limit needed : ℕ} {evicts alloc : Bool} {place : List α → List α} {l : List α}
    (h : evicts = false ∨ total weight l + needed ≤ limit) :
    push weight limit evicts alloc place needed l = (true, place l) ∨
      push weight limit evicts alloc place needed l = (false, l) := by
  unfold push
  by_cases hadm : Admits weight limit evicts needed l
  · have hfit : total weight l + needed ≤ limit := by
      rcases h with h | h
      · rcases hadm.2 with hev | hfit
        · rw [h] at hev
          exact Bool.noConfusion hev
        · exact hfit
      · exact h
    rw [if_pos hadm, evict_of_le (by omega)]
    cases alloc with
    | true => exact Or.inl rfl
    | false => exact Or.inr rfl
  · rw [if_neg hadm]
    exact Or.inr rfl

/-- A push that is refused has lost nothing, unless it had made room first. -/
theorem push_refused_iff {limit needed : ℕ} {evicts alloc : Bool} {place : List α → List α}
    {l : List α} (h : (push weight limit evicts alloc place needed l).1 = false) :
    (push weight limit evicts alloc place needed l).2 = l ↔
      ¬ (Admits weight limit evicts needed l ∧ limit < total weight l + needed) := by
  unfold push at h ⊢
  by_cases hadm : Admits weight limit evicts needed l
  · rw [if_pos hadm] at h ⊢
    cases alloc with
    | true => exact Bool.noConfusion h
    | false =>
      have hle := hadm.1
      rw [if_neg Bool.false_ne_true, evict_eq_self_iff]
      constructor
      · rintro hfit ⟨-, hover⟩
        omega
      · intro hfit
        by_contra hover
        exact hfit ⟨hadm, by omega⟩
  · rw [if_neg hadm]
    exact iff_of_true rfl fun hover => hadm hover.1

/-- A push at the back keeps the end of the list. -/
theorem push_back_suffix {limit needed : ℕ} {evicts alloc : Bool} (x : α) (l : List α) :
    (push weight limit evicts alloc (· ++ [x]) needed l).2 <:+
      if (push weight limit evicts alloc (· ++ [x]) needed l).1 then l ++ [x] else l := by
  have he : evict weight (limit - needed) l <:+ l := evict_suffix _ l
  unfold push
  by_cases hadm : Admits weight limit evicts needed l
  · rw [if_pos hadm]
    cases alloc with
    | true => exact List.suffix_append_self_iff.2 he
    | false => exact he
  · rw [if_neg hadm]
    exact List.suffix_rfl

/-- A push adds one element at most, and none when it fails. -/
theorem length_push_le {limit needed : ℕ} {evicts alloc : Bool} {place : List α → List α}
    (hplace : ∀ m : List α, (place m).length = m.length + 1) (l : List α) :
    (push weight limit evicts alloc place needed l).2.length ≤
      l.length + (push weight limit evicts alloc place needed l).1.toNat := by
  have hle : (evict weight (limit - needed) l).length ≤ l.length := (evict_suffix _ l).length_le
  unfold push
  split_ifs
  · simp only [hplace, Bool.toNat_true]
    omega
  · simpa using hle
  · simp

/-- The ring: with room the element is placed, and a full ring refuses or drops its first cell. -/
theorem push_one {c : ℕ} (hc : 1 ≤ c) {l : List α} (hl : l.length ≤ c) (evicts : Bool)
    (place : List α → List α) :
    push (fun _ => 1) c evicts true place 1 l =
      if l.length < c then (true, place l)
      else if evicts then (true, place l.tail) else (false, l) := by
  by_cases hlt : l.length < c
  · rw [if_pos hlt]
    exact push_of_fits (by rw [total_one]; omega)
  · rw [if_neg hlt, push]
    cases evicts with
    | false => rw [if_neg (by rw [Admits, total_one]; simp; omega)]; rfl
    | true =>
      rw [if_pos ⟨hc, Or.inl rfl⟩, if_pos rfl, if_pos rfl]
      cases l with
      | nil => simp at hlt; omega
      | cons x l =>
        rw [List.length_cons] at hl hlt
        rw [evict_cons_of_lt (by rw [total_one, List.length_cons]; omega),
          evict_of_le (by rw [total_one]; omega), List.tail_cons]

/-! ### Several pushes at the front

`pushesFront` pushes the elements of a list at the front, last one first, so that they would end
up in their own order. `alloc` gives the outcomes of the allocations and the second component
counts those made. -/

variable (weight)

/-- Push the elements of a list at the front, the last one first. -/
def pushesFront (limit : ℕ) (evicts : Bool) (alloc : ℕ → Bool) (u : List α) (s : List α × ℕ) :
    List α × ℕ :=
  u.foldr (fun x s => ((push weight limit evicts (alloc s.2) (x :: ·) (weight x) s.1).2,
    s.2 + if Admits weight limit evicts (weight x) s.1 then 1 else 0)) s

/-- What the first of these pushes leaves of the list. -/
def keptFor (limit : ℕ) (evicts : Bool) (u l : List α) : List α :=
  match u.getLast? with
  | some x => if evicts then evict weight (limit - weight x) l else l
  | none => l

/-- All the elements fit beside what the first push leaves, and all can be allocated. -/
def FitsAll (limit : ℕ) (evicts : Bool) (alloc : ℕ → Bool) (u l : List α) (i : ℕ) : Prop :=
  u = [] ∨ (total weight u + total weight (keptFor weight limit evicts u l) ≤ limit ∧
    ∀ j < u.length, alloc (i + j) = true)

instance (limit : ℕ) (evicts : Bool) (alloc : ℕ → Bool) (u l : List α) (i : ℕ) :
    Decidable (FitsAll weight limit evicts alloc u l i) := inferInstanceAs (Decidable (_ ∨ _))

variable {weight} {limit : ℕ} {evicts : Bool} {alloc : ℕ → Bool} {u l : List α} {i : ℕ}

theorem pushesFront_cons (x : α) (s : List α × ℕ) :
    pushesFront weight limit evicts alloc (x :: u) s =
      ((push weight limit evicts (alloc (pushesFront weight limit evicts alloc u s).2) (x :: ·)
          (weight x) (pushesFront weight limit evicts alloc u s).1).2,
        (pushesFront weight limit evicts alloc u s).2 +
          if Admits weight limit evicts (weight x) (pushesFront weight limit evicts alloc u s).1
          then 1 else 0) := rfl

theorem push_sublist {b : Bool} {x : α} {needed : ℕ} :
    (push weight limit evicts b (x :: ·) needed l).2.Sublist (x :: l) := by
  have he : (evict weight (limit - needed) l).Sublist l := (evict_suffix _ l).sublist
  unfold push
  split_ifs
  · exact he.cons_cons x
  · exact he.cons x
  · exact List.sublist_cons_self x l

/-- Whatever is refused or evicted, nothing is reordered and nothing appears. -/
theorem pushesFront_sublist :
    (pushesFront weight limit evicts alloc u (l, i)).1.Sublist (u ++ l) := by
  induction u with
  | nil => exact List.Sublist.refl l
  | cons x u ih => exact push_sublist.trans (ih.cons_cons x)

theorem keptFor_suffix : keptFor weight limit evicts u l <:+ l := by
  unfold keptFor
  split
  · split_ifs
    · exact evict_suffix _ l
    · exact List.suffix_rfl
  · exact List.suffix_rfl

theorem keptFor_cons (x : α) (hu : u ≠ []) :
    keptFor weight limit evicts (x :: u) l = keptFor weight limit evicts u l := by
  obtain ⟨y, v, rfl⟩ := List.exists_cons_of_ne_nil hu
  rw [keptFor, keptFor, List.getLast?_cons_cons]

/-- A single push leaves the list it was told to. -/
theorem push_keptFor {x : α} (hfit : weight x + total weight (keptFor weight limit evicts [x] l) ≤
    limit) : push weight limit evicts true (x :: ·) (weight x) l =
      (true, x :: keptFor weight limit evicts [x] l) ∧ Admits weight limit evicts (weight x) l := by
  cases evicts with
  | true =>
    have hadm : Admits weight limit true (weight x) l := ⟨by omega, Or.inl rfl⟩
    exact ⟨by rw [push, if_pos hadm]; rfl, hadm⟩
  | false =>
    have hl : total weight l + weight x ≤ limit := by
      have : keptFor weight limit false [x] l = l := rfl
      rw [this] at hfit
      omega
    exact ⟨push_of_fits hl, ⟨by omega, Or.inr hl⟩⟩

/-- With room for all, all are placed. -/
theorem pushesFront_of_fits (hu : u ≠ [])
    (hfit : total weight u + total weight (keptFor weight limit evicts u l) ≤ limit)
    (halloc : ∀ j < u.length, alloc (i + j) = true) :
    pushesFront weight limit evicts alloc u (l, i) =
      (u ++ keptFor weight limit evicts u l, i + u.length) := by
  induction u with
  | nil => exact absurd rfl hu
  | cons x u ih =>
    by_cases hne : u = []
    · subst hne
      obtain ⟨h1, h2⟩ := push_keptFor (by simpa using hfit)
      have ha : alloc i = true := halloc 0 (by simp)
      have hnil : pushesFront weight limit evicts alloc [] (l, i) = (l, i) := rfl
      rw [pushesFront_cons, hnil, ha, h1, if_pos h2]
      rfl
    · rw [keptFor_cons x hne] at hfit ⊢
      rw [total_cons] at hfit
      have htail := ih hne (by omega) fun j hj => halloc j (by rw [List.length_cons]; omega)
      have ha : alloc (i + u.length) = true := halloc u.length (by simp)
      have hroom : total weight (u ++ keptFor weight limit evicts u l) + weight x ≤ limit := by
        rw [total_append]; omega
      have hadm : Admits weight limit evicts (weight x) (u ++ keptFor weight limit evicts u l) :=
        ⟨by omega, Or.inr hroom⟩
      rw [pushesFront_cons, htail, ha, push_of_fits hroom, if_pos hadm]
      rfl

/-- In a list without repetitions, a part that starts where the list starts is a prefix of it. -/
theorem eq_of_suffix_of_sublist {y : α} {t v m : List α} (hnd : (y :: m).Nodup)
    (hsub : (t ++ y :: v).Sublist (y :: m)) : t = [] := by
  have hy : y ∉ m := (List.nodup_cons.1 hnd).1
  cases t with
  | nil => rfl
  | cons z t =>
    have hmem : y ∈ t ++ y :: v := by simp
    rcases List.sublist_cons_iff.1 hsub with hs | ⟨r, hr, hs⟩
    · exact absurd (hs.subset (List.mem_cons_of_mem z hmem)) hy
    · rw [List.cons_append, List.cons.injEq] at hr
      exact absurd (hs.subset (hr.2 ▸ hmem)) hy

/-- A push of a new element that shows up at the front was placed there. -/
theorem push_placed {b : Bool} {x : α} {r : List α} (hx : x ∉ l)
    (h : (push weight limit evicts b (x :: ·) (weight x) l).2 = x :: r) :
    b = true ∧ Admits weight limit evicts (weight x) l ∧
      evict weight (limit - weight x) l = r := by
  have hnot : x ∉ evict weight (limit - weight x) l := fun hm => hx ((evict_suffix _ l).subset hm)
  unfold push at h
  split_ifs at h with hadm hb
  · exact ⟨hb, hadm, (List.cons.inj h).2⟩
  · exact absurd ((congrArg (x ∈ ·) h).mpr List.mem_cons_self) hnot
  · exact absurd ((congrArg (x ∈ ·) h).mpr List.mem_cons_self) hx

/-- **All the elements end up at the front, in order, exactly when they fit** beside what the first
push leaves and can be allocated. -/
theorem pushesFront_keeps_iff (hnd : (u ++ l).Nodup) :
    (∃ l', l' <:+ l ∧ (pushesFront weight limit evicts alloc u (l, i)).1 = u ++ l') ↔
      FitsAll weight limit evicts alloc u l i := by
  constructor
  · induction u with
    | nil => intro; exact Or.inl rfl
    | cons x u ih =>
      rintro ⟨l', hl', hrun⟩
      right
      have hx : x ∉ (pushesFront weight limit evicts alloc u (l, i)).1 := fun hm =>
        (List.nodup_cons.1 hnd).1 (pushesFront_sublist.subset hm)
      rw [pushesFront_cons, List.cons_append] at hrun
      obtain ⟨hb, hadm, hev⟩ := push_placed hx hrun
      have hle : total weight (evict weight (limit - weight x)
          (pushesFront weight limit evicts alloc u (l, i)).1) ≤ limit - weight x :=
        total_evict_le _ _
      have hneed := hadm.1
      by_cases hne : u = []
      · subst hne
        refine ⟨?_, fun j hj => ?_⟩
        · cases evicts with
          | true =>
            have : keptFor weight limit true [x] l = evict weight (limit - weight x) l := rfl
            rw [this]
            change total weight (evict weight (limit - weight x) l) ≤ _ at hle
            simp only [total_cons, total_nil]
            omega
          | false =>
            have hroom := hadm.2.resolve_left (by decide)
            have : keptFor weight limit false [x] l = l := rfl
            rw [this]
            change total weight l + weight x ≤ limit at hroom
            simp only [total_cons, total_nil]
            omega
        · have : j = 0 := by simpa using hj
          rw [this]
          exact hb
      · -- the push of `x` evicted nothing, or it would have evicted the head of `u` first
        have hkeep : (pushesFront weight limit evicts alloc u (l, i)).1 = u ++ l' := by
          obtain ⟨y, v, rfl⟩ := List.exists_cons_of_ne_nil hne
          have hsuf := hev ▸ evict_suffix (limit - weight x)
            (pushesFront weight limit evicts alloc (y :: v) (l, i)).1
          have hsub : (pushesFront weight limit evicts alloc (y :: v) (l, i)).1.Sublist _ :=
            pushesFront_sublist
          obtain ⟨t, ht⟩ := hsuf
          rw [← ht] at hsub
          have ht0 : t = [] := eq_of_suffix_of_sublist (List.nodup_cons.1 hnd).2 hsub
          rw [← ht, ht0]
          rfl
        obtain ⟨hfit, halloc⟩ := (ih (List.nodup_cons.1 hnd).2 ⟨l', hl', hkeep⟩).resolve_left hne
        have hrun' := pushesFront_of_fits hne hfit halloc
        rw [hev, ← hkeep, hrun', total_append] at hle
        refine ⟨?_, fun j hj => ?_⟩
        · rw [keptFor_cons x hne, total_cons]
          omega
        · rw [List.length_cons] at hj
          rcases Nat.lt_succ_iff_lt_or_eq.1 hj with hj | rfl
          · exact halloc j hj
          · rw [hrun'] at hb
            exact hb
  · intro h
    by_cases hne : u = []
    · subst hne
      exact ⟨l, List.suffix_rfl, rfl⟩
    · obtain ⟨hfit, halloc⟩ := h.resolve_left hne
      exact ⟨_, keptFor_suffix, by rw [pushesFront_of_fits hne hfit halloc]⟩

/-! ### Labels

The operations look at weights only, so they commute with any map that keeps the weights. -/

variable {β : Type*} (f : β → α)

theorem total_map (m : List β) : total weight (m.map f) = total (fun x => weight (f x)) m := by
  simp [total, Function.comp_def]

theorem evict_map (r : ℕ) (m : List β) :
    evict weight r (m.map f) = (evict (fun x => weight (f x)) r m).map f := by
  induction m with
  | nil => rfl
  | cons x m ih =>
    rw [List.map_cons, evict, evict, ← List.map_cons, total_map]
    split_ifs
    · exact ih
    · rfl

theorem admits_map {needed : ℕ} {m : List β} :
    Admits weight limit evicts needed (m.map f) ↔
      Admits (fun x => weight (f x)) limit evicts needed m := by
  rw [Admits, Admits, total_map]

theorem keptFor_map (v m : List β) :
    keptFor weight limit evicts (v.map f) (m.map f) =
      (keptFor (fun x => weight (f x)) limit evicts v m).map f := by
  rw [keptFor, keptFor, List.getLast?_map]
  cases v.getLast? with
  | none => rfl
  | some x =>
    simp only [Option.map_some, evict_map]
    split_ifs <;> rfl

theorem fitsAll_map {v m : List β} {i : ℕ} :
    FitsAll weight limit evicts alloc (v.map f) (m.map f) i ↔
      FitsAll (fun x => weight (f x)) limit evicts alloc v m i := by
  rw [FitsAll, FitsAll, keptFor_map, total_map, total_map, List.length_map, List.map_eq_nil_iff]

theorem pushesFront_map (v m : List β) (i : ℕ) :
    pushesFront weight limit evicts alloc (v.map f) (m.map f, i) =
      ((pushesFront (fun x => weight (f x)) limit evicts alloc v (m, i)).1.map f,
        (pushesFront (fun x => weight (f x)) limit evicts alloc v (m, i)).2) := by
  induction v with
  | nil => rfl
  | cons x v ih =>
    rw [List.map_cons, pushesFront_cons, pushesFront_cons, ih]
    refine Prod.ext ?_ ?_
    · simp only [push, admits_map, evict_map]
      split_ifs <;> rfl
    · simp only [admits_map]

/-! ### The end of a list -/

section KeepLast

variable {α β : Type*}

/-- The last `n` elements. -/
def keepLast (n : ℕ) (l : List α) : List α := l.drop (l.length - n)

theorem map_keepLast {f : α → β} {l : List α} {l' : List β} (h : l' <:+ l.map f) :
    (keepLast l'.length l).map f = l' := by
  rw [keepLast, List.map_drop]
  conv_rhs => rw [List.suffix_iff_eq_drop.1 h]
  rw [List.length_map]

theorem mem_of_mem_keepLast {n : ℕ} {l : List α} {x : α} (h : x ∈ keepLast n l) : x ∈ l :=
  List.mem_of_mem_drop h

theorem keepLast_length (l : List α) : keepLast l.length l = l := by
  rw [keepLast, Nat.sub_self, List.drop_zero]

end KeepLast

end Deque
