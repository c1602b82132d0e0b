import Rel4u.Queue.Refine

/-!
# Refused pushes

Callers take `false` from a push to mean that nothing has happened. In the fixed mode this is so:
the push refuses before it changes anything. In the dynamic mode it makes room first and allocates
the node after that, so a push that evicts and then finds no memory has removed older messages and
stored nothing. `refused_push_intact_iff` says that this is the only such case, and
`refused_after_eviction` is a run that gets there.
-/

namespace Rel4u

namespace MpmcQueue

/-- The same items in the same order, and the same counters of items and bytes. -/
structure Intact (q q' : MpmcQueue) : Prop where
  contents : q'.contents = q.contents
  count : q'.count = q.count
  bytes : q'.currentBytes = q.currentBytes

/-- An item that the dynamic queue takes, but only in place of others. -/
def Displaces (q : MpmcQueue) (x : MpmcItem) : Prop :=
  q.mode = .dynamic ∧ q.fullPolicy = .dropLast ∧ x.len.toNat ≤ maxPayloadSize ∧
    itemBytes x ≤ q.maxBytes ∧ q.maxBytes < q.currentBytes + itemBytes x

instance (q : MpmcQueue) (x : MpmcItem) : Decidable (q.Displaces x) :=
  inferInstanceAs (Decidable (_ ∧ _))

section Refused

variable {q q' : MpmcQueue} {l l' : List MpmcItem} {x : MpmcItem}

theorem Intact.refl (q : MpmcQueue) : Intact q q := ⟨rfl, rfl, rfl⟩

/-- The byte total of the ring is that of its array, which no operation changes. -/
theorem pushBackLocked_bytes (hmode : q.mode = .fixed) :
    (q.pushBackLocked x).2.currentBytes = q.currentBytes := by
  unfold MpmcQueue.pushBackLocked makeRoomFixed
  rw [hmode]
  split_ifs
  · rfl
  · cases q.fullPolicy <;> rfl
  · rfl

theorem pushFrontLocked_bytes (hmode : q.mode = .fixed) :
    (q.pushFrontLocked x).2.currentBytes = q.currentBytes := by
  unfold MpmcQueue.pushFrontLocked makeRoomFixed
  rw [hmode]
  split_ifs
  · rfl
  · cases q.fullPolicy <;> rfl
  · rfl

/-- The list says it all: the count is its length, and so is the byte total of the nodes. -/
theorem Rep.intact_iff (hq : q.Rep l) (hq' : q'.Rep l') (hconfig : SameConfig q q')
    (hbytes : q.mode = .fixed → q'.currentBytes = q.currentBytes) : Intact q q' ↔ l' = l := by
  constructor
  · intro h
    rw [← hq'.contents_eq, h.contents, hq.contents_eq]
  · rintro rfl
    refine ⟨by rw [hq'.contents_eq, hq.contents_eq], by rw [hq'.count_eq, hq.count_eq], ?_⟩
    rcases hq with hq | ⟨as, hq⟩
    · exact hbytes hq.mode
    · rcases hq' with hq' | ⟨as', hq'⟩
      · exact absurd (hq'.mode.symm.trans (hconfig.mode.trans hq.mode)) (by decide)
      · rw [hq'.bytes, hq.bytes]

/-- Room has been made for a refused item exactly when the item would have displaced others: the
ring refuses nothing that it has made room for. -/
theorem Rep.displaces_iff (hq : q.Rep l) (hx : x.len.toNat ≤ maxPayloadSize)
    {place : List MpmcItem → List MpmcItem} (hrefused : (q.pushSpec x place l).1 = false) :
    (Deque.Admits q.weight q.limit q.evicts (q.weight x) l ∧
      q.limit < Deque.total q.weight l + q.weight x) ↔ q.Displaces x := by
  rcases hq with hq | ⟨as, hq⟩
  · refine iff_of_false ?_ fun h => absurd (hq.mode.symm.trans h.1) (by decide)
    rintro ⟨hadm, -⟩
    have halloc : q.allocOk = true := by rw [allocOk, hq.mode]
    rw [pushSpec, Deque.push, if_pos hadm, if_pos halloc] at hrefused
    exact Bool.noConfusion hrefused
  · have hweight : q.weight = itemBytes := by rw [weight, hq.mode]
    have hlimit : q.limit = q.maxBytes := by rw [limit, hq.mode]
    rw [hweight, hlimit, ← hq.bytes, Displaces, Deque.Admits, evicts, decide_eq_true_eq, ← hq.bytes]
    constructor
    · rintro ⟨⟨hneed, hroom⟩, hover⟩
      exact ⟨hq.mode, hroom.resolve_right (by omega), hx, hneed, hover⟩
    · rintro ⟨-, hpolicy, -, hneed, hover⟩
      exact ⟨⟨hneed, Or.inl hpolicy⟩, hover⟩

/-- A refused push, once it is known to be the push on the list. -/
theorem Rep.intact_of_refused (hq : q.Rep l) (hx : x.len.toNat ≤ maxPayloadSize)
    {place : List MpmcItem → List MpmcItem} {r : Bool × MpmcQueue}
    (h₁ : r.1 = (q.pushSpec x place l).1) (h₂ : r.2.Rep (q.pushSpec x place l).2)
    (hconfig : SameConfig q r.2) (hbytes : q.mode = .fixed → r.2.currentBytes = q.currentBytes)
    (hrefused : r.1 = false) : Intact q r.2 ↔ ¬ q.Displaces x := by
  rw [h₁] at hrefused
  rw [hq.intact_iff h₂ hconfig hbytes, ← hq.displaces_iff hx hrefused]
  exact Deque.push_refused_iff hrefused

end Refused

/-- **A refused push leaves the queue intact, unless it has evicted.** For every queue of either
mode and policy, every item and every outcome of `malloc`: when one of the three pushes returns
`false`, the contents, the count and the byte total are as before exactly when the item would not
have displaced others. -/
theorem refused_push_intact_iff {q : MpmcQueue} {l : List MpmcItem} (hq : q.Rep l) (x : MpmcItem)
    {push : MpmcQueue → MpmcItem → Bool × MpmcQueue}
    (hpush : push ∈ [tryPush, pushNotify, MpmcQueue.pushFront])
    (hrefused : (push q x).1 = false) : Intact q (push q x).2 ↔ ¬ q.Displaces x := by
  have hback : (q.pushBackLocked x).1 = false →
      (Intact q (q.pushBackLocked x).2 ↔ ¬ q.Displaces x) := by
    intro hrefused
    by_cases hx : x.len.toNat ≤ maxPayloadSize
    · obtain ⟨h1, h2, h3, -⟩ := hq.pushBack hx
      exact hq.intact_of_refused hx h1 h2 h3 pushBackLocked_bytes hrefused
    · rw [pushBack_of_long hx]
      exact iff_of_true (Intact.refl q) fun h => hx h.2.2.1
  simp only [List.mem_cons, List.not_mem_nil, or_false] at hpush
  rcases hpush with rfl | rfl | rfl
  · exact hback hrefused
  · exact hback hrefused
  · by_cases hx : x.len.toNat ≤ maxPayloadSize
    · obtain ⟨h1, h2, h3, -⟩ := hq.pushFront hx
      exact hq.intact_of_refused hx h1 h2 h3 pushFrontLocked_bytes hrefused
    · rw [pushFront_of_long hx]
      exact iff_of_true (Intact.refl q) fun h => hx h.2.2.1

/-- A message of one byte. -/
def oneByte (b : UInt8) : MpmcItem := { clientId := 0, mode := 3, len := 1, data := [b] }

/-- A queue that has taken two messages of one byte. -/
def withTwo (q : MpmcQueue) : MpmcQueue := ((q.tryPush (oneByte 1)).2.tryPush (oneByte 2)).2

theorem Rep.withTwo {q : MpmcQueue} {l : List MpmcItem} (hq : q.Rep l) :
    ∃ l', q.withTwo.Rep l' := by
  obtain ⟨l₁, h₁⟩ := (hq.pushBack_counts (oneByte 1)).1
  exact (h₁.pushBack_counts (oneByte 2)).1

/-- A full ring under `dropNew` refuses a third message and stays as it is. -/
theorem refused_push_intact_of_full :
    ∃ q, (init .fixed .dropNew 2 0 true (fun _ => true)).map withTwo = some q ∧
      (q.tryPush (oneByte 3)).1 = false ∧ Intact q (q.tryPush (oneByte 3)).2 := by
  have hval : ((init .fixed .dropNew 2 0 true (fun _ => true)).map withTwo).map (fun q =>
      decide ((q.tryPush (oneByte 3)).1 = false ∧ ¬ q.Displaces (oneByte 3))) = some true := by
    decide +kernel
  obtain ⟨q, hq, hval⟩ := Option.map_eq_some_iff.1 hval
  obtain ⟨hrefused, hkeeps⟩ := of_decide_eq_true hval
  obtain ⟨q₀, hinit, rfl⟩ := Option.map_eq_some_iff.1 hq
  obtain ⟨l, hl⟩ := (init_rep hinit).1.withTwo
  exact ⟨_, hq, hrefused, (refused_push_intact_iff hl (oneByte 3)
    (List.mem_cons_self (a := tryPush)) hrefused).2 hkeeps⟩

/-- **A refused push has removed a message.** The queue has room for two, and the third allocation
fails: every push of a third message evicts the first, returns `false` and stores nothing. -/
theorem refused_after_eviction :
    ∃ q l, (init .dynamic .dropLast 0 66 true (fun k => decide (k < 2))).map withTwo = some q ∧
      q.Rep l ∧ q.contents = [oneByte 1, oneByte 2] ∧
      ∀ push ∈ [tryPush, pushNotify, MpmcQueue.pushFront], (push q (oneByte 3)).1 = false ∧
        (push q (oneByte 3)).2.contents = [oneByte 2] ∧ ¬ Intact q (push q (oneByte 3)).2 := by
  have hval : ((init .dynamic .dropLast 0 66 true (fun k => decide (k < 2))).map withTwo).map
      (fun q => decide (q.contents = [oneByte 1, oneByte 2] ∧
        ((q.pushBackLocked (oneByte 3)).1 = false ∧
          (q.pushBackLocked (oneByte 3)).2.contents = [oneByte 2]) ∧
        (q.pushFront (oneByte 3)).1 = false ∧
          (q.pushFront (oneByte 3)).2.contents = [oneByte 2])) = some true := by
    decide +kernel
  obtain ⟨q, hq, hval⟩ := Option.map_eq_some_iff.1 hval
  obtain ⟨hcontents, hback, hfront⟩ := of_decide_eq_true hval
  obtain ⟨q₀, hinit, rfl⟩ := Option.map_eq_some_iff.1 hq
  obtain ⟨l, hl⟩ := (init_rep hinit).1.withTwo
  refine ⟨_, l, hq, hl, hcontents, fun push hpush => ?_⟩
  have hboth : (push q₀.withTwo (oneByte 3)).1 = false ∧
      (push q₀.withTwo (oneByte 3)).2.contents = [oneByte 2] := by
    simp only [List.mem_cons, List.not_mem_nil, or_false] at hpush
    rcases hpush with rfl | rfl | rfl
    · exact hback
    · exact hback
    · exact hfront
  refine ⟨hboth.1, hboth.2, fun hintact => ?_⟩
  have hsame := hintact.contents
  rw [hboth.2, hcontents] at hsame
  exact absurd hsame (by decide)

end MpmcQueue

end Rel4u
