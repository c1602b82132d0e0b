import Mathlib.Tactic

/-!
# Round-trip estimation in exact integers

The Jacobson–Karels estimator on natural numbers, with gains `1 / 8` and `1 / 4` and quotients
rounded down. `Estimate.run` is its state after any history of samples and timeouts, for a timeout
kept between `lo` and `hi`.

The smoothed time is a weighted mean of the samples, so it stays between any two bounds of them
(`Estimate.Within.run`), and so does the variation, from below by one.
-/

namespace JacobsonKarels

/-- The state of the estimator: smoothed time, variation, timeout, and whether there has been a
sample. -/
@[ext]
structure Estimate where
  srtt : ℕ
  rttvar : ℕ
  rto : ℕ
  sampled : Bool

/-- A sample, or a timeout. -/
inductive Event
  | sample (r : ℕ)
  | timeout

/-- Raise to `lo`, then cut to `hi`. -/
def clamp (lo hi x : ℕ) : ℕ := min (max x lo) hi

/-- The distance of two times. -/
def deviation (s r : ℕ) : ℕ := ((s : ℤ) - r).natAbs

namespace Estimate

/-- Take a sample. -/
def sample (lo hi : ℕ) (e : Estimate) (r : ℕ) : Estimate :=
  let srtt := if e.sampled then (7 * e.srtt + r) / 8 else r
  let rttvar := max 1 (if e.sampled then (3 * e.rttvar + deviation e.srtt r) / 4 else r / 2)
  { srtt, rttvar, rto := clamp lo hi (srtt + 4 * rttvar), sampled := true }

/-- Back off. -/
def timeout (hi : ℕ) (e : Estimate) : Estimate := { e with rto := min (2 * e.rto) hi }

/-- One event. -/
def step (lo hi : ℕ) (e : Estimate) : Event → Estimate
  | .sample r => e.sample lo hi r
  | .timeout => e.timeout hi

/-- A history of events. -/
def run (lo hi : ℕ) (e : Estimate) (es : List Event) : Estimate := es.foldl (step lo hi) e

/-- Once there has been a sample, the smoothed time lies between the bounds, and the variation
between one and the upper bound. -/
def Within (least greatest : ℕ) (e : Estimate) : Prop :=
  e.sampled = true → (least ≤ e.srtt ∧ e.srtt ≤ greatest) ∧ 1 ≤ e.rttvar ∧
    e.rttvar ≤ max 1 greatest

section Within

variable {lo hi least greatest r : ℕ} {e : Estimate}

theorem deviation_le {s : ℕ} (hs : s ≤ greatest) (hr : r ≤ greatest) :
    deviation s r ≤ greatest := by
  unfold deviation
  omega

/-- A sample between the bounds keeps the mean between them. -/
theorem Within.sample (he : e.Within least greatest) (hl : least ≤ r) (hg : r ≤ greatest) :
    (e.sample lo hi r).Within least greatest := by
  intro _
  unfold Estimate.sample
  dsimp only
  by_cases hs : e.sampled = true
  · obtain ⟨⟨h1, h2⟩, -, h4⟩ := he hs
    have hdev := deviation_le h2 hg
    rw [if_pos hs, if_pos hs]
    exact ⟨by omega, by omega, by omega⟩
  · rw [if_neg hs, if_neg hs]
    exact ⟨⟨hl, hg⟩, by omega, by omega⟩

theorem Within.timeout (he : e.Within least greatest) : (e.timeout hi).Within least greatest := he

/-- **Every history of samples between two bounds keeps the estimate between them.** -/
theorem Within.run (es : List Event) :
    ∀ {e : Estimate}, e.Within least greatest →
      (∀ r, Event.sample r ∈ es → least ≤ r ∧ r ≤ greatest) →
      (e.run lo hi es).Within least greatest := by
  induction es with
  | nil => exact fun he _ => he
  | cons ev es ih =>
    intro e he hes
    refine ih ?_ fun r hr => hes r (List.mem_cons_of_mem ev hr)
    cases ev with
    | sample r =>
      obtain ⟨hl, hg⟩ := hes r List.mem_cons_self
      exact he.sample hl hg
    | timeout => exact he.timeout

theorem run_sampled (es : List Event) :
    ∀ {e : Estimate}, e.sampled = true ∨ (∃ r, Event.sample r ∈ es) →
      (e.run lo hi es).sampled = true := by
  induction es with
  | nil =>
    rintro e (he | ⟨r, hr⟩)
    · exact he
    · exact absurd hr List.not_mem_nil
  | cons ev es ih =>
    intro e he
    apply ih
    cases ev with
    | sample r => exact Or.inl rfl
    | timeout =>
      rcases he with he | ⟨r, hr⟩
      · exact Or.inl he
      · rcases List.mem_cons.1 hr with heq | hr
        · cases heq
        · exact Or.inr ⟨r, hr⟩

end Within

end Estimate

end JacobsonKarels
