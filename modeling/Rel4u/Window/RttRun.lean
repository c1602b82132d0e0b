import Rel4u.Lib.JacobsonKarels
import Rel4u.Lib.Serial
import Rel4u.Window.Rtt

/-!
# Runs of the round-trip estimator

The timeout stays between its two bounds under any samples, since every call ends with a comparison
against them (`Bounded.run`). The estimate itself is exact as long as no word wraps:
`estimate_exec` is one call, and `Within` (the smoothed time is at most the largest sample, and so
is the variation) is what rules a wrap out for samples below `2 ^ 29`, about six days. Beyond that
`7 * srtt_ms` need not be a 32-bit number.
-/

namespace Rel4u

open JacobsonKarels (Estimate deviation)

/-- A call of the estimator. -/
inductive RttOp
  | sample (ms : UInt32)
  | timeout
  deriving DecidableEq, Repr

/-- The call as an event of the exact estimator. -/
def RttOp.event : RttOp → JacobsonKarels.Event
  | .sample ms => .sample ms.toNat
  | .timeout => .timeout

/-- The samples of a sequence of calls. -/
def RttOp.samples : List RttOp → List UInt32
  | [] => []
  | .sample ms :: ops => ms :: samples ops
  | .timeout :: ops => samples ops

theorem RttOp.mem_samples {ms : UInt32} {ops : List RttOp} :
    ms ∈ samples ops ↔ RttOp.sample ms ∈ ops := by
  induction ops with
  | nil => simp [samples]
  | cons op ops ih => cases op <;> simp [samples, ih]

namespace Rtt

/-- Perform a call. -/
def exec (r : Rtt) : RttOp → Rtt
  | .sample ms => r.updateSample ms
  | .timeout => r.onTimeout

/-- Perform a sequence of calls. -/
def run (r : Rtt) (ops : List RttOp) : Rtt := ops.foldl exec r

/-- The words as numbers. -/
def estimate (r : Rtt) : Estimate :=
  ⟨r.srttMs.toNat, r.rttvarMs.toNat, r.rtoMs.toNat, r.hasSample⟩

/-- The exact outcome of a call. -/
def exactStep (r : Rtt) (op : RttOp) : Estimate :=
  r.estimate.step r.minRtoMs.toNat r.maxRtoMs.toNat op.event

/-- Every word that `rel4u_rtt_update_sample` computes is in its range: the two casts to `int32_t`,
the signed difference and its negation, and the unsigned products and sums. -/
structure SampleFits (r : Rtt) (ms : UInt32) : Prop where
  casts : r.hasSample = true → r.srttMs.toNat < 2 ^ 31 ∧ ms.toNat < 2 ^ 31
  difference : r.hasSample = true → -2 ^ 31 ≤ (r.srttMs.toNat : ℤ) - ms.toNat ∧
    (r.srttMs.toNat : ℤ) - ms.toNat < 2 ^ 31 ∧ -((r.srttMs.toNat : ℤ) - ms.toNat) < 2 ^ 31
  variation : r.hasSample = true → 3 * r.rttvarMs.toNat < 2 ^ 32 ∧
    3 * r.rttvarMs.toNat + deviation r.srttMs.toNat ms.toNat < 2 ^ 32
  smoothed : r.hasSample = true → 7 * r.srttMs.toNat < 2 ^ 32 ∧
    7 * r.srttMs.toNat + ms.toNat < 2 ^ 32
  timeout : 4 * (r.exactStep (.sample ms)).rttvar < 2 ^ 32 ∧
    (r.exactStep (.sample ms)).srtt + 4 * (r.exactStep (.sample ms)).rttvar < 2 ^ 32

/-- No word of the call wraps. -/
def NoWrap (r : Rtt) : RttOp → Prop
  | .sample ms => r.SampleFits ms
  | .timeout => 2 * r.rtoMs.toNat < 2 ^ 32

/-! ### The bounds of the timeout -/

/-- The bounds are `lo` and `hi`, and the timeout is between them. -/
structure Bounded (lo hi : UInt32) (r : Rtt) : Prop where
  min_eq : r.minRtoMs = lo
  max_eq : r.maxRtoMs = hi
  ge : lo ≤ r.rtoMs
  le : r.rtoMs ≤ hi

section Bounds

variable {r : Rtt} {lo hi : UInt32}

/-- The final comparisons change the timeout only, and are the clamp of the exact estimator. -/
theorem clamp_spec (r : Rtt) : ∃ rtoMs : UInt32, r.clamp = { r with rtoMs } ∧
    rtoMs.toNat = JacobsonKarels.clamp r.minRtoMs.toNat r.maxRtoMs.toNat r.rtoMs.toNat := by
  unfold clamp JacobsonKarels.clamp
  dsimp only
  split_ifs with h1 h2 h2
  all_goals
    refine ⟨_, rfl, ?_⟩
    simp only [gt_iff_lt, UInt32.lt_iff_toNat_lt] at h1 h2 ⊢
    omega

theorem bounded_clamp (hle : lo ≤ hi) (hmin : r.minRtoMs = lo) (hmax : r.maxRtoMs = hi) :
    Bounded lo hi r.clamp := by
  obtain ⟨rtoMs, h, hval⟩ := r.clamp_spec
  rw [JacobsonKarels.clamp, hmin, hmax] at hval
  rw [UInt32.le_iff_toNat_le] at hle
  rw [h]
  refine ⟨hmin, hmax, ?_, ?_⟩
  · show lo ≤ rtoMs
    rw [UInt32.le_iff_toNat_le]
    omega
  · show rtoMs ≤ hi
    rw [UInt32.le_iff_toNat_le]
    omega

theorem Bounded.updateSample (h : Bounded lo hi r) (hle : lo ≤ hi) (ms : UInt32) :
    Bounded lo hi (r.updateSample ms) := by
  unfold Rtt.updateSample
  dsimp only
  split_ifs
  all_goals exact bounded_clamp hle h.min_eq h.max_eq

/-- Doubling does not wrap below `2 ^ 31`, so it does not go below the minimum. -/
theorem Bounded.onTimeout (h : Bounded lo hi r) (hle : lo ≤ hi) (hhi : hi.toNat < 2 ^ 31) :
    Bounded lo hi r.onTimeout ∧ r.onTimeout.estimate = r.exactStep .timeout := by
  have hge := UInt32.le_iff_toNat_le.1 h.ge
  have hrto := UInt32.le_iff_toNat_le.1 h.le
  have htwice : (r.rtoMs * 2).toNat = 2 * r.rtoMs.toNat := by
    rw [UInt32.toNat_mul, show (2 : UInt32).toNat = 2 from rfl]
    omega
  have hstep : r.exactStep .timeout = { r.estimate with
      rto := min (2 * r.rtoMs.toNat) r.maxRtoMs.toNat } := rfl
  rw [hstep]
  unfold Rtt.onTimeout
  dsimp only
  split_ifs with hover
  · rw [gt_iff_lt, UInt32.lt_iff_toNat_lt, htwice] at hover
    refine ⟨⟨h.min_eq, h.max_eq, ?_, ?_⟩, ?_⟩
    · show lo ≤ r.maxRtoMs
      rw [h.max_eq]
      exact hle
    · show r.maxRtoMs ≤ hi
      rw [h.max_eq]
      exact UInt32.le_refl _
    · ext1 <;> simp only [estimate]
      omega
  · rw [gt_iff_lt, UInt32.lt_iff_toNat_lt, htwice] at hover
    refine ⟨⟨h.min_eq, h.max_eq, ?_, ?_⟩, ?_⟩
    · show lo ≤ r.rtoMs * 2
      rw [UInt32.le_iff_toNat_le, htwice]
      omega
    · show r.rtoMs * 2 ≤ hi
      rw [UInt32.le_iff_toNat_le, htwice, ← h.max_eq]
      omega
    · ext1 <;> simp only [estimate, htwice]
      omega

theorem Bounded.exec (h : Bounded lo hi r) (hle : lo ≤ hi) (hhi : hi.toNat < 2 ^ 31)
    (op : RttOp) : Bounded lo hi (r.exec op) := by
  cases op with
  | sample ms => exact h.updateSample hle ms
  | timeout => exact (h.onTimeout hle hhi).1

/-- **The timeout stays between its bounds**, whatever the samples are. -/
theorem Bounded.run (hle : lo ≤ hi) (hhi : hi.toNat < 2 ^ 31) (ops : List RttOp) :
    ∀ {r : Rtt}, Bounded lo hi r → Bounded lo hi (r.run ops) := by
  induction ops with
  | nil => exact id
  | cons op ops ih => exact fun h => ih (h.exec hle hhi op)

end Bounds

/-! ### Exactness -/

section Exact

variable {r : Rtt} {ms lo hi : UInt32}

/-- The absolute value that the source computes is the distance, for words in the signed range. -/
theorem toNat_absDiff {a b : UInt32} (ha : a.toNat < 2 ^ 31) (hb : b.toNat < 2 ^ 31) :
    (absDiff a b).toNat = deviation a.toNat b.toNat := by
  have hdiff : (a.toInt32 - b.toInt32).toInt = (a.toNat : ℤ) - b.toNat := by
    rw [Int32.toInt_sub, Serial.toInt_of_le ha, Serial.toInt_of_le hb]
    exact Int.bmod_eq_of_le (by omega) (by omega)
  have hneg : (-(a.toInt32 - b.toInt32)).toInt = (b.toNat : ℤ) - a.toNat := by
    rw [Int32.toInt_neg, hdiff, neg_sub]
    exact Int.bmod_eq_of_le (by omega) (by omega)
  have hnat : ∀ {x : Int32} {y : ℤ}, x.toInt = y → 0 ≤ y → x.toUInt32.toNat = y.toNat := by
    intro x y hx hy
    rw [Int32.toNat_toUInt32_of_le (Int32.le_iff_toInt_le.2 (by rw [hx]; exact hy)),
      Int32.toNatClampNeg, hx]
  unfold absDiff deviation
  dsimp only
  split_ifs with h
  · rw [Int32.lt_iff_toInt_lt, hdiff, Int32.toInt_zero] at h
    rw [hnat hneg (by omega)]
    omega
  · rw [Int32.lt_iff_toInt_lt, hdiff, Int32.toInt_zero] at h
    rw [hnat hdiff (by omega)]
    omega

/-- The floor of one millisecond. -/
theorem toNat_atLeastOne (x : UInt32) : (if x < 1 then 1 else x).toNat = max 1 x.toNat := by
  have hone : (1 : UInt32).toNat = 1 := rfl
  split_ifs with h <;> rw [UInt32.lt_iff_toNat_lt, hone] at h <;> omega

/-- The end of a sample: the timeout is computed from words that are exact, and does not wrap. -/
theorem estimate_clamp {srttMs rttvarMs : UInt32} (h4 : 4 * rttvarMs.toNat < 2 ^ 32)
    (h5 : srttMs.toNat + 4 * rttvarMs.toNat < 2 ^ 32) (h1 : 1 ≤ rttvarMs.toNat)
    (minRtoMs maxRtoMs : UInt32) :
    (clamp
      { srttMs, rttvarMs, minRtoMs, maxRtoMs, hasSample := true
        rtoMs := srttMs + if 4 * rttvarMs < 1 then 1 else 4 * rttvarMs }).estimate =
      { srtt := srttMs.toNat
        rttvar := rttvarMs.toNat
        rto := JacobsonKarels.clamp minRtoMs.toNat maxRtoMs.toNat
          (srttMs.toNat + 4 * rttvarMs.toNat)
        sampled := true } := by
  have hk : (4 * rttvarMs).toNat = 4 * rttvarMs.toNat := by
    rw [UInt32.toNat_mul, show (4 : UInt32).toNat = 4 from rfl]
    omega
  have hrto : (srttMs + if 4 * rttvarMs < 1 then 1 else 4 * rttvarMs).toNat =
      srttMs.toNat + 4 * rttvarMs.toNat := by
    rw [UInt32.toNat_add, toNat_atLeastOne, hk]
    omega
  obtain ⟨rtoMs, hclamp, hval⟩ := clamp_spec
    { srttMs, rttvarMs, minRtoMs, maxRtoMs, hasSample := true
      rtoMs := srttMs + if 4 * rttvarMs < 1 then 1 else 4 * rttvarMs }
  rw [hclamp]
  ext1
  · rfl
  · rfl
  · rw [hrto] at hval
    exact hval
  · rfl

/-- **A sample that wraps nowhere is the exact one.** -/
theorem SampleFits.estimate_updateSample (h : r.SampleFits ms) :
    (r.updateSample ms).estimate = r.exactStep (.sample ms) := by
  obtain ⟨h4, h5⟩ := h.timeout
  unfold Rtt.updateSample
  dsimp only
  by_cases hs : r.hasSample = true
  · obtain ⟨ha, hb⟩ := h.casts hs
    obtain ⟨hv1, hv2⟩ := h.variation hs
    obtain ⟨hs1, hs2⟩ := h.smoothed hs
    have hvar : ((3 * r.rttvarMs + absDiff r.srttMs ms) / 4).toNat =
        (3 * r.rttvarMs.toNat + deviation r.srttMs.toNat ms.toNat) / 4 := by
      rw [UInt32.toNat_div, UInt32.toNat_add, UInt32.toNat_mul, toNat_absDiff ha hb,
        show (3 : UInt32).toNat = 3 from rfl, show (4 : UInt32).toNat = 4 from rfl,
        Nat.mod_eq_of_lt hv1, Nat.mod_eq_of_lt hv2]
    have hsrtt : ((7 * r.srttMs + ms) / 8).toNat = (7 * r.srttMs.toNat + ms.toNat) / 8 := by
      rw [UInt32.toNat_div, UInt32.toNat_add, UInt32.toNat_mul,
        show (7 : UInt32).toNat = 7 from rfl, show (8 : UInt32).toNat = 8 from rfl,
        Nat.mod_eq_of_lt hs1, Nat.mod_eq_of_lt hs2]
    have hstep : r.exactStep (.sample ms) =
        { srtt := ((7 * r.srttMs + ms) / 8).toNat
          rttvar := (if (3 * r.rttvarMs + absDiff r.srttMs ms) / 4 < 1 then 1 else
            (3 * r.rttvarMs + absDiff r.srttMs ms) / 4).toNat
          rto := JacobsonKarels.clamp r.minRtoMs.toNat r.maxRtoMs.toNat
            (((7 * r.srttMs + ms) / 8).toNat +
              4 * (if (3 * r.rttvarMs + absDiff r.srttMs ms) / 4 < 1 then 1 else
                (3 * r.rttvarMs + absDiff r.srttMs ms) / 4).toNat)
          sampled := true } := by
      rw [toNat_atLeastOne, hvar, hsrtt]
      simp only [exactStep, RttOp.event, Estimate.step, Estimate.sample, estimate, hs, if_true]
    rw [hstep] at h4 h5 ⊢
    rw [hs]
    exact estimate_clamp h4 h5 (by rw [toNat_atLeastOne]; omega) _ _
  · have hstep : r.exactStep (.sample ms) =
        { srtt := ms.toNat
          rttvar := (if ms / 2 < 1 then 1 else ms / 2).toNat
          rto := JacobsonKarels.clamp r.minRtoMs.toNat r.maxRtoMs.toNat
            (ms.toNat + 4 * (if ms / 2 < 1 then 1 else ms / 2).toNat)
          sampled := true } := by
      rw [toNat_atLeastOne, UInt32.toNat_div, show (2 : UInt32).toNat = 2 from rfl]
      simp only [exactStep, RttOp.event, Estimate.step, Estimate.sample, estimate, hs,
        Bool.false_eq_true, if_false]
    rw [hstep] at h4 h5 ⊢
    rw [Bool.eq_false_of_not_eq_true hs]
    exact estimate_clamp h4 h5 (by rw [toNat_atLeastOne]; omega) _ _

/-- The largest sample for which nothing wraps, and what the estimate is below then. -/
def maxSample : ℕ := 2 ^ 29 - 1

/-- Below that bound no sample wraps. -/
theorem sampleFits_of_within (hr : r.estimate.Within 0 maxSample) (hms : ms.toNat ≤ maxSample) :
    r.SampleFits ms := by
  have hnext : (r.exactStep (.sample ms)).Within 0 maxSample := hr.sample (Nat.zero_le _) hms
  obtain ⟨⟨-, hsrtt'⟩, -, hvar'⟩ := hnext rfl
  have hbound : r.hasSample = true → r.srttMs.toNat ≤ maxSample ∧
      r.rttvarMs.toNat ≤ max 1 maxSample ∧ deviation r.srttMs.toNat ms.toNat ≤ maxSample := by
    intro hs
    obtain ⟨⟨-, hsrtt⟩, -, hvar⟩ := hr hs
    exact ⟨hsrtt, hvar, Estimate.deviation_le hsrtt hms⟩
  unfold maxSample at hms hsrtt' hvar' hbound
  exact
    { casts := fun hs => by have := hbound hs; omega
      difference := fun hs => by have := hbound hs; omega
      variation := fun hs => by have := hbound hs; omega
      smoothed := fun hs => by have := hbound hs; omega
      timeout := by omega }

/-- One call, in a state that small samples lead to. -/
theorem Bounded.exec_exact (h : Bounded lo hi r) (hle : lo ≤ hi) (hhi : hi.toNat < 2 ^ 31)
    (hr : r.estimate.Within 0 maxSample) {op : RttOp}
    (hop : ∀ ms, op = .sample ms → ms.toNat ≤ maxSample) :
    r.NoWrap op ∧ (r.exec op).estimate = r.exactStep op := by
  cases op with
  | sample ms =>
    have hfits := sampleFits_of_within hr (hop ms rfl)
    exact ⟨hfits, hfits.estimate_updateSample⟩
  | timeout =>
    have hrto := UInt32.le_iff_toNat_le.1 h.le
    exact ⟨by unfold NoWrap; omega, (h.onTimeout hle hhi).2⟩

/-- **Every run of small samples is exact**, and wraps in none of its calls. -/
theorem Bounded.run_exact (hle : lo ≤ hi) (hhi : hi.toNat < 2 ^ 31) (ops : List RttOp) :
    ∀ {r : Rtt}, Bounded lo hi r → r.estimate.Within 0 maxSample →
      (∀ ms, RttOp.sample ms ∈ ops → ms.toNat ≤ maxSample) →
      (r.run ops).estimate = r.estimate.run lo.toNat hi.toNat (ops.map RttOp.event) ∧
        ∀ pre op post, ops = pre ++ op :: post → (r.run pre).NoWrap op := by
  induction ops with
  | nil =>
    intro r _ _ _
    exact ⟨rfl, fun pre op post hsplit => absurd hsplit (by simp)⟩
  | cons op ops ih =>
    intro r h hr hops
    have hop : ∀ ms, op = .sample ms → ms.toNat ≤ maxSample :=
      fun ms hms => hops ms (hms ▸ List.mem_cons_self)
    obtain ⟨hwrap, hstep⟩ := h.exec_exact hle hhi hr hop
    have hnext : (r.exec op).estimate.Within 0 maxSample := by
      rw [hstep]
      cases op with
      | sample ms => exact hr.sample (Nat.zero_le _) (hops ms List.mem_cons_self)
      | timeout => exact hr.timeout
    obtain ⟨hrun, hwraps⟩ := ih (h.exec hle hhi op) hnext
      fun ms hms => hops ms (List.mem_cons_of_mem op hms)
    constructor
    · rw [hstep, exactStep, h.min_eq, h.max_eq] at hrun
      exact hrun
    · intro pre op' post hsplit
      cases pre with
      | nil =>
        obtain ⟨rfl, -⟩ := List.cons.inj hsplit
        exact hwrap
      | cons op₁ pre =>
        obtain ⟨rfl, hrest⟩ := List.cons.inj hsplit
        exact hwraps pre op' post hrest

end Exact

/-- A new estimator, with its effective bounds. -/
theorem bounded_init (initialRtoMs minRtoMs maxRtoMs : UInt32)
    (hle : (init initialRtoMs minRtoMs maxRtoMs).minRtoMs ≤
      (init initialRtoMs minRtoMs maxRtoMs).maxRtoMs) :
    Bounded (init initialRtoMs minRtoMs maxRtoMs).minRtoMs
      (init initialRtoMs minRtoMs maxRtoMs).maxRtoMs (init initialRtoMs minRtoMs maxRtoMs) ∧
      (init initialRtoMs minRtoMs maxRtoMs).hasSample = false := by
  unfold init at hle ⊢
  obtain ⟨rtoMs, h, -⟩ := clamp_spec
    { srttMs := 0
      rttvarMs := 0
      rtoMs := if initialRtoMs > 0 then initialRtoMs else rttDefaultRtoMs
      minRtoMs := if minRtoMs > 0 then minRtoMs else rttMinRtoMs
      maxRtoMs := if maxRtoMs > 0 then maxRtoMs else rttMaxRtoMs
      hasSample := false }
  refine ⟨bounded_clamp hle ?_ ?_, ?_⟩
  · rw [h]
  · rw [h]
  · rw [h]

/-- **The timeout is bounded over any run, and the estimate exact for samples below `2 ^ 29`.** For
every initialisation whose effective bounds are in order and below `2 ^ 31`, after any calls, the
timeout is between them. If all samples are below `2 ^ 29`, no call wraps, the state is that of the
exact estimator, the smoothed time is between any bounds of the samples seen, and the variation is
at least one once there has been a sample. -/
theorem rto_bounded_and_exact {initialRtoMs minRtoMs maxRtoMs : UInt32} {r : Rtt}
    (hinit : r = init initialRtoMs minRtoMs maxRtoMs) (hle : r.minRtoMs ≤ r.maxRtoMs)
    (hmax : r.maxRtoMs.toNat < 2 ^ 31) (ops : List RttOp) :
    (r.minRtoMs ≤ (r.run ops).rtoMs ∧ (r.run ops).rtoMs ≤ r.maxRtoMs) ∧
      ((∀ ms ∈ RttOp.samples ops, ms.toNat < 2 ^ 29) →
        (∀ pre op post, ops = pre ++ op :: post → (r.run pre).NoWrap op) ∧
        (r.run ops).estimate =
          r.estimate.run r.minRtoMs.toNat r.maxRtoMs.toNat (ops.map RttOp.event) ∧
        (RttOp.samples ops ≠ [] →
          (∀ least greatest : UInt32,
            (∀ ms ∈ RttOp.samples ops, least ≤ ms ∧ ms ≤ greatest) →
            least ≤ (r.run ops).srttMs ∧ (r.run ops).srttMs ≤ greatest) ∧
          1 ≤ (r.run ops).rttvarMs)) := by
  subst hinit
  obtain ⟨hb, hnone⟩ := bounded_init initialRtoMs minRtoMs maxRtoMs hle
  have hbounded := Bounded.run hle hmax ops hb
  refine ⟨⟨hbounded.ge, hbounded.le⟩, fun hsmall => ?_⟩
  have hstart : ∀ least greatest,
      (init initialRtoMs minRtoMs maxRtoMs).estimate.Within least greatest := by
    intro least greatest hs
    exact absurd (hnone.symm.trans hs) Bool.false_ne_true
  obtain ⟨hrun, hwraps⟩ := Bounded.run_exact hle hmax ops hb (hstart _ _)
    fun ms hms => Nat.le_sub_one_of_lt (hsmall ms (RttOp.mem_samples.2 hms))
  refine ⟨hwraps, hrun, fun hne => ?_⟩
  obtain ⟨ms₀, hms₀⟩ := List.exists_mem_of_ne_nil _ hne
  have hsampled : ((init initialRtoMs minRtoMs maxRtoMs).run ops).estimate.sampled = true := by
    rw [hrun]
    exact Estimate.run_sampled _
      (Or.inr ⟨ms₀.toNat, List.mem_map.2 ⟨_, RttOp.mem_samples.1 hms₀, rfl⟩⟩)
  -- the exact estimate is within any bounds of its samples
  have hwithin : ∀ least greatest : UInt32,
      (∀ ms ∈ RttOp.samples ops, least ≤ ms ∧ ms ≤ greatest) →
      ((init initialRtoMs minRtoMs maxRtoMs).run ops).estimate.Within least.toNat
        greatest.toNat := by
    intro least greatest hseen
    rw [hrun]
    refine Estimate.Within.run _ (hstart _ _) fun x hx => ?_
    obtain ⟨op, hop, hev⟩ := List.mem_map.1 hx
    cases op with
    | sample ms =>
      obtain ⟨h1, h2⟩ := hseen ms (RttOp.mem_samples.2 hop)
      cases hev
      exact ⟨UInt32.le_iff_toNat_le.1 h1, UInt32.le_iff_toNat_le.1 h2⟩
    | timeout => cases hev
  constructor
  · intro least greatest hseen
    obtain ⟨⟨h1, h2⟩, -⟩ := hwithin least greatest hseen hsampled
    exact ⟨UInt32.le_iff_toNat_le.2 h1, UInt32.le_iff_toNat_le.2 h2⟩
  · have hall : ∀ ms : UInt32, 0 ≤ ms ∧ ms ≤ 0xFFFFFFFF := by
      intro ms
      have hlt := ms.toNat_lt
      rw [UInt32.le_iff_toNat_le, UInt32.le_iff_toNat_le,
        show (0xFFFFFFFF : UInt32).toNat = 2 ^ 32 - 1 from rfl]
      exact ⟨Nat.zero_le _, by omega⟩
    obtain ⟨-, h3, -⟩ := hwithin 0 0xFFFFFFFF (fun ms _ => hall ms) hsampled
    exact UInt32.le_iff_toNat_le.2 h3

/-- Three samples and a timeout under the defaults. -/
theorem rto_bounded_and_exact_default :
    let r := Rtt.default.run [.sample 100, .timeout, .sample 60, .sample 300]
    (20 ≤ r.rtoMs ∧ r.rtoMs ≤ 2000) ∧ 60 ≤ r.srttMs ∧ r.srttMs ≤ 300 := by
  obtain ⟨hbounds, hexact⟩ := rto_bounded_and_exact (r := Rtt.default) rfl (by decide) (by decide)
    [.sample 100, .timeout, .sample 60, .sample 300]
  obtain ⟨-, -, hsamples⟩ := hexact (by simp [RttOp.samples])
  exact ⟨hbounds, (hsamples (by simp [RttOp.samples])).1 60 300 (by simp [RttOp.samples])⟩

end Rtt

end Rel4u
