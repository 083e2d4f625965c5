import PsxLinux.Timer.WheelTheorems

/-!
# Interval timers

`setitimer(ITIMER_REAL)` of `kernel/itimer.c` on top of the timer service: when `SIGALRM` is sent is
the `deadline` of the timer. The conversion to ticks wraps, and `Timeval.Fits` says for which times
this does not matter.
-/

namespace PsxLinux.Timer

/-- `struct timeval`, as the unsigned words that the conversion reads. -/
structure Timeval where
  tvSec : UInt32
  tvUsec : UInt32

structure Itimerval where
  itInterval : Timeval
  itValue : Timeval

/-- What a process has of its real timer: `real_timer.expires` only while the timer is pending. -/
structure RealTimer where
  itRealIncr : UInt32
  expires : Option UInt32

def longMax : UInt32 := 0x7fffffff

def tvtojiffies (value : Timeval) : UInt32 :=
  if value.tvSec > 0xffffffff / 100 then 0xffffffff
  else 100 * value.tvSec + (value.tvUsec + (1000000 / 100 - 1)) / (1000000 / 100)

def jiffiestotv (jiffies : UInt32) : Timeval where
  tvSec := jiffies / 100
  tvUsec := jiffies % 100 * (1000000 / 100)

/-- `if (j > (unsigned long) LONG_MAX) j = LONG_MAX;` -/
def clamp (j : UInt32) : UInt32 := if j > longMax then longMax else j

def doSetitimer (jiffies : UInt32) (value : Itimerval) : RealTimer :=
  let i := tvtojiffies value.itInterval
  let j := tvtojiffies value.itValue
  { itRealIncr := i
    expires := if j = 0 then none else some (clamp j + jiffies) }

def doGetitimer (jiffies : UInt32) (p : RealTimer) : Itimerval where
  itInterval := jiffiestotv p.itRealIncr
  itValue := jiffiestotv <| match p.expires with
    | none => 0
    | some expires => if (expires - jiffies).toInt32 ≤ 0 then 1 else expires - jiffies

/-- `it_real_fn`, which the timer service calls when the timer is not pending any more. -/
def itRealFn (jiffies : UInt32) (p : RealTimer) : RealTimer :=
  let interval := p.itRealIncr
  { p with
    expires := if interval = 0 then none else some (jiffies + clamp interval) }

/-! ## When the signals come -/

/-- The time in ticks, rounded up. -/
def Timeval.ticks (tv : Timeval) : ℕ := (tv.tvSec.toNat * 1000000 + tv.tvUsec.toNat + 9999) / 10000

/-- The ticks that have to pass at least. -/
def Timeval.wait (tv : Timeval) : ℕ := min tv.ticks (2 ^ 31 - 1)

/-- The first signal of a timer set at `jiffies` does not come early. -/
def FirstInTime (jiffies : ℕ) (value : Itimerval) (p : RealTimer) : Prop :=
  (0 < value.itValue.ticks → p.expires.isSome) ∧
    (∀ expires ∈ p.expires, jiffies + value.itValue.wait ≤ deadline (jiffies + 1) expires) ∧
    value.itValue.wait ≤ (doGetitimer (UInt32.ofNat jiffies) p).itValue.ticks

/-- No signal of a timer set at `jiffies` comes early. The signals after the first are those of a
timer that was armed and is queued again in the iteration `served` of the timer service, `late`
ticks after its time. -/
def NeverEarly (jiffies served late : ℕ) (value : Itimerval) (p : RealTimer) : Prop :=
  FirstInTime jiffies value p ∧ (p.expires.isSome →
    ∀ expires ∈ (itRealFn (UInt32.ofNat (served + late)) p).expires,
      served + late + value.itInterval.wait ≤ deadline served expires)

/-- Neither the rounding nor the sum wraps, or what is left is long enough. -/
def Timeval.Fits (tv : Timeval) : Prop :=
  42949672 < tv.tvSec.toNat ∨
    if tv.tvUsec.toNat + 9999 < 2 ^ 32 then
      100 * tv.tvSec.toNat + (tv.tvUsec.toNat + 9999) / 10000 < 2 ^ 32
    else 21474836 < tv.tvSec.toNat

/-- The sum is 0, or wraps to it. -/
def Timeval.Vanishes (tv : Timeval) : Prop :=
  tv.tvSec.toNat ≤ 42949672 ∧
    (100 * tv.tvSec.toNat + (tv.tvUsec.toNat + 9999) % 2 ^ 32 / 10000) % 2 ^ 32 = 0

section
variable (tv : Timeval)

lemma toNat_tvtojiffies : (tvtojiffies tv).toNat = if 42949672 < tv.tvSec.toNat then 2 ^ 32 - 1
    else (100 * tv.tvSec.toNat + (tv.tvUsec.toNat + 9999) % 2 ^ 32 / 10000) % 2 ^ 32 := by
  unfold tvtojiffies
  have hguard : tv.tvSec > 0xffffffff / 100 ↔ 42949672 < tv.tvSec.toNat := UInt32.lt_iff_toNat_lt
  by_cases h : 42949672 < tv.tvSec.toNat
  · rw [if_pos (hguard.2 h), if_pos h]
    rfl
  · rw [if_neg (mt hguard.1 h), if_neg h, UInt32.toNat_add, UInt32.toNat_mul, UInt32.toNat_div,
      UInt32.toNat_add]
    show (100 * tv.tvSec.toNat % 2 ^ 32 + (tv.tvUsec.toNat + 9999) % 2 ^ 32 / 10000) % 2 ^ 32 = _
    omega

/-- The ticks until the timer expires: never more than the time asked for, and as many exactly if
the time fits. -/
lemma min_tvtojiffies : min (tvtojiffies tv).toNat (2 ^ 31 - 1) ≤ tv.wait ∧
    (min (tvtojiffies tv).toNat (2 ^ 31 - 1) = tv.wait ↔ tv.Fits) := by
  have husec := tv.tvUsec.toNat_lt
  have hticks : tv.ticks = 100 * tv.tvSec.toNat + (tv.tvUsec.toNat + 9999) / 10000 := by
    unfold Timeval.ticks
    omega
  rw [toNat_tvtojiffies]
  unfold Timeval.wait Timeval.Fits
  rw [hticks]
  by_cases hguard : 42949672 < tv.tvSec.toNat
  · rw [if_pos hguard]
    omega
  rw [if_neg hguard]
  by_cases hround : tv.tvUsec.toNat + 9999 < 2 ^ 32
  · rw [if_pos hround, Nat.mod_eq_of_lt hround]
    omega
  · have hzero : (tv.tvUsec.toNat + 9999) % 2 ^ 32 / 10000 = 0 := by omega
    rw [if_neg hround, hzero, Nat.mod_eq_of_lt (by omega)]
    omega

lemma tvtojiffies_eq_zero : tvtojiffies tv = 0 ↔ tv.Vanishes := by
  rw [← UInt32.toNat_inj, toNat_tvtojiffies]
  unfold Timeval.Vanishes
  split_ifs <;> simp <;> omega

lemma ticks_jiffiestotv (jiffies : UInt32) : (jiffiestotv jiffies).ticks = jiffies.toNat := by
  show (jiffies.toNat / 100 * 1000000 + jiffies.toNat % 100 * 10000 % 2 ^ 32 + 9999) / 10000 = _
  omega

end

/-! ## No signal comes early -/

lemma deadline_lt (now : ℕ) (expires : UInt32) : deadline now expires < now + 2 ^ 31 := by
  unfold deadline
  split_ifs with h
  · exact Nat.add_lt_add_left ((toInt32_nonneg_iff _).1 h) _
  · omega

/-- A timer queued at `jiffies`, when the timer service has come to `served`. -/
lemma le_deadline_iff {jiffies served j n : ℕ} (hserved : served ≤ jiffies + 1) (hj : 0 < j)
    (hle : j ≤ n) : jiffies + n ≤ deadline served (UInt32.ofNat (jiffies + j)) ↔
      j = n ∧ jiffies + n < served + 2 ^ 31 := by
  have hlt := deadline_lt served (UInt32.ofNat (jiffies + j))
  constructor
  · intro h
    have hwindow := lt_of_le_of_lt h hlt
    rw [deadline_ofNat (by omega) (by omega)] at h
    omega
  · rintro ⟨rfl, hwindow⟩
    rw [deadline_ofNat (by omega) hwindow]

lemma toNat_clamp (j : UInt32) : (clamp j).toNat = min j.toNat (2 ^ 31 - 1) := by
  unfold clamp
  have hguard : j > longMax ↔ 2 ^ 31 - 1 < j.toNat := UInt32.lt_iff_toNat_lt
  by_cases h : 2 ^ 31 - 1 < j.toNat
  · rw [if_pos (hguard.2 h), Nat.min_eq_right h.le]
    rfl
  · rw [if_neg (mt hguard.1 h), Nat.min_eq_left (not_lt.1 h)]

lemma clamp_pos {j : UInt32} (h : j ≠ 0) : 0 < (clamp j).toNat ∧ ¬ (clamp j).toInt32 ≤ 0 := by
  have hne : j.toNat ≠ 0 := fun hz => h (UInt32.toNat_inj.1 hz)
  have hclamp := toNat_clamp j
  have hint : (clamp j).toInt32.toInt = (clamp j).toNat :=
    BitVec.toInt_eq_toNat_of_lt (show 2 * (clamp j).toNat < 2 ^ 32 by omega)
  rw [Int32.le_iff_toInt_le, hint]
  refine ⟨by omega, ?_⟩
  show ¬ ((clamp j).toNat : ℤ) ≤ 0
  omega

/-- The same for a timer that is queued for some time. -/
lemma queued_iff (tv : Timeval) {jiffies served : ℕ} (hserved : served ≤ jiffies + 1)
    (hne : tvtojiffies tv ≠ 0) :
    jiffies + tv.wait ≤ deadline served (UInt32.ofNat jiffies + clamp (tvtojiffies tv)) ↔
      tv.Fits ∧ jiffies + tv.wait < served + 2 ^ 31 := by
  obtain ⟨hle, hfits⟩ := min_tvtojiffies tv
  have hword : UInt32.ofNat jiffies + clamp (tvtojiffies tv) =
      UInt32.ofNat (jiffies + (clamp (tvtojiffies tv)).toNat) := by
    rw [UInt32.ofNat_add, UInt32.ofNat_toNat]
  rw [← toNat_clamp] at hle hfits
  rw [hword, le_deadline_iff hserved (clamp_pos hne).1 hle, hfits]

lemma expires_doSetitimer (jiffies : UInt32) (value : Itimerval) :
    (doSetitimer jiffies value).expires.isSome ↔ tvtojiffies value.itValue ≠ 0 := by
  simp only [doSetitimer]
  split_ifs with h <;> simp [h]

/-- A time that fits arms the timer unless it is 0. -/
lemma Timeval.Fits.armed {tv : Timeval} (h : tv.Fits) : tvtojiffies tv ≠ 0 ↔ tv.ticks ≠ 0 := by
  have heq : _ = min tv.ticks (2 ^ 31 - 1) := (min_tvtojiffies tv).2.2 h
  rw [Ne, ← UInt32.toNat_inj]
  show ¬ (tvtojiffies tv).toNat = 0 ↔ _
  omega

lemma firstInTime_iff (jiffies : ℕ) (value : Itimerval) :
    FirstInTime jiffies value (doSetitimer (UInt32.ofNat jiffies) value) ↔ value.itValue.Fits := by
  have hwait : value.itValue.wait = min value.itValue.ticks (2 ^ 31 - 1) := rfl
  obtain ⟨-, hfits⟩ := min_tvtojiffies value.itValue
  unfold FirstInTime
  by_cases hj : tvtojiffies value.itValue = 0
  · -- the timer is not armed
    have hset : (doSetitimer (UInt32.ofNat jiffies) value).expires = none := if_pos hj
    rw [hj] at hfits
    rw [← hfits, hset, hwait]
    simp
    omega
  · have hset : (doSetitimer (UInt32.ofNat jiffies) value).expires = some _ := if_neg hj
    have hqueued := queued_iff value.itValue (Nat.le_refl (jiffies + 1)) hj
    rw [← toNat_clamp] at hfits
    simp only [doGetitimer, hset, Option.mem_some_iff, forall_eq', UInt32.add_sub_cancel]
    rw [if_neg (clamp_pos hj).2, ticks_jiffiestotv, UInt32.add_comm, hqueued]
    refine ⟨fun h => h.2.1.1, fun h => ⟨fun _ => rfl, ⟨h, by omega⟩, (hfits.2 h).ge⟩⟩

/-- The signals after the first, which only the interval decides. -/
lemma requeued_iff (served late : ℕ) (p : RealTimer) (interval : Timeval)
    (hp : p.itRealIncr = tvtojiffies interval) :
    (∀ expires ∈ (itRealFn (UInt32.ofNat (served + late)) p).expires,
      served + late + interval.wait ≤ deadline served expires) ↔
      interval.Vanishes ∨ interval.Fits ∧ late + interval.wait < 2 ^ 31 := by
  rw [← tvtojiffies_eq_zero]
  by_cases hi : tvtojiffies interval = 0
  · simp [itRealFn, hp, hi]
  · have hqueued := queued_iff interval (show served ≤ served + late + 1 by omega) hi
    have hset : (itRealFn (UInt32.ofNat (served + late)) p).expires = some _ :=
      if_neg fun h => hi (hp.symm.trans h)
    simp only [hset, hp, Option.mem_some_iff, forall_eq', hi, false_or]
    exact hqueued.trans (and_congr_right fun _ => by omega)

/-- **Interval timers.** No signal comes early exactly if the value fits, and it is 0, or the
interval vanishes, or it fits and is queued again before the timer service is too late. -/
theorem neverEarly_iff (jiffies served late : ℕ) (value : Itimerval) :
    NeverEarly jiffies served late value (doSetitimer (UInt32.ofNat jiffies) value) ↔
      value.itValue.Fits ∧ (value.itValue.ticks = 0 ∨ value.itInterval.Vanishes ∨
        value.itInterval.Fits ∧ late + value.itInterval.wait < 2 ^ 31) := by
  unfold NeverEarly
  rw [firstInTime_iff, expires_doSetitimer, requeued_iff served late _ value.itInterval rfl]
  refine and_congr_right fun hfits => ?_
  rw [hfits.armed, imp_iff_not_or, not_not]

/-- 42949672.96 s are 2^32 ticks: the timer is not armed. -/
theorem setitimer_vanishes :
    ¬ NeverEarly 0 0 0 ⟨⟨0, 0⟩, ⟨42949672, 960000⟩⟩ (doSetitimer 0 ⟨⟨0, 0⟩, ⟨42949672, 960000⟩⟩) := by
  intro h
  exact absurd (h.1.1 (by decide)) (by decide)

end PsxLinux.Timer
