import Deps.Sys.ThreadQueue
import Mathlib.Tactic

/-!
# Durations

The three places which make a `timespec` from a number of milliseconds:
`ThreadCond::abstime`, which `pop_front` and `swap` of `sys/thread_queue.h` reach
through `timeWait`; `Thread::sleep`; and the wait for `kevent` in `net/epoll_container.cpp`.
`time_t` and `long` have 64 bits.
-/

namespace Deps
namespace Sys

structure Timespec where
  tvSec : Int64
  tvNsec : Int64

namespace Timespec

def nanoseconds (ts : Timespec) : Int := ts.tvSec.toInt * 1000000000 + ts.tvNsec.toInt

/-- What the functions which take a `timespec` ask of `tv_nsec`. -/
def Normal (ts : Timespec) : Prop := 0 ≤ ts.tvNsec.toInt ∧ ts.tvNsec.toInt < 1000000000

instance (ts : Timespec) : Decidable ts.Normal := inferInstanceAs (Decidable (_ ∧ _))

end Timespec

/-- A time of `CLOCK_MONOTONIC`. -/
structure MonotonicTime extends Timespec where
  sec_nonneg : 0 ≤ tvSec.toInt
  normal : toTimespec.Normal

/-- The time truncated to microseconds. -/
def MonotonicTime.microseconds (now : MonotonicTime) : Nat :=
  now.tvSec.toInt.toNat * 1000000 + now.tvNsec.toInt.toNat / 1000

namespace ThreadCond

/-- The variable `utime` of `abstime`, where `ts` is what `clock_gettime` has stored. -/
def utime (ts : Timespec) (millsecond : Int32) : UInt64 :=
  ts.tvSec.toUInt64 * 1000000 + ts.tvNsec.toUInt64 / 1000 + millsecond.toInt64.toUInt64 * 1000

def abstime (ts : Timespec) (millsecond : Int32) : Timespec :=
  let utime := utime ts millsecond
  let tvSec := (utime / 1000000).toInt64
  { tvSec, tvNsec := ((utime - tvSec.toUInt64 * 1000000) * 1000).toInt64 }

end ThreadCond

/-- The conversion of `size_t` to the `int` of `timeWait`. -/
def ThreadQueue.narrow (millsecond : UInt64) : Int32 := millsecond.toUInt32.toInt32

namespace Thread

/-- The `timespec` of `Thread::sleep`. -/
def sleep (millsecond : Int64) : Timespec :=
  { tvSec := millsecond / 1000, tvNsec := millsecond % 1000 * 1000 * 1000 }

end Thread

/-- The variable `timeout` of `EpollContainer::HandleSockets`, where `kevent` waits. -/
def keventTimeout (maxFdEventWaitTime : Int32) : Timespec :=
  { tvSec := (maxFdEventWaitTime / 1000).toInt64
    tvNsec := (maxFdEventWaitTime % 1000 * 1000).toInt64 }

/-- A duration on its way to a `timespec`. -/
inductive Conversion
  /-- `pop_front` and `swap`, at a time -/
  | timeWait (now : MonotonicTime) (millsecond : UInt64)
  | sleep (millsecond : Int64)
  | kevent (maxFdEventWaitTime : Int32)

namespace Conversion

/-- The durations which the callers admit. -/
def Admitted : Conversion → Prop
  | timeWait _ millsecond => millsecond ≠ 0 ∧ millsecond ≠ forever
  | sleep millsecond => 0 ≤ millsecond.toInt
  | kevent maxFdEventWaitTime => 0 ≤ maxFdEventWaitTime.toInt

def produced : Conversion → Timespec
  | timeWait now millsecond => ThreadCond.abstime now.toTimespec (ThreadQueue.narrow millsecond)
  | sleep millsecond => Thread.sleep millsecond
  | kevent maxFdEventWaitTime => keventTimeout maxFdEventWaitTime

/-- What the `timespec` has to denote, in nanoseconds. -/
def meant : Conversion → Int
  | timeWait now millsecond => (now.microseconds + millsecond.toNat * 1000 : Nat) * 1000
  | sleep millsecond => millsecond.toInt * 1000000
  | kevent maxFdEventWaitTime => maxFdEventWaitTime.toInt * 1000000

/-- No operation wraps, and no conversion changes a value. -/
def Exact : Conversion → Prop
  | timeWait now millsecond =>
      (ThreadQueue.narrow millsecond).toInt = millsecond.toNat ∧
      ((ThreadQueue.narrow millsecond).toInt64.toUInt64 * 1000).toNat = millsecond.toNat * 1000 ∧
      (now.tvSec.toUInt64 * 1000000).toNat = now.tvSec.toInt.toNat * 1000000 ∧
      (ThreadCond.utime now.toTimespec (ThreadQueue.narrow millsecond)).toNat =
        now.microseconds + millsecond.toNat * 1000
  | sleep millsecond =>
      (millsecond % 1000 * 1000 * 1000).toInt = millsecond.toInt % 1000 * 1000 * 1000
  | kevent maxFdEventWaitTime =>
      (maxFdEventWaitTime % 1000 * 1000).toInt = maxFdEventWaitTime.toInt % 1000 * 1000

/-- The `timespec` is the right one, and nothing was lost on the way. -/
def Right (c : Conversion) : Prop :=
  c.produced.Normal ∧ c.produced.nanoseconds = c.meant ∧ c.Exact

def Condition : Conversion → Prop
  | timeWait now millsecond =>
      millsecond.toNat < 2 ^ 31 ∧ now.microseconds + millsecond.toNat * 1000 < 2 ^ 64
  | sleep _ => True
  | kevent maxFdEventWaitTime => 1000 ∣ maxFdEventWaitTime.toInt

end Conversion

/-! ## Values after a conversion -/

theorem toNat_toUInt64 (x : Int64) : (x.toUInt64.toNat : Int) = x.toInt % 2 ^ 64 := by
  rw [← Int64.toNat_toBitVec, ← x.toInt_toBitVec, BitVec.toInt_eq_toNat_cond]
  have hlt := x.toBitVec.isLt
  split <;> omega

theorem toInt_toInt64 {x : UInt64} (hx : x.toNat < 2 ^ 63) : x.toInt64.toInt = x.toNat := by
  rw [← Int64.toInt_toBitVec, UInt64.toBitVec_toInt64, BitVec.toInt_eq_toNat_of_lt]
  · rfl
  · show 2 * x.toNat < 2 ^ 64
    omega

theorem toInt_narrow (x : UInt64) :
    (ThreadQueue.narrow x).toInt = (x.toNat + 2 ^ 31) % 2 ^ 32 - 2 ^ 31 := by
  have hnat : (ThreadQueue.narrow x).toBitVec.toNat = x.toNat % 2 ^ 32 := UInt64.toNat_toUInt32 x
  rw [← Int32.toInt_toBitVec, BitVec.toInt_eq_toNat_cond, hnat]
  split <;> omega

/-! ## `abstime` -/

section Abstime

variable (now : MonotonicTime) (millsecond : UInt64)

theorem toNat_seconds :
    (now.tvSec.toUInt64 * 1000000).toNat = now.tvSec.toInt.toNat * 1000000 % 2 ^ 64 := by
  have hsec := toNat_toUInt64 now.tvSec
  have hlt := now.tvSec.toInt_lt
  have hnonneg := now.sec_nonneg
  have hmul : (now.tvSec.toUInt64 * 1000000).toNat = now.tvSec.toUInt64.toNat * 1000000 % 2 ^ 64 :=
    UInt64.toNat_mul _ _
  rw [hmul, show now.tvSec.toUInt64.toNat = now.tvSec.toInt.toNat by omega]

theorem toNat_nanoseconds :
    (now.tvNsec.toUInt64 / 1000).toNat = now.tvNsec.toInt.toNat / 1000 := by
  have hnsec := toNat_toUInt64 now.tvNsec
  obtain ⟨hnonneg, hlt⟩ := now.normal
  have hdiv : (now.tvNsec.toUInt64 / 1000).toNat = now.tvNsec.toUInt64.toNat / 1000 :=
    UInt64.toNat_div _ _
  omega

/-- A product by the sign extension of the `int`. -/
theorem toNat_duration :
    (((ThreadQueue.narrow millsecond).toInt64.toUInt64 * 1000).toNat : Int) =
      ((millsecond.toNat + 2 ^ 31) % 2 ^ 32 - 2 ^ 31) * 1000 % 2 ^ 64 := by
  have hwide := toNat_toUInt64 (ThreadQueue.narrow millsecond).toInt64
  rw [Int32.toInt_toInt64, toInt_narrow] at hwide
  have hmul : ((ThreadQueue.narrow millsecond).toInt64.toUInt64 * 1000).toNat =
      (ThreadQueue.narrow millsecond).toInt64.toUInt64.toNat * 1000 % 2 ^ 64 :=
    UInt64.toNat_mul _ _
  omega

theorem toNat_utime :
    ((ThreadCond.utime now.toTimespec (ThreadQueue.narrow millsecond)).toNat : Int) =
      (now.microseconds + ((millsecond.toNat + 2 ^ 31) % 2 ^ 32 - 2 ^ 31) * 1000) % 2 ^ 64 := by
  have hseconds := toNat_seconds now
  have hnanoseconds := toNat_nanoseconds now
  have hduration := toNat_duration millsecond
  generalize ((millsecond.toNat + 2 ^ 31) % 2 ^ 32 - 2 ^ 31 : Int) = narrowed at hduration ⊢
  unfold ThreadCond.utime MonotonicTime.microseconds
  rw [UInt64.toNat_add, UInt64.toNat_add, hseconds, hnanoseconds]
  generalize now.tvSec.toInt.toNat * 1000000 = seconds
  generalize now.tvNsec.toInt.toNat / 1000 = nanoseconds
  omega

/-- `abstime` is `utime`, in seconds and nanoseconds. -/
theorem abstime_denotes (ts : Timespec) (millsecond : Int32) :
    (ThreadCond.abstime ts millsecond).Normal ∧
      (ThreadCond.abstime ts millsecond).nanoseconds =
        (ThreadCond.utime ts millsecond).toNat * 1000 := by
  have hlt := (ThreadCond.utime ts millsecond).toNat_lt
  have hdiv : (ThreadCond.utime ts millsecond / 1000000).toNat =
      (ThreadCond.utime ts millsecond).toNat / 1000000 := UInt64.toNat_div _ _
  have hmul : (ThreadCond.utime ts millsecond / 1000000 * 1000000).toNat =
      (ThreadCond.utime ts millsecond).toNat / 1000000 * 1000000 % 2 ^ 64 := by
    rw [← hdiv]
    exact UInt64.toNat_mul _ _
  have hrest : ((ThreadCond.utime ts millsecond -
      ThreadCond.utime ts millsecond / 1000000 * 1000000) * 1000).toNat =
      (ThreadCond.utime ts millsecond).toNat % 1000000 * 1000 := by
    have hsub : ((ThreadCond.utime ts millsecond -
        ThreadCond.utime ts millsecond / 1000000 * 1000000) * 1000).toNat =
        (ThreadCond.utime ts millsecond -
          ThreadCond.utime ts millsecond / 1000000 * 1000000).toNat * 1000 % 2 ^ 64 :=
      UInt64.toNat_mul _ _
    rw [hsub, UInt64.toNat_sub, hmul]
    omega
  have hsec : (ThreadCond.abstime ts millsecond).tvSec.toInt =
      ((ThreadCond.utime ts millsecond).toNat / 1000000 : Nat) := by
    rw [← hdiv]
    exact toInt_toInt64 (by omega)
  have hnsec : (ThreadCond.abstime ts millsecond).tvNsec.toInt =
      ((ThreadCond.utime ts millsecond).toNat % 1000000 * 1000 : Nat) := by
    rw [← hrest]
    apply toInt_toInt64
    show ((ThreadCond.utime ts millsecond -
      ThreadCond.utime ts millsecond / 1000000 * 1000000) * 1000).toNat < 2 ^ 63
    omega
  unfold Timespec.Normal Timespec.nanoseconds
  rw [hsec, hnsec]
  omega

end Abstime

/-- An `int` which has lost something denotes another time, also after a wrap. -/
theorem narrowed_exact_iff {now ms u : Nat} (hu : u < 2 ^ 64)
    (hutime : (u : Int) = (now + ((ms + 2 ^ 31) % 2 ^ 32 - 2 ^ 31) * 1000) % 2 ^ 64) :
    u = now + ms * 1000 ↔ ms < 2 ^ 31 ∧ now + ms * 1000 < 2 ^ 64 := by
  constructor
  · intro hexact
    have hwraps := Int.mul_ediv_add_emod (now + ((ms + 2 ^ 31) % 2 ^ 32 - 2 ^ 31) * 1000) (2 ^ 64)
    have hcut := Int.mul_ediv_add_emod (ms + 2 ^ 31) (2 ^ 32)
    rw [← hutime] at hwraps
    generalize (now + ((ms + 2 ^ 31) % 2 ^ 32 - 2 ^ 31) * 1000 : Int) / 2 ^ 64 = wraps at hwraps
    have hexact' : (u : Int) = now + ms * 1000 := by exact_mod_cast hexact
    have hlost : (ms + 2 ^ 31 : Int) / 2 ^ 32 * 125 = 2 ^ 29 * -wraps := by linarith
    have hdvd : (2 : Int) ^ 29 ∣ (ms + 2 ^ 31 : Int) / 2 ^ 32 :=
      IsCoprime.dvd_of_dvd_mul_right (by norm_num) ⟨_, hlost⟩
    obtain ⟨k, hk⟩ := hdvd
    refine ⟨?_, hexact ▸ hu⟩
    rw [hk] at hcut
    -- what was cut off is 0 or far too large for the sum
    clear hk hlost hwraps hutime hexact'
    have hrest := Int.emod_nonneg (ms + 2 ^ 31 : Int) (by norm_num : (2 : Int) ^ 32 ≠ 0)
    have hrest' := Int.emod_lt_of_pos (ms + 2 ^ 31 : Int) (by norm_num : (0 : Int) < 2 ^ 32)
    generalize (ms + 2 ^ 31 : Int) % 2 ^ 32 = rest at hcut hrest hrest'
    omega
  · rintro ⟨hsmall, hroom⟩
    rw [Int.emod_eq_of_lt (b := 2 ^ 32) (by omega) (by omega)] at hutime
    rw [Int.emod_eq_of_lt (by omega) (by omega)] at hutime
    omega

theorem timeWait_right_iff (now : MonotonicTime) (millsecond : UInt64) :
    (Conversion.timeWait now millsecond).Right ↔
      (Conversion.timeWait now millsecond).Condition := by
  have hiff := narrowed_exact_iff (UInt64.toNat_lt _) (toNat_utime now millsecond)
  obtain ⟨hnormal, hdenotes⟩ :=
    abstime_denotes now.toTimespec (ThreadQueue.narrow millsecond)
  constructor
  · rintro ⟨-, hmeant, -⟩
    have hequal : (ThreadCond.abstime now.toTimespec (ThreadQueue.narrow millsecond)).nanoseconds =
      (now.microseconds + millsecond.toNat * 1000 : Nat) * 1000 := hmeant
    apply hiff.mp
    omega
  · intro hcondition
    have hvalue := hiff.mpr hcondition
    obtain ⟨hsmall, hroom⟩ := hcondition
    have hnarrow : (millsecond.toNat + 2 ^ 31 : Int) % 2 ^ 32 - 2 ^ 31 = millsecond.toNat := by
      rw [Int.emod_eq_of_lt (by omega) (by omega)]
      omega
    have hduration := toNat_duration millsecond
    rw [hnarrow] at hduration
    have hmicroseconds : now.microseconds =
      now.tvSec.toInt.toNat * 1000000 + now.tvNsec.toInt.toNat / 1000 := rfl
    refine ⟨hnormal, ?_, ?_, ?_, ?_, hvalue⟩
    · rw [Conversion.meant, ← hvalue]
      exact hdenotes
    · rw [toInt_narrow, hnarrow]
    · rw [Int.emod_eq_of_lt (by omega) (by omega)] at hduration
      omega
    · rw [toNat_seconds, Nat.mod_eq_of_lt]
      omega

/-! ## The relative waits -/

theorem toInt_div_thousand {x : Int64} (hx : 0 ≤ x.toInt) : (x / 1000).toInt = x.toInt / 1000 := by
  have hlt := x.toInt_lt
  rw [Int64.toInt_div, show (1000 : Int64).toInt = 1000 by decide, Int.tdiv_eq_ediv_of_nonneg hx,
    Int.bmod_eq_of_le (by omega) (by omega)]

theorem toInt_mul_thousand {x : Int64} (hx : 0 ≤ x.toInt) (hlt : x.toInt < 2 ^ 40) :
    (x * 1000).toInt = x.toInt * 1000 := by
  rw [Int64.toInt_mul, show (1000 : Int64).toInt = 1000 by decide,
    Int.bmod_eq_of_le (by omega) (by omega)]

theorem sleep_right {millsecond : Int64} (hms : 0 ≤ millsecond.toInt) :
    (Conversion.sleep millsecond).Right := by
  have hsec := toInt_div_thousand hms
  have hmod : (millsecond % 1000).toInt = millsecond.toInt % 1000 := by
    rw [Int64.toInt_mod, show (1000 : Int64).toInt = 1000 by decide,
      Int.tmod_eq_emod_of_nonneg hms]
  have honce : (millsecond % 1000 * 1000).toInt = millsecond.toInt % 1000 * 1000 := by
    rw [toInt_mul_thousand (by omega) (by omega), hmod]
  have hnsec : (millsecond % 1000 * 1000 * 1000).toInt = millsecond.toInt % 1000 * 1000 * 1000 := by
    rw [toInt_mul_thousand (by omega) (by omega), honce]
  refine ⟨?_, ?_, hnsec⟩
  · show 0 ≤ (millsecond % 1000 * 1000 * 1000).toInt ∧
      (millsecond % 1000 * 1000 * 1000).toInt < 1000000000
    omega
  · show (millsecond / 1000).toInt * 1000000000 + (millsecond % 1000 * 1000 * 1000).toInt =
      millsecond.toInt * 1000000
    omega

/-- The rest of the milliseconds becomes microseconds where nanoseconds are meant. -/
theorem kevent_right_iff {w : Int32} (hw : 0 ≤ w.toInt) :
    (Conversion.kevent w).Right ↔ (Conversion.kevent w).Condition := by
  have hlt := w.toInt_lt
  have hsec : (w / 1000).toInt64.toInt = w.toInt / 1000 := by
    rw [Int32.toInt_toInt64, Int32.toInt_div, show (1000 : Int32).toInt = 1000 by decide,
      Int.tdiv_eq_ediv_of_nonneg hw, Int.bmod_eq_of_le (by omega) (by omega)]
  have hmod : (w % 1000).toInt = w.toInt % 1000 := by
    rw [Int32.toInt_mod, show (1000 : Int32).toInt = 1000 by decide,
      Int.tmod_eq_emod_of_nonneg hw]
  have hexact : (w % 1000 * 1000).toInt = w.toInt % 1000 * 1000 := by
    rw [Int32.toInt_mul, hmod, show (1000 : Int32).toInt = 1000 by decide,
      Int.bmod_eq_of_le (by omega) (by omega)]
  have hnsec : (w % 1000 * 1000).toInt64.toInt = w.toInt % 1000 * 1000 := by
    rw [Int32.toInt_toInt64, hexact]
  have hnormal : (keventTimeout w).Normal := by
    show 0 ≤ (w % 1000 * 1000).toInt64.toInt ∧ (w % 1000 * 1000).toInt64.toInt < 1000000000
    omega
  have hdenotes : (keventTimeout w).nanoseconds =
      w.toInt / 1000 * 1000000000 + w.toInt % 1000 * 1000 := by
    rw [← hsec, ← hnsec]
    rfl
  constructor
  · rintro ⟨-, hmeant, -⟩
    have hequal : (keventTimeout w).nanoseconds = w.toInt * 1000000 := hmeant
    show 1000 ∣ w.toInt
    omega
  · intro hdvd
    have hthousand : 1000 ∣ w.toInt := hdvd
    refine ⟨hnormal, ?_, hexact⟩
    show (keventTimeout w).nanoseconds = w.toInt * 1000000
    omega

/-- **Which durations become the right `timespec`.**  Those of `sleep` do; those of the
queue as long as they fit an `int` and the time fits `uint64_t`; those of `kevent` when
they are whole seconds. -/
theorem right_iff_condition {c : Conversion} (hc : c.Admitted) : c.Right ↔ c.Condition := by
  cases c with
  | timeWait now millsecond => exact timeWait_right_iff now millsecond
  | sleep millsecond => exact iff_of_true (sleep_right hc) trivial
  | kevent maxFdEventWaitTime => exact kevent_right_iff hc

/-- The theorem at a wait of a second and a half, at a time of five seconds. -/
theorem right_iff_condition_queue :
    (Conversion.timeWait ⟨⟨5, 0⟩, by decide, by decide⟩ 1500).Right := by
  apply (right_iff_condition _).mpr
  · exact ⟨by decide, by decide⟩
  · exact ⟨by decide, by decide⟩

/-- A wait of ten milliseconds for `kevent` becomes one of ten microseconds. -/
theorem kevent_waits_microseconds : ∃ c : Conversion, c.Admitted ∧ ¬c.Right := by
  have hadmitted : 0 ≤ (10 : Int32).toInt := by decide
  have hwrong : (keventTimeout 10).nanoseconds ≠ (10 : Int32).toInt * 1000000 := by decide
  exact ⟨.kevent 10, hadmitted, fun hright => hwrong hright.2.1⟩

end Sys
end Deps
