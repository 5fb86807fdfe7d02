import VeriMat.AtomicProgram
import VeriMat.PyDict

/-! # The rate limiter

`service/rate_limit.py` with exact numbers. A call reads the clock first and takes the lock
afterwards, so the locked sections need not come in the order of the readings. -/
namespace RateLimiter

open PyText PyDict AtomicProgram

structure Bucket where
  tokens : ℚ
  updatedAt : ℚ
  deriving DecidableEq, Repr

/-- A `PrincipalRateLimiter`: its constructor refuses other rates. -/
structure PrincipalRateLimiter where
  requestsPerMinute : ℕ
  burst : ℕ
  rate_pos : 1 ≤ requestsPerMinute
  burst_pos : 1 ≤ burst

/-- A tenant and one of its principals. -/
abbrev Principal := PyStr × PyStr

abbrev Buckets := Dict Principal Bucket

def PrincipalRateLimiter.ratePerSecond (L : PrincipalRateLimiter) : ℚ := L.requestsPerMinute / 60

/-- The bucket of a principal, a full one if it has none. -/
def PrincipalRateLimiter.bucket (L : PrincipalRateLimiter) (key : Principal) (now : ℚ)
    (buckets : Buckets) : Bucket :=
  (buckets.get key).getD ⟨L.burst, now⟩

/-- What has been refilled since the bucket was updated. -/
def PrincipalRateLimiter.refilled (L : PrincipalRateLimiter) (b : Bucket) (now : ℚ) : ℚ :=
  min L.burst (b.tokens + max 0 (now - b.updatedAt) * L.ratePerSecond)

/-- The locked section of `allow`. -/
def PrincipalRateLimiter.allowLocked (L : PrincipalRateLimiter) (key : Principal) (now : ℚ)
    (buckets : Buckets) : (Bool × ℤ) × Buckets :=
  let tokens := L.refilled (L.bucket key now buckets) now
  if 1 ≤ tokens then ((true, 0), buckets.set key ⟨tokens - 1, now⟩)
  else
    ((false, max 1 ((1 - tokens) / L.ratePerSecond).ceil), buckets.set key ⟨tokens, now⟩)

/-! ## Calls -/

inductive LimiterOp where
  | clock
  | locked (key : Principal) (now : ℚ)

abbrev LimiterReply : LimiterOp → Type
  | .clock => ℚ
  | .locked .. => Bool × ℤ

/-- `allow`. -/
def allow (key : Principal) : Program LimiterOp LimiterReply (Bool × ℤ) :=
  .step .clock fun now => .step (.locked key now) .done

structure LimiterState where
  time : ℚ
  buckets : Buckets

/-- Threads that call `allow` on one limiter, and a clock that never goes back. -/
def limiterMachine (L : PrincipalRateLimiter) :
    Machine LimiterState Principal LimiterOp LimiterReply (Bool × ℤ) where
  program := allow
  perform
    | s, .clock, r, s' => r = s.time ∧ s' = s
    | s, .locked key now, r, s' =>
      r = (L.allowLocked key now s.buckets).1 ∧ s' = { s with buckets := (L.allowLocked key now s.buckets).2 }
  external s s' := ∃ t, s.time ≤ t ∧ s' = { s with time := t }

abbrev LimiterSystem := System LimiterState Principal LimiterOp LimiterReply (Bool × ℤ)

def LimiterState.initial (t : ℚ) : LimiterState := ⟨t, empty⟩

/-- An admitted call of the principal whose reading lies in the window. -/
def admitted (key : Principal) (start d : ℚ) : Entry LimiterOp LimiterReply → ℕ
  | ⟨.locked key' now, r⟩ => if key' = key ∧ start ≤ now ∧ now ≤ start + d ∧ r.1 = true then 1 else 0
  | ⟨.clock, _⟩ => 0

/-- A thread of the principal takes the lock with a reading that is not older than the bucket. -/
def InOrder (key : Principal) (s : LimiterState)
    (p : Process Principal LimiterOp LimiterReply (Bool × ℤ)) : Prop :=
  ∀ now next, p.program = .step (.locked key now) next →
    ∀ b, s.buckets.get key = some b → b.updatedAt ≤ now

/-! ## The bound -/

variable {L : PrincipalRateLimiter} {key key' : Principal} {start d now : ℚ} {buckets : Buckets}

/-- What a bucket promises about the calls admitted in a window. -/
structure Kept (L : PrincipalRateLimiter) (start d : ℚ) (count : ℕ) (b : Bucket) : Prop where
  tokens_nonneg : 0 ≤ b.tokens
  before : b.updatedAt < start → count = 0
  within : start ≤ b.updatedAt → b.updatedAt ≤ start + d →
    count + b.tokens ≤ L.burst + (b.updatedAt - start) * L.ratePerSecond
  after : start + d < b.updatedAt → (count : ℚ) ≤ L.burst + d * L.ratePerSecond

/-- What the limiter promises about one principal. -/
def Bounded (L : PrincipalRateLimiter) (key : Principal) (start d : ℚ) (count : ℕ)
    (buckets : Buckets) : Prop :=
  match buckets.get key with
  | none => count = 0
  | some b => Kept L start d count b

theorem ratePerSecond_pos (L : PrincipalRateLimiter) : 0 < L.ratePerSecond := by
  have h : (0 : ℚ) < L.requestsPerMinute := by exact_mod_cast L.rate_pos
  unfold PrincipalRateLimiter.ratePerSecond
  linarith

theorem Kept.le {count : ℕ} {b : Bucket} (h : Kept L start d count b) (hd : 0 ≤ d) :
    (count : ℚ) ≤ L.burst + d * L.ratePerSecond := by
  have hrate := ratePerSecond_pos L
  have hburst : (0 : ℚ) ≤ L.burst := by positivity
  have hspan : 0 ≤ d * L.ratePerSecond := by positivity
  rcases lt_or_ge b.updatedAt start with hbefore | hstart
  · rw [h.before hbefore]
    push_cast
    linarith
  rcases le_or_gt b.updatedAt (start + d) with hend | hafter
  · have hwithin := h.within hstart hend
    have hpart : (b.updatedAt - start) * L.ratePerSecond ≤ d * L.ratePerSecond :=
      mul_le_mul_of_nonneg_right (by linarith) hrate.le
    have htokens := h.tokens_nonneg
    linarith
  · exact h.after hafter

theorem kept_full (L : PrincipalRateLimiter) (start now : ℚ) (hd : 0 ≤ d) :
    Kept L start d 0 ⟨L.burst, now⟩ := by
  have hrate := ratePerSecond_pos L
  refine ⟨by positivity, fun _ => rfl, ?_, ?_⟩
  · intro hstart _
    have hspan : 0 ≤ (now - start) * L.ratePerSecond := mul_nonneg (by linarith) hrate.le
    push_cast
    linarith
  · intro _
    push_cast
    positivity

/-- A bucket brought up to date. -/
theorem Kept.refill {count : ℕ} {b : Bucket} (h : Kept L start d count b) (hd : 0 ≤ d)
    (hnow : b.updatedAt ≤ now) : Kept L start d count ⟨L.refilled b now, now⟩ := by
  have hrate := ratePerSecond_pos L
  have helapsed : max 0 (now - b.updatedAt) = now - b.updatedAt := max_eq_right (by linarith)
  have hgain : 0 ≤ (now - b.updatedAt) * L.ratePerSecond := mul_nonneg (by linarith) hrate.le
  have hfull : L.refilled b now ≤ L.burst := min_le_left _ _
  have hmore : L.refilled b now ≤ b.tokens + (now - b.updatedAt) * L.ratePerSecond := by
    rw [PrincipalRateLimiter.refilled, helapsed]
    exact min_le_right _ _
  refine ⟨?_, ?_, ?_, fun _ => h.le hd⟩
  · have htokens := h.tokens_nonneg
    rw [PrincipalRateLimiter.refilled, helapsed]
    exact le_min (by positivity) (by linarith)
  · intro hbefore
    exact h.before (lt_of_le_of_lt hnow hbefore)
  · intro hstart hend
    rcases lt_or_ge b.updatedAt start with hbefore | hb
    · have hspan : 0 ≤ (now - start) * L.ratePerSecond := mul_nonneg (by linarith) hrate.le
      rw [h.before hbefore]
      push_cast
      linarith
    · have hwithin := h.within hb (by linarith)
      linarith

/-- A token spent on a call. -/
theorem Kept.spend {count : ℕ} {tokens : ℚ} (h : Kept L start d count ⟨tokens, now⟩)
    (htokens : 1 ≤ tokens) :
    Kept L start d (count + if start ≤ now ∧ now ≤ start + d then 1 else 0) ⟨tokens - 1, now⟩ := by
  obtain ⟨_, hbefore, hwithin, hafter⟩ := h
  refine ⟨by linarith, ?_, ?_, ?_⟩
  · intro hlt
    rw [if_neg (by rintro ⟨hstart, _⟩; exact absurd hlt (not_lt.mpr hstart)), hbefore hlt]
  · intro hstart hend
    have := hwithin hstart hend
    rw [if_pos ⟨hstart, hend⟩]
    push_cast
    linarith
  · intro hgt
    rw [if_neg (by rintro ⟨_, hend⟩; exact absurd hgt (not_lt.mpr hend))]
    exact hafter hgt

/-! ### Over runs -/

theorem kept_bucket {count : ℕ} (now : ℚ) (hd : 0 ≤ d)
    (h : Bounded L key start d count buckets) :
    Kept L start d count (L.bucket key now buckets) := by
  rw [Bounded] at h
  rw [PrincipalRateLimiter.bucket]
  cases hget : buckets.get key with
  | none =>
    rw [hget] at h
    obtain rfl : count = 0 := h
    exact kept_full L start now hd
  | some b =>
    rw [hget] at h
    exact h

/-- A locked section of a thread in order keeps what is promised about every principal. -/
theorem bounded_admit {count : ℕ} (hd : 0 ≤ d) (h : Bounded L key start d count buckets)
    (hnow : key' = key → ∀ b, buckets.get key = some b → b.updatedAt ≤ now) :
    Bounded L key start d
      (count + admitted key start d ⟨.locked key' now, (L.allowLocked key' now buckets).1⟩)
      (L.allowLocked key' now buckets).2 := by
  by_cases hkey : key' = key
  · subst hkey
    have hkept := kept_bucket now hd h
    have hold : (L.bucket key' now buckets).updatedAt ≤ now := by
      rw [PrincipalRateLimiter.bucket]
      cases hget : buckets.get key' with
      | none => exact le_refl now
      | some b => exact hnow rfl b hget
    have hrefill := hkept.refill hd hold
    rw [Bounded, PrincipalRateLimiter.allowLocked]
    by_cases htokens : 1 ≤ L.refilled (L.bucket key' now buckets) now
    · rw [if_pos htokens, Dict.get_set_self]
      have hcount : admitted key' start d ⟨.locked key' now, (true, 0)⟩ =
          if start ≤ now ∧ now ≤ start + d then 1 else 0 := by simp [admitted]
      rw [hcount]
      exact hrefill.spend htokens
    · rw [if_neg htokens, Dict.get_set_self]
      have hcount : ∀ retryAfter, admitted key' start d ⟨.locked key' now, (false, retryAfter)⟩ = 0 := by
        simp [admitted]
      rw [hcount]
      exact hrefill
  · have hcount : admitted key start d ⟨.locked key' now, (L.allowLocked key' now buckets).1⟩ = 0 := by
      simp [admitted, hkey]
    have hget : (L.allowLocked key' now buckets).2.get key = buckets.get key := by
      rw [PrincipalRateLimiter.allowLocked]
      split <;> rw [Dict.get_set, if_neg (Ne.symm hkey)]
    rw [hcount, Bounded, hget]
    exact h

/-- In every run in which the principal's locked sections come in the order of their readings, a
window of length `d` has at most `burst + d * requests_per_minute / 60` of its admitted calls. -/
theorem admitted_le {t : ℚ} {sys : LimiterSystem}
    (h : Reaches (limiterMachine L) (InOrder key) (System.idle (LimiterState.initial t)) sys)
    (start d : ℚ) (hd : 0 ≤ d) :
    (sys.total (admitted key start d) : ℚ) ≤ L.burst + d * L.requestsPerMinute / 60 := by
  have hbounded : Bounded L key start d (sys.total (admitted key start d)) sys.state.buckets := by
    induction h with
    | refl => exact rfl
    | @tail sys sys' _ hstep ih =>
      cases hstep with
      | start c =>
        rw [total_start]
        exact ih
      | external s hs =>
        obtain ⟨t, _, rfl⟩ := hs
        exact ih
      | operation i c log o next r s hi hguard hperform =>
        rw [total_act _ hi]
        cases o with
        | clock =>
          obtain ⟨_, rfl⟩ := hperform
          exact ih
        | locked key' now =>
          obtain ⟨rfl, rfl⟩ := hperform
          refine bounded_admit hd ih ?_
          rintro rfl
          exact hguard now next rfl
  have hle := (kept_bucket 0 hd hbounded).le hd
  rw [PrincipalRateLimiter.ratePerSecond] at hle
  rwa [mul_div_assoc]

/-! ### Out of order -/

/-- One request a second, one at a time. -/
def slowLimiter : PrincipalRateLimiter := ⟨60, 1, by decide, by decide⟩

def caller : Principal := (py "tenant", py "principal")

def respond (L : PrincipalRateLimiter) (_ : Unit) (s : LimiterState) :
    (o : LimiterOp) → LimiterReply o × LimiterState
  | .clock => (s.time, s)
  | .locked key now =>
    ((L.allowLocked key now s.buckets).1, { s with buckets := (L.allowLocked key now s.buckets).2 })

theorem respond_performs (L : PrincipalRateLimiter) (e : Unit) (s : LimiterState) (o : LimiterOp) :
    (limiterMachine L).perform s o (respond L e s o).1 (respond L e s o).2 := by
  cases o <;> exact ⟨rfl, rfl⟩

/-- One call after the other stays within the bound. -/
theorem admitted_le_first : ∃ sys : LimiterSystem,
    sys.total (admitted caller 0 0) = 1 ∧
      (sys.total (admitted caller 0 0) : ℚ) ≤ slowLimiter.burst + 0 * 60 / 60 := by
  have hstart : Reaches (limiterMachine slowLimiter) (InOrder caller)
      (System.idle (LimiterState.initial 0)) _ := (Reaches.refl _).tail (.start caller)
  have hread := hstart.tail (.operation 0 caller [] .clock _ _ _ rfl
    (by rintro now next ⟨⟩) (respond_performs slowLimiter () _ .clock))
  have hlocked := hread.tail (.operation 0 caller _ (.locked caller 0) _ _ _ rfl
    (by rintro now next hprogram b ⟨⟩) (respond_performs slowLimiter () _ (.locked caller 0)))
  exact ⟨_, by decide +kernel, admitted_le hlocked 0 0 (le_refl 0)⟩

/-- A thread that read the clock ten seconds ago takes the lock after the first call. -/
def lateThread : List (Turn Principal Unit) :=
  [.start caller, .act 1 (), .act 1 (), .act 0 (), .start caller, .act 2 (), .act 2 ()]

def beforeTick : LimiterSystem :=
  (System.idle (LimiterState.initial 0)).play allow (respond slowLimiter) [.start caller, .act 0 ()]

def afterTick : LimiterSystem :=
  System.play allow (respond slowLimiter)
    { beforeTick with state := { beforeTick.state with time := 10 } } lateThread

/-- Two calls are admitted in the same second. -/
theorem not_admitted_le_always :
    ¬∀ (L : PrincipalRateLimiter) (t : ℚ) (sys : LimiterSystem),
      Reaches (limiterMachine L) Unguarded (System.idle (LimiterState.initial t)) sys →
      ∀ (key : Principal) (start d : ℚ), 0 ≤ d →
        (sys.total (admitted key start d) : ℚ) ≤ L.burst + d * L.requestsPerMinute / 60 := by
  intro hall
  have hbefore : Reaches (limiterMachine slowLimiter) Unguarded
      (System.idle (LimiterState.initial 0)) beforeTick :=
    reaches_play (respond_performs slowLimiter) _
  have htick := hbefore.tail (.external { beforeTick.state with time := 10 }
    ⟨10, by decide +kernel, rfl⟩)
  have hafter := htick.trans (reaches_play (respond_performs slowLimiter) lateThread)
  have hbound := hall slowLimiter 0 afterTick hafter caller 10 0 (le_refl 0)
  have hcount : afterTick.total (admitted caller 10 0) = 2 := by decide +kernel
  rw [hcount] at hbound
  revert hbound
  decide +kernel

end RateLimiter
