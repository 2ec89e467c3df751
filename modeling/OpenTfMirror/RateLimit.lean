import Mathlib.Algebra.Order.Ring.Rat
import Mathlib.Logic.Relation
import Mathlib.Tactic.Linarith
import Mathlib.Tactic.Positivity

/-!
# The rate limiter of the provider routes

`TokenBucket` and `enforce_rate_limit`. A call reads its instant before it waits
for the lock, so calls may enter in another order than that of their instants.
Tokens and durations are exact rationals; instants are nanoseconds.
-/

namespace OpenTfMirror.RateLimit

/-- The state behind the lock. -/
structure BucketState where
  tokens : ℚ
  lastRefill : ℕ
  deriving DecidableEq, Repr

/-- The limits of a bucket, which are positive. -/
structure TokenBucket where
  qps : ℕ
  burst : ℕ
  qps_pos : 0 < qps
  burst_pos : 0 < burst

/-- `TokenBucket::new`, but for the state. -/
def TokenBucket.new (qps burst : ℕ) : TokenBucket where
  qps := max qps 1
  burst := max burst 1
  qps_pos := by omega
  burst_pos := by omega

/-- `Duration::as_secs_f64`, exactly. -/
def asSecs (nanoseconds : ℕ) : ℚ := nanoseconds / 10 ^ 9

/-- `TokenBucket::try_acquire` from the lock on; `duration_since` saturates. -/
def TokenBucket.tryAcquire (bucket : TokenBucket) (now : ℕ) (state : BucketState) :
    Bool × BucketState :=
  let elapsed := asSecs (now - state.lastRefill)
  let tokens := min (state.tokens + elapsed * bucket.qps) bucket.burst
  if tokens < 1 then (false, ⟨tokens, now⟩) else (true, ⟨tokens - 1, now⟩)

/-- What becomes of a request. -/
inductive Answer where
  | passedOn
  | tooManyRequests (retryAfter : String)
  deriving DecidableEq, Repr

/-- `enforce_rate_limit`. -/
def enforceRateLimit (bucket : TokenBucket) (now : ℕ) (state : BucketState) :
    Answer × BucketState :=
  match bucket.tryAcquire now state with
  | (true, state) => (.passedOn, state)
  | (false, state) => (.tooManyRequests "1", state)

/-- The limiter with the requests that read their instant and wait for the lock,
and a record of those that entered, the latest first. -/
structure Limiter where
  clock : ℕ
  waiting : List ℕ
  state : BucketState
  entered : List (ℕ × Answer)
  deriving DecidableEq, Repr

/-- A new limiter with a full bucket. -/
def Limiter.new (bucket : TokenBucket) (start : ℕ) : Limiter :=
  ⟨start, [], ⟨bucket.burst, start⟩, []⟩

/-- Time passes, a request reads its instant, or a waiting one enters. -/
inductive Event where
  | tick (duration : ℕ)
  | read
  | enter (position : ℕ)
  deriving DecidableEq, Repr

def Limiter.step (bucket : TokenBucket) (l : Limiter) : Event → Option Limiter
  | .tick duration => some { l with clock := l.clock + duration }
  | .read => some { l with waiting := l.waiting ++ [l.clock] }
  | .enter position =>
    match l.waiting[position]? with
    | none => none
    | some now =>
      let (answer, state) := enforceRateLimit bucket now l.state
      some { l with
        waiting := l.waiting.eraseIdx position
        state
        entered := (now, answer) :: l.entered }

/-- All events in a row. -/
def Limiter.run (bucket : TokenBucket) (l : Limiter) : List Event → Option Limiter
  | [] => some l
  | event :: rest =>
    match l.step bucket event with
    | none => none
    | some l => l.run bucket rest

/-- The requests passed on whose instants lie in the window. -/
def Limiter.admittedIn (l : Limiter) (s t : ℕ) : ℕ :=
  l.entered.countP fun e => e.2 = .passedOn && s ≤ e.1 && e.1 ≤ t

/-- The stored tokens are in bounds. -/
def Limiter.TokensInBounds (bucket : TokenBucket) (l : Limiter) : Prop :=
  0 ≤ l.state.tokens ∧ l.state.tokens ≤ bucket.burst

/-- No window sees more requests than the burst and the rate allow. -/
def Limiter.HonoursRate (bucket : TokenBucket) (l : Limiter) : Prop :=
  ∀ s t, s ≤ t → (l.admittedIn s t : ℚ) ≤ bucket.burst + bucket.qps * asSecs (t - s)

/-- The event lets in no request whose instant is before the last refill. -/
def Limiter.inOrder (l : Limiter) : Event → Bool
  | .tick _ | .read => true
  | .enter position => l.waiting[position]?.all fun now => l.state.lastRefill ≤ now

/-- The requests enter in the order of their instants. -/
def Limiter.runInOrder (bucket : TokenBucket) (l : Limiter) : List Event → Bool
  | [] => true
  | event :: rest =>
    l.inOrder event && (l.step bucket event).all fun l' => l'.runInOrder bucket rest

section Steps

variable {bucket : TokenBucket} {l l' : Limiter}

theorem asSecs_nonneg (d : ℕ) : 0 ≤ asSecs d := by
  unfold asSecs
  positivity

/-- Adjacent durations add up. -/
theorem asSecs_add {a b c : ℕ} (hab : a ≤ b) (hbc : b ≤ c) :
    asSecs (c - a) = asSecs (b - a) + asSecs (c - b) := by
  have hsum : c - a = (b - a) + (c - b) := by omega
  unfold asSecs
  rw [hsum, Nat.cast_add, add_div]

/-- A longer duration counts for at least as much. -/
theorem asSecs_mono {a b : ℕ} (h : a ≤ b) : asSecs a ≤ asSecs b := by
  unfold asSecs
  have hcast : (a : ℚ) ≤ b := Nat.cast_le.mpr h
  linarith

/-- What a request that enters does to the bucket. -/
theorem enforceRateLimit_cases (bucket : TokenBucket) (now : ℕ) (state : BucketState) :
    ∃ tokens : ℚ, tokens = min (state.tokens + asSecs (now - state.lastRefill) * bucket.qps)
        bucket.burst ∧
      ((tokens < 1 ∧ enforceRateLimit bucket now state = (.tooManyRequests "1", ⟨tokens, now⟩)) ∨
        (1 ≤ tokens ∧ enforceRateLimit bucket now state = (.passedOn, ⟨tokens - 1, now⟩))) := by
  refine ⟨_, rfl, ?_⟩
  unfold enforceRateLimit TokenBucket.tryAcquire
  dsimp only
  split
  · next h =>
      split at h
      · cases h
      · right
        cases h
        exact ⟨by linarith, rfl⟩
  · next h =>
      split at h
      · left
        cases h
        exact ⟨by assumption, rfl⟩
      · cases h

/-- An event leaves the bucket and its record alone, or lets one request in. -/
theorem step_cases {event : Event} (h : l.step bucket event = some l') :
    (l'.state = l.state ∧ l'.entered = l.entered) ∨
      ∃ position now, event = .enter position ∧ l.waiting[position]? = some now ∧
        l'.state = (enforceRateLimit bucket now l.state).2 ∧
        l'.entered = (now, (enforceRateLimit bucket now l.state).1) :: l.entered := by
  cases event with
  | tick duration =>
    cases h
    exact .inl ⟨rfl, rfl⟩
  | read =>
    cases h
    exact .inl ⟨rfl, rfl⟩
  | enter position =>
    unfold Limiter.step at h
    dsimp only at h
    cases hwaiting : l.waiting[position]? with
    | none => simp only [hwaiting, reduceCtorEq] at h
    | some now =>
      simp only [hwaiting, Option.some.injEq] at h
      subst h
      exact .inr ⟨position, now, rfl, hwaiting, rfl, rfl⟩

end Steps

section Tokens

variable {bucket : TokenBucket} {l l' : Limiter}

/-- An event keeps the tokens in bounds, whatever the instant. -/
theorem step_tokensInBounds {event : Event} (h : l.step bucket event = some l')
    (hl : l.TokensInBounds bucket) : l'.TokensInBounds bucket := by
  obtain ⟨hlow, hhigh⟩ := hl
  rcases step_cases h with ⟨hstate, _⟩ | ⟨position, now, _, _, hstate, _⟩
  · unfold Limiter.TokensInBounds
    rw [hstate]
    exact ⟨hlow, hhigh⟩
  · obtain ⟨tokens, htokens, hcases⟩ := enforceRateLimit_cases bucket now l.state
    have hgain : 0 ≤ asSecs (now - l.state.lastRefill) * bucket.qps :=
      mul_nonneg (asSecs_nonneg _) (Nat.cast_nonneg _)
    have hnonneg : 0 ≤ tokens := by
      rw [htokens]
      exact le_min (by linarith) (Nat.cast_nonneg _)
    have hcap : tokens ≤ bucket.burst := by
      rw [htokens]
      exact min_le_right _ _
    unfold Limiter.TokensInBounds
    rw [hstate]
    rcases hcases with ⟨_, heq⟩ | ⟨hone, heq⟩
    · rw [heq]
      exact ⟨hnonneg, hcap⟩
    · rw [heq]
      dsimp only
      constructor <;> linarith

theorem run_tokensInBounds {events : List Event} (h : l.run bucket events = some l')
    (hl : l.TokensInBounds bucket) : l'.TokensInBounds bucket := by
  induction events generalizing l with
  | nil =>
    cases h
    exact hl
  | cons event rest ih =>
    unfold Limiter.run at h
    cases hstep : l.step bucket event with
    | none => simp only [hstep, reduceCtorEq] at h
    | some l₁ =>
      simp only [hstep] at h
      exact ih h (step_tokensInBounds hstep hl)

end Tokens

section Windows

variable {bucket : TokenBucket} {l l' : Limiter}

/-- One more request counts in the windows around its instant, if passed on. -/
theorem admittedIn_cons {now : ℕ} {answer : Answer} (h : l'.entered = (now, answer) :: l.entered)
    (s t : ℕ) : l'.admittedIn s t =
      l.admittedIn s t + if answer = .passedOn ∧ s ≤ now ∧ now ≤ t then 1 else 0 := by
  unfold Limiter.admittedIn
  rw [h, List.countP_cons]
  simp [and_assoc]

/-- A window after all instants is empty. -/
theorem admittedIn_after {s last : ℕ} (h : ∀ e ∈ l.entered, e.1 ≤ last) (hs : last < s) (t : ℕ) :
    l.admittedIn s t = 0 := by
  unfold Limiter.admittedIn
  rw [List.countP_eq_zero]
  intro e he
  have hle := h e he
  have hlt : ¬ s ≤ e.1 := by omega
  simp [hlt]

/-- Only instants up to the last one count. -/
theorem admittedIn_upTo {last t : ℕ} (h : ∀ e ∈ l.entered, e.1 ≤ last) (ht : last ≤ t) (s : ℕ) :
    l.admittedIn s t = l.admittedIn s last := by
  unfold Limiter.admittedIn
  apply List.countP_congr
  intro e he
  have hle := h e he
  have hle' : e.1 ≤ t := by omega
  simp [hle, hle']

/-- What holds between events when no request enters late: the requests since
any instant, with the tokens that are left, are within burst and rate. -/
structure Paced (bucket : TokenBucket) (l : Limiter) : Prop where
  tokens : l.TokensInBounds bucket
  entered : ∀ e ∈ l.entered, e.1 ≤ l.state.lastRefill
  since : ∀ s, s ≤ l.state.lastRefill → (l.admittedIn s l.state.lastRefill : ℚ) + l.state.tokens ≤
    bucket.burst + bucket.qps * asSecs (l.state.lastRefill - s)
  honours : l.HonoursRate bucket

theorem paced_new (bucket : TokenBucket) (start : ℕ) : Paced bucket (Limiter.new bucket start) where
  tokens := ⟨Nat.cast_nonneg _, le_refl _⟩
  entered e he := by cases he
  since s _ := by
    have hgain : 0 ≤ bucket.qps * asSecs (start - s) :=
      mul_nonneg (Nat.cast_nonneg _) (asSecs_nonneg _)
    have hnone : (Limiter.new bucket start).admittedIn s start = 0 := rfl
    change ((Limiter.new bucket start).admittedIn s start : ℚ) + bucket.burst ≤ _
    rw [hnone]
    simpa [Limiter.new] using hgain
  honours s t _ := by
    have hgain : 0 ≤ bucket.qps * asSecs (t - s) :=
      mul_nonneg (Nat.cast_nonneg _) (asSecs_nonneg _)
    have hnone : (Limiter.new bucket start).admittedIn s t = 0 := rfl
    rw [hnone]
    have hburst : (0 : ℚ) ≤ bucket.burst := Nat.cast_nonneg _
    simp only [Nat.cast_zero]
    linarith

/-- Before a request enters that is not late: what was passed on since any
instant, with the tokens after the refill. -/
theorem Paced.refilled (h : Paced bucket l) {now : ℕ} (hnow : l.state.lastRefill ≤ now) (s : ℕ) :
    (l.admittedIn s now : ℚ) +
        min (l.state.tokens + asSecs (now - l.state.lastRefill) * bucket.qps) bucket.burst ≤
      bucket.burst + bucket.qps * asSecs (now - s) := by
  have hupTo := admittedIn_upTo h.entered hnow s
  by_cases hle : s ≤ l.state.lastRefill
  · have hsince := h.since s hle
    have hsum := asSecs_add hle hnow
    have hmin := min_le_left (l.state.tokens + asSecs (now - l.state.lastRefill) * bucket.qps)
      (bucket.burst : ℚ)
    rw [hupTo, hsum, mul_add]
    linarith
  · have hzero := admittedIn_after h.entered (Nat.lt_of_not_le hle) now
    have hgain : 0 ≤ bucket.qps * asSecs (now - s) :=
      mul_nonneg (Nat.cast_nonneg _) (asSecs_nonneg _)
    have hmin := min_le_right (l.state.tokens + asSecs (now - l.state.lastRefill) * bucket.qps)
      (bucket.burst : ℚ)
    rw [hzero, Nat.cast_zero]
    linarith

/-- A request that is not late keeps the pace. -/
theorem Paced.enter (h : Paced bucket l) {event : Event} (hstep : l.step bucket event = some l')
    {now : ℕ} (hnow : l.state.lastRefill ≤ now)
    (hstate : l'.state = (enforceRateLimit bucket now l.state).2)
    (hentered : l'.entered = (now, (enforceRateLimit bucket now l.state).1) :: l.entered) :
    Paced bucket l' := by
  have htokens := step_tokensInBounds hstep h.tokens
  obtain ⟨tokens, hrefill, hcases⟩ := enforceRateLimit_cases bucket now l.state
  have hlast : l'.state.lastRefill = now := by
    rcases hcases with ⟨_, heq⟩ | ⟨_, heq⟩ <;> rw [hstate, heq]
  have hbefore : ∀ e ∈ l'.entered, e.1 ≤ l'.state.lastRefill := by
    intro e he
    rw [hentered, List.mem_cons] at he
    rw [hlast]
    rcases he with rfl | he
    · exact le_refl _
    · exact le_trans (h.entered e he) hnow
  have hsince : ∀ s, s ≤ now → (l'.admittedIn s now : ℚ) + l'.state.tokens ≤
      bucket.burst + bucket.qps * asSecs (now - s) := by
    intro s hs
    have hbound := h.refilled hnow s
    rw [← hrefill] at hbound
    have hcount := admittedIn_cons hentered s now
    rcases hcases with ⟨_, heq⟩ | ⟨_, heq⟩
    · rw [hcount, hstate, heq]
      simpa using hbound
    · rw [hcount, hstate, heq]
      simp only [hs, le_refl, and_self, if_true, Nat.cast_add, Nat.cast_one]
      linarith
  refine ⟨htokens, hbefore, ?_, ?_⟩
  · rw [hlast]
    exact hsince
  · intro s t hst
    by_cases ht : now ≤ t
    · rw [admittedIn_upTo (hlast ▸ hbefore) ht]
      by_cases hs : s ≤ now
      · have hbound := hsince s hs
        have hlonger : asSecs (now - s) ≤ asSecs (t - s) := asSecs_mono (by omega)
        have hrate : (bucket.qps : ℚ) * asSecs (now - s) ≤ bucket.qps * asSecs (t - s) :=
          mul_le_mul_of_nonneg_left hlonger (Nat.cast_nonneg _)
        have hleft := htokens.1
        linarith
      · rw [admittedIn_after (hlast ▸ hbefore) (Nat.lt_of_not_le hs)]
        have hgain : 0 ≤ bucket.qps * asSecs (t - s) :=
          mul_nonneg (Nat.cast_nonneg _) (asSecs_nonneg _)
        have hburst : (0 : ℚ) ≤ bucket.burst := Nat.cast_nonneg _
        rw [Nat.cast_zero]
        linarith
    · rw [admittedIn_cons hentered]
      simp only [ht, and_false, if_false, Nat.add_zero]
      exact h.honours s t hst

/-- An event that lets in no late request keeps the pace. -/
theorem Paced.step (h : Paced bucket l) {event : Event} (hstep : l.step bucket event = some l')
    (hordered : l.inOrder event = true) : Paced bucket l' := by
  rcases step_cases hstep with ⟨hstate, hentered⟩ | ⟨position, now, hevent, hwaiting, hstate, hentered⟩
  · have hcount : ∀ s t, l'.admittedIn s t = l.admittedIn s t := by
      intro s t
      unfold Limiter.admittedIn
      rw [hentered]
    refine ⟨step_tokensInBounds hstep h.tokens, ?_, ?_, ?_⟩
    · rw [hstate, hentered]
      exact h.entered
    · intro s
      rw [hstate, hcount]
      exact h.since s
    · intro s t hst
      rw [hcount]
      exact h.honours s t hst
  · subst hevent
    have hnow : l.state.lastRefill ≤ now := by
      simpa [Limiter.inOrder, hwaiting] using hordered
    exact h.enter hstep hnow hstate hentered

theorem Paced.run {events : List Event} (h : Paced bucket l) (hrun : l.run bucket events = some l')
    (hordered : l.runInOrder bucket events = true) : Paced bucket l' := by
  induction events generalizing l with
  | nil =>
    cases hrun
    exact h
  | cons event rest ih =>
    unfold Limiter.run at hrun
    unfold Limiter.runInOrder at hordered
    cases hstep : l.step bucket event with
    | none => simp only [hstep, reduceCtorEq] at hrun
    | some l₁ =>
      simp only [hstep] at hrun
      simp only [hstep, Option.all_some, Bool.and_eq_true] at hordered
      exact ih (h.step hstep hordered.1) hrun hordered.2

end Windows

/-- In every run the stored tokens stay between zero and the burst, and as long
as no request enters with an instant before the last refill, no window sees more
requests than burst and rate allow. -/
theorem rate_honoured (qps burst start : ℕ) (events : List Event) (l : Limiter)
    (hrun : (Limiter.new (.new qps burst) start).run (.new qps burst) events = some l) :
    l.TokensInBounds (.new qps burst) ∧
      ((Limiter.new (.new qps burst) start).runInOrder (.new qps burst) events = true →
        l.HonoursRate (.new qps burst)) := by
  have hnew := paced_new (.new qps burst) start
  constructor
  · exact run_tokensInBounds hrun hnew.tokens
  · intro hordered
    exact (hnew.run hrun hordered).honours

/-- Two requests a second apart, each admitted. -/
theorem rate_honoured_apart :
    ∃ l, (Limiter.new (.new 1 1) 0).run (.new 1 1)
        [.read, .enter 0, .tick (10 ^ 9), .read, .enter 0] = some l ∧
      l.admittedIn 0 (10 ^ 9) = 2 ∧ l.HonoursRate (.new 1 1) := by
  have hrun : ∃ l, (Limiter.new (.new 1 1) 0).run (.new 1 1)
      [.read, .enter 0, .tick (10 ^ 9), .read, .enter 0] = some l ∧
      l.admittedIn 0 (10 ^ 9) = 2 := ⟨_, rfl, by decide +kernel⟩
  obtain ⟨l, hl, hcount⟩ := hrun
  exact ⟨l, hl, hcount, (rate_honoured 1 1 0 _ l hl).2 (by decide +kernel)⟩

/-- A late request sets the last refill back, and the time since is credited a
second time: with one token and one request per second, two requests of the same
instant are passed on. -/
theorem late_request_credits_twice :
    ∃ l, (Limiter.new (.new 1 1) 0).run (.new 1 1)
        [.read, .tick (10 ^ 9), .read, .read, .enter 1, .enter 0, .enter 0] = some l ∧
      ¬ l.HonoursRate (.new 1 1) := by
  have hrun : ∃ l, (Limiter.new (.new 1 1) 0).run (.new 1 1)
      [.read, .tick (10 ^ 9), .read, .read, .enter 1, .enter 0, .enter 0] = some l ∧
      l.admittedIn (10 ^ 9) (10 ^ 9) = 2 := ⟨_, rfl, by decide +kernel⟩
  obtain ⟨l, hl, hcount⟩ := hrun
  refine ⟨l, hl, fun hrate => ?_⟩
  have hbound := hrate (10 ^ 9) (10 ^ 9) (le_refl _)
  rw [hcount] at hbound
  norm_num [TokenBucket.new, asSecs] at hbound

end OpenTfMirror.RateLimit
