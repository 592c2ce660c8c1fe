import Mathlib.Tactic.Linarith

/-!
# Provisioned throughput

A request reads the clock before it takes the lock, so a bucket may get an older reading after a
newer one.
-/

namespace ExtendDb.Throttle

structure TokenBucket where
  tokens : ℚ
  lastRefill : Option ℚ := none

/-- A table's bucket, with the number of admitted requests that have not consumed. -/
structure Table where
  bucket : TokenBucket
  clock : ℚ := 0
  admitted : Nat := 0

/-- A request brings the reading it took when it started, or when it went on to consume. -/
inductive Event where
  | tick (elapsed : ℚ)
  | check (now : ℚ)
  | consume (now amount : ℚ)
  -- a request that was admitted fails before it consumes
  | leave

def Event.units : Event → ℚ
  | .consume _ amount => amount
  | _ => 0

section

variable (r : ℚ)

namespace TokenBucket

def new : TokenBucket := { tokens := r }

variable (b : TokenBucket) (now : ℚ)

def refill : TokenBucket :=
  -- `duration_since` an instant that is still to come is zero
  let elapsed := b.lastRefill.elim 0 fun last => max 0 (now - last)
  ⟨if 0 < elapsed then min (b.tokens + elapsed * r) (r * 300) else b.tokens, some now⟩

def hasCapacity : Bool := 0 < (b.refill r now).tokens

def consume (amount : ℚ) : TokenBucket := ⟨(b.refill r now).tokens - amount, some now⟩

end TokenBucket

namespace Table

variable (s : Table)

def step : Event → Table
  | .tick elapsed => { s with clock := s.clock + elapsed }
  | .check now => ⟨s.bucket.refill r now, s.clock,
      if s.bucket.hasCapacity r now then s.admitted + 1 else s.admitted⟩
  | .consume now amount => ⟨s.bucket.consume r now amount, s.clock, s.admitted - 1⟩
  | .leave => { s with admitted := s.admitted - 1 }

variable (units : ℚ) (limit : Nat)

/-- The clock does not go back, a reading is one of the past and a request consumes once. -/
def Possible : Event → Prop
  | .tick elapsed => 0 ≤ elapsed
  | .check now => now ≤ s.clock
  | .consume now amount => now ≤ s.clock ∧ 0 < s.admitted ∧ 0 < amount ∧ amount ≤ units
  | .leave => 0 < s.admitted

def Run : Table → List Event → Prop
  | _, [] => True
  | s, e :: es => s.Possible units e ∧ (s.step r e).admitted ≤ limit ∧ Run (s.step r e) es

/-- How far a reading lies before the window or before the one the bucket holds. -/
def behind (start : ℚ) : Event → ℚ
  | .tick _ | .leave => 0
  | .check now | .consume now _ => max 0 (max start (s.bucket.lastRefill.getD start) - now)

def lag (start : ℚ) : Table → List Event → ℚ
  | _, [] => 0
  | s, e :: es => s.behind start e + lag start (s.step r e) es

/-- What holds in a window that began at `start`: the units `used` in it are paid for by a full
bucket and the time up to the last reading. -/
structure Window (start used late : ℚ) (s : Table) : Prop where
  le : s.bucket.tokens ≤ r * 300
  ge : -((limit - s.admitted) * units) ≤ s.bucket.tokens
  past : ∀ last ∈ s.bucket.lastRefill, last ≤ s.clock
  clock : start ≤ s.clock
  nonneg : 0 ≤ late
  paid : used = 0 ∨ ∃ last ∈ s.bucket.lastRefill,
    s.bucket.tokens + used ≤ r * (300 + (last - start) + late)

end Table

end

section

variable {r units start used late : ℚ} {limit : Nat} {s : Table} (hr : 0 ≤ r)
include hr

theorem refill_tokens {b : TokenBucket} (hle : b.tokens ≤ r * 300) (now) :
    b.tokens ≤ (b.refill r now).tokens ∧ (b.refill r now).tokens ≤ r * 300 ∧
      ∀ last ∈ b.lastRefill, (b.refill r now).tokens ≤ b.tokens + r * max 0 (now - last) := by
  unfold TokenBucket.refill
  cases b.lastRefill with
  | none => simpa using hle
  | some last =>
    have hcredit := mul_nonneg hr (le_max_left 0 (now - last))
    simp only [Option.elim_some, Option.mem_some_iff, forall_eq', mul_comm _ r]
    split_ifs
    · exact ⟨le_min (by linarith) hle, min_le_right .., min_le_left ..⟩
    · exact ⟨le_refl _, hle, by linarith⟩

namespace Table.Window

theorem consume (h : Window r units limit start used late s) {now} (amount) (admitted : Nat)
    (hnow : now ≤ s.clock) (hamount : 0 ≤ amount)
    (hge : -((limit - admitted) * units) ≤ (s.bucket.refill r now).tokens - amount) :
    Window r units limit start (used + amount)
      (late + max 0 (max start (s.bucket.lastRefill.getD start) - now))
      ⟨s.bucket.consume r now amount, s.clock, admitted⟩ := by
  obtain ⟨-, hfull, hcredit⟩ := refill_tokens hr h.le now
  have hbehind := le_max_right 0 (max start (s.bucket.lastRefill.getD start) - now)
  have hstart := le_max_left start (s.bucket.lastRefill.getD start)
  refine ⟨?_, hge, fun last hlast => Option.some.inj hlast ▸ hnow, h.clock,
    add_nonneg h.nonneg (le_max_left ..), .inr ⟨now, rfl, ?_⟩⟩
  all_goals simp only [TokenBucket.consume]
  · linarith
  rcases h.paid with hnone | ⟨last, hlast, hpaid⟩
  · -- the first units of the window: whatever was credited before, the bucket is at most full
    have hcover := mul_nonneg hr (show 0 ≤ now - start +
      (late + max 0 (max start (s.bucket.lastRefill.getD start) - now)) by linarith [h.nonneg])
    linarith
  · have hcredit := hcredit last hlast
    rw [Option.mem_def.mp hlast, Option.getD_some] at hbehind ⊢
    -- a reading that falls back is credited nothing, and the next one its way forward again
    have hforward : max 0 (now - last) ≤ now - last + max 0 (max start last - now) :=
      max_le (by linarith [le_max_right start last])
        (by linarith [le_max_left 0 (max start last - now)])
    linarith [mul_le_mul_of_nonneg_left hforward hr]

variable (hunits : 0 ≤ units)
include hunits

theorem step (h : Window r units limit start used late s) {e} (hpossible : s.Possible units e)
    (hlimit : (s.step r e).admitted ≤ limit) :
    Window r units limit start (used + e.units) (late + s.behind start e) (s.step r e) := by
  cases e with
  | tick elapsed =>
    have hlater := le_add_of_nonneg_right (a := s.clock) hpossible
    simp only [behind, Event.units, add_zero]
    exact ⟨h.le, h.ge, fun last hlast => (h.past last hlast).trans hlater, h.clock.trans hlater,
      h.nonneg, h.paid⟩
  | check now =>
    -- the bucket of a check is that of a request for no units
    have hcheck := h.consume hr 0 (s.step r (.check now)).admitted hpossible (le_refl _)
    simp only [TokenBucket.consume, sub_zero] at hcheck
    refine hcheck ?_
    simp only [Table.step, TokenBucket.hasCapacity, decide_eq_true_eq] at hlimit ⊢
    split_ifs with hcapacity
    · rw [if_pos hcapacity] at hlimit
      have hroom : (0 : ℚ) ≤ (limit - (s.admitted + 1 : Nat)) * units :=
        mul_nonneg (sub_nonneg.mpr (by exact_mod_cast hlimit)) hunits
      linarith
    · exact h.ge.trans (refill_tokens hr h.le now).1
  | consume now amount =>
    obtain ⟨hnow, hadmitted, hpos, hamount⟩ := hpossible
    refine h.consume hr amount _ hnow hpos.le ?_
    rw [Nat.cast_pred hadmitted]
    linarith [h.ge, (refill_tokens hr h.le now).1]
  | leave =>
    have hleft : ((s.admitted - 1 : ℕ) : ℚ) = s.admitted - 1 := Nat.cast_pred hpossible
    simp only [behind, Event.units, add_zero]
    refine ⟨h.le, ?_, h.past, h.clock, h.nonneg, h.paid⟩
    simp only [Table.step, hleft]
    linarith [h.ge]

theorem run (h : Window r units limit start used late s) {events}
    (hrun : s.Run r units limit events) :
    Window r units limit start (used + (events.map Event.units).sum)
      (late + s.lag r start events) (events.foldl (Table.step r) s) := by
  induction events generalizing s used late with
  | nil => simpa [lag] using h
  | cons e es ih =>
    obtain ⟨hpossible, hlimit, hrun⟩ := hrun
    rw [lag, List.map_cons, List.sum_cons, ← add_assoc, ← add_assoc]
    exact ih (h.step hr hunits hpossible hlimit) hrun

end Table.Window

end

/-- In any window of a run the units consumed are at most those of a full bucket, of the time and of
the admitted requests, and of what readings lie behind the window or one another. -/
theorem throughput_bound {r : ℚ} (hr : 0 ≤ r) (units) (hunits : 0 ≤ units) (limit : Nat)
    (earlier window : List Event)
    (hearlier : Table.Run r units limit { bucket := .new r } earlier) :
    let s := earlier.foldl (Table.step r) { bucket := .new r }
    let s' := window.foldl (Table.step r) s
    s.Run r units limit window → s'.bucket.tokens ≤ 300 * r ∧ (window.map Event.units).sum ≤
      300 * r + r * (s'.clock - s.clock + s.lag r s.clock window) + limit * units := by
  intro s s' hwindow
  have hreserve := mul_nonneg limit.cast_nonneg hunits
  have hnew : Table.Window r units limit 0 0 0 { bucket := .new r } :=
    ⟨show r ≤ r * 300 by linarith, show -((limit - (0 : Nat)) * units) ≤ r by
      rw [Nat.cast_zero, sub_zero]
      linarith, (fun last hlast => by cases hlast), le_refl _, le_refl _, .inl rfl⟩
  obtain ⟨hle, hge, hpast, -⟩ := hnew.run hr hunits hearlier
  have hopen : Table.Window r units limit s.clock 0 0 s :=
    ⟨hle, hge, hpast, le_refl _, le_refl _, .inl rfl⟩
  obtain ⟨hle, hge, hpast, hclock, hlate, hpaid⟩ := hopen.run hr hunits hwindow
  have hslack : (limit - s'.admitted) * units ≤ limit * units :=
    mul_le_mul_of_nonneg_right (sub_le_self _ s'.admitted.cast_nonneg) hunits
  rw [zero_add] at hlate hpaid
  refine ⟨by linarith, ?_⟩
  rcases hpaid with hnone | ⟨last, hlast, hpaid⟩
  · have := mul_nonneg hr (show 0 ≤ s'.clock - s.clock + s.lag r s.clock window by linarith)
    linarith
  · have := mul_le_mul_of_nonneg_left (hpast last hlast) hr
    linarith

def idle : List Event := [.check 0, .tick 300]

def delayed : List Event :=
  [.check 300, .consume 300 400, .check 0, .check 300, .consume 300 400, .check 0, .check 300,
    .consume 300 400]

theorem delayed_runs : Table.Run 1 400 2 { bucket := .new 1 } (idle ++ delayed) := by
  norm_num [idle, delayed, Table.Run, Table.Possible, Table.step, TokenBucket.new,
    TokenBucket.refill, TokenBucket.hasCapacity, TokenBucket.consume]

theorem throughput_bound_delayed :
    let s := idle.foldl (Table.step 1) { bucket := .new 1 }
    let s' := delayed.foldl (Table.step 1) s
    s'.bucket.tokens ≤ 300 * 1 ∧ (delayed.map Event.units).sum ≤
      300 * 1 + 1 * (s'.clock - s.clock + s.lag 1 s.clock delayed) + (2 : ℕ) * 400 := by
  obtain ⟨hcheck, hchecked, htick, hticked, hdelayed⟩ := delayed_runs
  exact throughput_bound zero_le_one 400 (by norm_num) 2 idle delayed
    ⟨hcheck, hchecked, htick, hticked, trivial⟩ hdelayed

/-- Each delayed reading lets the same time be credited once more: a window in which the clock
stands still consumes more than a full bucket and two requests. -/
theorem throughput_exceeded : let s := idle.foldl (Table.step 1) { bucket := .new 1 }
    Table.Run 1 400 2 { bucket := .new 1 } (idle ++ delayed) ∧
      (delayed.foldl (Table.step 1) s).clock = s.clock ∧
      300 * 1 + 1 * 0 + 2 * 400 < (delayed.map Event.units).sum :=
  ⟨delayed_runs, rfl, by norm_num [delayed, Event.units]⟩

end ExtendDb.Throttle
