import TradingRules.Proofs.Market.Turns

/-!
# Disposal

Disposal takes the pool of lookups away, tells the refresh loop to stop, waits for it for a while,
and cancels the lookups that have not begun. When it has come to its end, no loop is launched any
more, and the source is asked for nothing, with two exceptions. A lookup can still be started; it is
left to a pool of its own, which nothing shuts down. And the loop finds out only when it rests that
it was told to stop, so one that was waited for in vain may make one more request.
-/

namespace TradingRules.Market

namespace Stand

/-- How many requests the loop still makes when it has been told to stop. -/
def left : Stand → Nat
  | launched | polled | asking .price => 1
  | absent | asking .firstCandles | asking .candles | resting | ended => 0

theorem left_of_next? {stand : Stand} {chore : Chore} (h : stand.next? true = some chore) :
    1 + (asking chore).left ≤ stand.left := by
  cases stand <;> cases h <;> exact Nat.le_refl 1

theorem left_after (chore : Chore) : (after chore).left = (asking chore).left := by
  cases chore <;> rfl

end Stand

/-- What has yet to begin after a pool was shut down was left to another one. -/
theorem Job.pool_ne_of_shutDown {pool : Option Nat} {j : Job}
    (h : (j.shutDown pool).isQueued = true) : pool ≠ some j.pool := by
  rw [shutDown] at h
  split at h
  · cases h
  · rename_i hkept
    exact fun hpool => hkept (by rw [hpool, h, beq_self_eq_true, Bool.and_self])

@[simp] theorem Job.pool_shutDown (pool : Option Nat) (j : Job) :
    (j.shutDown pool).pool = j.pool := by
  rcases shutDown_cases pool j with h | ⟨-, h⟩ <;> rw [h]

namespace Threads

/-- The lookup of a period was called for. -/
def CallsFor (p : Period) (happenings : List Happening) : Prop :=
  ∃ unit length, .warmUp unit length ∈ happenings ∧ periodOf unit length = .ok p

theorem CallsFor.append {p : Period} {past : List Happening} (h : CallsFor p past)
    (more : List Happening) : CallsFor p (past ++ more) := by
  obtain ⟨unit, length, hmem, hperiod⟩ := h
  exact ⟨unit, length, List.mem_append_left more hmem, hperiod⟩

variable {t t' : Threads} {h : Happening}

/-! ### What is left to pools -/

/-- No lookups but those that there were, some of which may have begun. -/
def Advance (jobs jobs' : List Job) : Prop :=
  ∀ j' ∈ jobs', ∃ j ∈ jobs, j'.period = j.period ∧ j'.pool = j.pool ∧
    (j'.isQueued = true → j.isQueued = true)

theorem advance_refl (jobs : List Job) : Advance jobs jobs :=
  fun j hj => ⟨j, hj, rfl, rfl, id⟩

theorem advance_set {jobs : List Job} {i : Nat} {j k : Job} (hj : jobs[i]? = some j)
    (hperiod : k.period = j.period) (hpool : k.pool = j.pool) (hbegun : k.isQueued = false) :
    Advance jobs (jobs.set i k) := by
  intro j' hj'
  rcases List.mem_or_eq_of_mem_set hj' with hold | rfl
  · exact advance_refl jobs j' hold
  · refine ⟨j, List.mem_of_getElem? hj, hperiod, hpool, fun hqueued => ?_⟩
    cases hbegun.symm.trans hqueued

/-- Lookups come further, and nothing else happens to them, to the pools, or to disposal. -/
structure Onward (t t' : Threads) : Prop where
  connected : t'.market.connected = t.market.connected
  disposed : t'.market.disposed = t.market.disposed
  loops : t.market.disposed = true → t'.loops = t.loops
  pool : t'.pool = t.pool
  pools : t'.pools = t.pools
  retired : t'.retired = t.retired
  halted : t'.halted = t.halted
  closed : t'.closed = t.closed
  jobs : Advance t.jobs t'.jobs

theorem onward_of_advance {market : Market} {loop : Stand} {jobs : List Job} {asked : List Errand}
    {answers : List (Errand × Outcome Value)} (hconnected : market.connected = t.market.connected)
    (hdisposed : market.disposed = t.market.disposed) (hjobs : Advance t.jobs jobs) :
    t.Onward { t with market, loop, jobs, asked, answers } :=
  ⟨hconnected, hdisposed, fun _ => rfl, rfl, rfl, rfl, rfl, rfl, hjobs⟩

theorem onward_of_unaffected {market : Market} {loop : Stand} {asked : List Errand}
    {answers : List (Errand × Outcome Value)} (hmarket : t.market.Unaffected market) :
    t.Onward { t with market, loop, asked, answers } :=
  onward_of_advance hmarket.connected hmarket.disposed (advance_refl t.jobs)

/-- No loop is launched any more when the market data have been disposed of. -/
theorem start_of_disposed (hdisposed : t.market.disposed = true) : t.start = t := by
  have hstart : t.market.start.2 = t.market := by simp [Market.start, hdisposed]
  rw [start, hstart]
  simp

theorem onward_start (t : Threads) : t.Onward t.start := by
  have honward : t.Onward { t with market := t.market.start.2 } :=
    onward_of_unaffected (unaffected_start t.market)
  cases hdisposed : t.market.disposed with
  | true =>
    rw [start_of_disposed hdisposed]
    exact onward_of_advance rfl rfl (advance_refl t.jobs)
  | false =>
    rw [start]
    split
    · exact { honward with loops := fun h => by cases h.symm.trans hdisposed }
    · exact honward

/-- Only calls for lookups, and disposal, make a difference to what is left to pools. -/
theorem Takes.onward_or (ht : t.Takes h t') : t.Onward t' ∨
    (∃ unit length, h = .warmUp unit length ∧ t' = t.warmUp unit length) ∨
    t' = t.retire ∨ (t.market.disposed = true ∧ t' = { t with halted := true }) ∨
    (t.halted = true ∧ t' = t.close) := by
  cases ht with
  | warmUp unit length => exact .inr (.inl ⟨unit, length, rfl, rfl⟩)
  | retire => exact .inr (.inr (.inl rfl))
  | halt hdisposed => exact .inr (.inr (.inr (.inl ⟨hdisposed, rfl⟩)))
  | close hhalted => exact .inr (.inr (.inr (.inr ⟨hhalted, rfl⟩)))
  | start => exact .inl (onward_start t)
  | ingest batch => exact .inl (onward_of_unaffected (unaffected_ingest t.market batch))
  | setLive price => exact .inl (onward_of_unaffected (unaffected_setLive t.market price))
  | @reply chore answer =>
    exact .inl (onward_of_unaffected (unaffected_told t.market answer chore))
  | ask | rest | leave => exact .inl (onward_of_advance rfl rfl (advance_refl t.jobs))
  | lookUp hj => exact .inl (onward_of_advance rfl rfl (advance_set hj rfl rfl rfl))
  | answer answer hj => exact .inl (onward_of_advance rfl rfl (advance_set hj rfl rfl rfl))
  | @land i j answer hj =>
    obtain ⟨-, hconnected, hdisposed⟩ := runLookup_kept (.always answer) t.market () j.period
    exact .inl (onward_of_advance hconnected hdisposed (advance_set hj rfl rfl rfl))

/-- The parts of disposal come in their order, and before it all lookups are left to the pool that
it takes away. -/
structure Orderly (t : Threads) : Prop where
  connected : t.market.connected = true
  halted : t.halted = true → t.market.disposed = true
  closed : t.closed = true → t.halted = true
  pooled : t.market.disposed = false → ∀ j ∈ t.jobs, t.pool = some j.pool

theorem orderly_new (settings : Settings) : Orderly (new settings) :=
  ⟨rfl, nofun, nofun, fun _ => nofun⟩

theorem Orderly.step (ho : Orderly t) (ht : t.Takes h t') : Orderly t' := by
  rcases ht.onward_or with hon | ⟨unit, length, -, rfl⟩ | rfl | ⟨hdisposed, rfl⟩ | ⟨hhalted, rfl⟩
  · refine ⟨hon.connected.trans ho.connected, ?_, ?_, fun hopen j' hj' => ?_⟩
    · rw [hon.halted, hon.disposed]
      exact ho.halted
    · rw [hon.closed, hon.halted]
      exact ho.closed
    · obtain ⟨j, hj, -, hpool, -⟩ := hon.jobs j' hj'
      rw [hon.pool, hpool]
      exact ho.pooled (hon.disposed.symm.trans hopen) j hj
  · rcases warmUp_cases ho.connected unit length with hsame | ⟨p, -, -, hsubmit⟩
    · rwa [hsame]
    · rw [hsubmit]
      -- There is a pool if a lookup was left to it, and the new one is left to the same.
      refine ⟨ho.connected, ho.halted, ho.closed, fun hopen j hj => ?_⟩
      rcases List.mem_append.mp hj with hold | hnew
      · have hpool := ho.pooled hopen j hold
        simp [submit, hpool]
      · rw [List.mem_singleton.mp hnew]
        rfl
  · rw [retire]
    split
    · exact ho
    · exact ⟨ho.connected, fun _ => rfl, ho.closed, fun hopen => by cases hopen⟩
  · refine ⟨ho.connected, fun _ => hdisposed, fun _ => rfl, fun hopen => ?_⟩
    cases hopen.symm.trans hdisposed
  · refine ⟨ho.connected, ho.halted, fun _ => hhalted, fun hopen => ?_⟩
    cases hopen.symm.trans (ho.halted hhalted)

theorem Orderly.run {happenings : List Happening} (ho : Orderly t)
    (hrun : run? happenings t = some t') : Orderly t' :=
  run?_induction (P := fun _ => Orderly) (fun ho ht => ho.step ht) [] ho hrun

/-! ### From the beginning of disposal -/

/-- Disposal has begun in the state `t₀`, and this has happened since. -/
structure Winding (t₀ : Threads) (past : List Happening) (t : Threads) : Prop where
  connected : t.market.connected = true
  disposed : t.market.disposed = true
  loops : t.loops = t₀.loops
  pools : t.pools = t₀.pools + t.pool.isSome.toNat
  pool : t.pool.isSome = true → ∃ p, CallsFor p past
  /-- What was not left to the pool that disposal has taken away has been called for since. -/
  late : ∀ j ∈ t.jobs, t.retired = some j.pool ∨ CallsFor j.period past
  cancelled : t.closed = true → ∀ j ∈ t.jobs, j.isQueued = true → CallsFor j.period past

variable {t₀ t₁ : Threads} {past : List Happening}

theorem retire_of_open (hopen : t.market.disposed = false) : t.retire = { t with
    market := { t.market with disposed := true }, retired := t.pool, pool := none } :=
  if_neg (Bool.not_eq_true _ ▸ hopen)

theorem Orderly.winding (ho : Orderly t) (hopen : t.market.disposed = false) :
    Winding t [] t.retire := by
  have hhalted : t.halted ≠ true := fun hhalted => by cases hopen.symm.trans (ho.halted hhalted)
  rw [retire_of_open hopen]
  exact ⟨ho.connected, rfl, rfl, rfl, nofun, fun j hj => .inl (ho.pooled hopen j hj),
    fun hclosed => absurd (ho.closed hclosed) hhalted⟩

/-- What has happened since may be more than what is known. -/
theorem Winding.append (hw : Winding t₀ past t) (more : List Happening) :
    Winding t₀ (past ++ more) t where
  connected := hw.connected
  disposed := hw.disposed
  loops := hw.loops
  pools := hw.pools
  pool hpool := by
    obtain ⟨p, hp⟩ := hw.pool hpool
    exact ⟨p, hp.append more⟩
  late j hj := (hw.late j hj).imp_right fun hcalls => hcalls.append more
  cancelled hclosed j hj hqueued := (hw.cancelled hclosed j hj hqueued).append more

theorem Winding.onward (hw : Winding t₀ past t) (hon : t.Onward t') : Winding t₀ past t' where
  connected := hon.connected.trans hw.connected
  disposed := hon.disposed.trans hw.disposed
  loops := (hon.loops hw.disposed).trans hw.loops
  pools := by
    rw [hon.pools, hon.pool]
    exact hw.pools
  pool := by
    rw [hon.pool]
    exact hw.pool
  late j' hj' := by
    obtain ⟨j, hj, hperiod, hpool, -⟩ := hon.jobs j' hj'
    rw [hon.retired, hpool, hperiod]
    exact hw.late j hj
  cancelled hclosed j' hj' hqueued := by
    obtain ⟨j, hj, hperiod, -, hbefore⟩ := hon.jobs j' hj'
    rw [hperiod]
    exact hw.cancelled (hon.closed.symm.trans hclosed) j hj (hbefore hqueued)

/-- A lookup that is started now is left to a pool that was created since disposal has begun. -/
theorem Winding.submit (hw : Winding t₀ past t) {p : Period} (hp : CallsFor p past)
    {market : Market} (hmarket : market.connected = true ∧ market.disposed = true) :
    Winding t₀ past (submit { t with market } p) where
  connected := hmarket.1
  disposed := hmarket.2
  loops := hw.loops
  pools := by
    show (if t.pool.isSome then t.pools else t.pools + 1) = t₀.pools + 1
    rw [hw.pools]
    cases t.pool <;> rfl
  pool _ := ⟨p, hp⟩
  late j hj := by
    rcases List.mem_append.mp hj with hold | hnew
    · exact hw.late j hold
    · rw [List.mem_singleton.mp hnew]
      exact .inr hp
  cancelled hclosed j hj hqueued := by
    rcases List.mem_append.mp hj with hold | hnew
    · exact hw.cancelled hclosed j hold hqueued
    · rwa [List.mem_singleton.mp hnew]

/-- At its end, disposal leaves only lookups to begin that were started since it has begun. -/
theorem Winding.close (hw : Winding t₀ past t) : Winding t₀ past t.close where
  connected := hw.connected
  disposed := hw.disposed
  loops := hw.loops
  pools := hw.pools
  pool := hw.pool
  late j' hj' := by
    obtain ⟨j, hj, rfl⟩ := List.mem_map.mp hj'
    rw [Job.pool_shutDown, Job.period_shutDown]
    exact hw.late j hj
  cancelled _ j' hj' hqueued := by
    obtain ⟨j, hj, rfl⟩ := List.mem_map.mp hj'
    rw [Job.period_shutDown]
    exact (hw.late j hj).resolve_left (Job.pool_ne_of_shutDown hqueued)

theorem Winding.step (hw : Winding t₀ past t) (ht : t.Takes h t') :
    Winding t₀ (past ++ [h]) t' := by
  have hw := hw.append [h]
  rcases ht.onward_or with hon | ⟨unit, length, rfl, rfl⟩ | rfl | ⟨-, rfl⟩ | ⟨-, rfl⟩
  · exact hw.onward hon
  · rcases warmUp_cases hw.connected unit length with hsame | ⟨p, hperiod, -, hsubmit⟩
    · rwa [hsame]
    · rw [hsubmit]
      have hcalls : CallsFor p (past ++ [.warmUp unit length]) :=
        ⟨unit, length, List.mem_append_right past List.mem_cons_self, hperiod⟩
      exact hw.submit hcalls ⟨hw.connected, hw.disposed⟩
  · rwa [retire, if_pos hw.disposed]
  · exact { hw with }
  · exact hw.close

theorem Winding.run {happenings : List Happening} (hw : Winding t₀ past t)
    (hrun : run? happenings t = some t') : Winding t₀ (past ++ happenings) t' :=
  run?_induction (fun hw ht => hw.step ht) past hw hrun

/-! ### From the end of disposal -/

/-- Disposal has come to its end in the state `t₁`. The source has been asked for no more than the
loop had left to ask for, and for lookups that were started since disposal has begun. -/
structure Trailing (t₁ : Threads) (past : List Happening) (t : Threads) : Prop where
  halted : t.halted = true
  closed : t.closed = true
  asked : ∃ new, t.asked = t₁.asked ++ new ∧
    new.countP (!·.isLookup) + t.loop.left ≤ t₁.loop.left ∧
    ∀ p, .highest p ∈ new → CallsFor p past

/-- Nothing is asked for, and the loop does not come to have more left to ask for. -/
theorem Trailing.quiet (htr : Trailing t₁ past t) (hhalted : t'.halted = true)
    (hclosed : t'.closed = true) (hasked : t'.asked = t.asked)
    (hleft : t'.loop.left ≤ t.loop.left) : Trailing t₁ past t' := by
  obtain ⟨new, hnew, hcount, hcalls⟩ := htr.asked
  exact ⟨hhalted, hclosed, new, hasked.trans hnew,
    Nat.le_trans (Nat.add_le_add_left hleft _) hcount, hcalls⟩

/-- Something is asked for that the loop had left, or that was called for since disposal began. -/
theorem Trailing.request (htr : Trailing t₁ past t) {errand : Errand} {loop : Stand}
    {jobs : List Job} (hleft : (!errand.isLookup).toNat + loop.left ≤ t.loop.left)
    (hcalled : ∀ p, errand = .highest p → CallsFor p past) :
    Trailing t₁ past { t with loop, jobs, asked := t.asked ++ [errand] } := by
  obtain ⟨new, hnew, hcount, hcalls⟩ := htr.asked
  refine ⟨htr.halted, htr.closed, new ++ [errand], ?_, ?_, fun p hp => ?_⟩
  · rw [hnew, List.append_assoc]
  · have hone : [errand].countP (!·.isLookup) = (!errand.isLookup).toNat := by
      cases errand <;> rfl
    show _ + loop.left ≤ _
    rw [List.countP_append, hone]
    omega
  · rcases List.mem_append.mp hp with hold | hlast
    · exact hcalls p hold
    · exact hcalled p (List.mem_singleton.mp hlast).symm

theorem Trailing.step (htr : Trailing t₁ past t) (hw : Winding t₀ past t) (ht : t.Takes h t') :
    Trailing t₁ (past ++ [h]) t' := by
  have hmore : Trailing t₁ (past ++ [h]) t := by
    obtain ⟨new, hnew, hcount, hcalls⟩ := htr.asked
    exact ⟨htr.halted, htr.closed, new, hnew, hcount, fun p hp => (hcalls p hp).append [h]⟩
  cases ht with
  | start => rwa [start_of_disposed hw.disposed]
  | warmUp unit length =>
    rcases warmUp_cases hw.connected unit length with hsame | ⟨p, -, -, hsubmit⟩
    · rwa [hsame]
    · rw [hsubmit]
      exact { hmore with }
  | ingest | setLive | answer | land => exact { hmore with }
  | retire => rwa [retire, if_pos hw.disposed]
  | halt => exact { hmore with halted := rfl }
  | close hhalted hopen => cases hopen.symm.trans htr.closed
  | ask hnext =>
    rw [htr.halted] at hnext
    exact hmore.request (Stand.left_of_next? hnext) fun p hp => by cases hp
  | reply answer hasking =>
    exact hmore.quiet htr.halted htr.closed rfl (hasking ▸ Nat.le_of_eq (Stand.left_after _))
  | rest | leave => exact hmore.quiet htr.halted htr.closed rfl (Nat.zero_le _)
  | @lookUp i j hj hqueued =>
    -- The lookups that disposal found waiting are cancelled, so this one was started since.
    have hcalls := hw.cancelled htr.closed j (List.mem_of_getElem? hj) hqueued
    refine hmore.request (Nat.le_of_eq (Nat.zero_add _)) fun p hp => ?_
    cases hp
    exact hcalls.append _

theorem Trailing.run {happenings : List Happening} (htr : Trailing t₁ past t)
    (hw : Winding t₀ past t) (hrun : run? happenings t = some t') :
    Trailing t₁ (past ++ happenings) t' :=
  (run?_induction (P := fun past t => Winding t₀ past t ∧ Trailing t₁ past t)
    (fun h ht => ⟨h.1.step ht, h.2.step h.1 ht⟩) past ⟨hw, htr⟩ hrun).2

theorem eq_nil_of_no_request {errands : List Errand} (hchores : errands.countP (!·.isLookup) = 0)
    (hlookups : ∀ p, .highest p ∉ errands) : errands = [] := by
  rw [List.eq_nil_iff_forall_not_mem]
  intro errand herrand
  cases errand with
  | chore chore => exact List.countP_eq_zero.mp hchores _ herrand rfl
  | highest p => exact hlookups p herrand

/-- When disposal has come to its end, no loop is launched any more. The loop that there is makes at
most the request that it was about to make, and none but lookups that were started since disposal
began are asked for. Without calls for such lookups no pool is created, and if the loop had nothing
left to ask for, the source is asked for nothing at all. -/
theorem requests_end_with_disposal (settings : Settings) {before during after : List Happening}
    {t₂ : Threads} (hbefore : run? before (new settings) = some t₀)
    (hopen : t₀.market.disposed = false) (hduring : run? (.retire :: during) t₀ = some t₁)
    (hclosed : t₁.closed = true) (hafter : run? after t₁ = some t₂) :
    t₂.loops = t₀.loops ∧ t₂.pools ≤ t₀.pools + 1 ∧
      (∃ new, t₂.asked = t₁.asked ++ new ∧ new.countP (!·.isLookup) ≤ t₁.loop.left ∧
        ∀ p, .highest p ∈ new → CallsFor p (during ++ after)) ∧
      ((∀ p, ¬CallsFor p (during ++ after)) →
        t₂.pools = t₀.pools ∧ (t₁.loop.left = 0 → t₂.asked = t₁.asked)) := by
  have hordered : Orderly t₀ := (orderly_new settings).run hbefore
  have hhalted : t₁.halted = true := (hordered.run hduring).closed hclosed
  obtain ⟨next, hretire, hduring⟩ := run?_cons.mp hduring
  cases hretire
  have hended : Winding t₀ during t₁ := (hordered.winding hopen).run hduring
  have hw : Winding t₀ (during ++ after) t₂ := hended.run hafter
  have hstill : Trailing t₁ during t₁ :=
    ⟨hhalted, hclosed, [], (List.append_nil _).symm, Nat.le_of_eq (Nat.zero_add _), nofun⟩
  obtain ⟨new, hnew, hcount, hcalls⟩ := (hstill.run hended hafter).asked
  have hchores : new.countP (!·.isLookup) ≤ t₁.loop.left := Nat.le_of_add_right_le hcount
  refine ⟨hw.loops, ?_, ⟨new, hnew, hchores, hcalls⟩, fun hnone => ⟨?_, fun hleft => ?_⟩⟩
  · rw [hw.pools]
    exact Nat.add_le_add_left (Bool.toNat_le _) _
  · have hpool : t₂.pool.isSome = false := by
      rw [← Bool.not_eq_true]
      exact fun hpool => (hw.pool hpool).elim hnone
    rw [hw.pools, hpool]
    rfl
  · rw [hleft, Nat.le_zero] at hchores
    rw [hnew, eq_nil_of_no_request hchores fun p hp => hnone p (hcalls p hp), List.append_nil]

/-- The loop has begun to rest, one of two lookups has begun, and the other one is cancelled. -/
theorem idle_disposal_is_quiet :
    let before : List Happening := [.start, .warmUp (.text "day") (.int 1), .ask,
      .warmUp (.text "week") (.int 1), .lookUp 0, .reply (.ok (.list []))]
    ∃ t₀ t₁ t₂, run? before (new { stock := .text "KRW-BTC" }) = some t₀ ∧
      t₀.market.disposed = false ∧ run? [.retire, .halt, .leave, .close] t₀ = some t₁ ∧
      t₁.closed = true ∧
      run? [.setLive (.int 8), .answer 0 (.ok (.int 7)), .start, .land 0, .retire] t₁ = some t₂ ∧
      t₂.loops = t₀.loops ∧ t₂.pools = t₀.pools ∧ t₂.asked = t₁.asked := by
  intro before
  have hruns : (run? before (new { stock := .text "KRW-BTC" })).any (fun t₀ =>
      !t₀.market.disposed && (run? [.retire, .halt, .leave, .close] t₀).any fun t₁ =>
        t₁.closed && t₁.loop.left == 0 &&
          (run? [.setLive (.int 8), .answer 0 (.ok (.int 7)), .start, .land 0, .retire]
            t₁).isSome) = true := by decide +kernel
  simp only [Option.any_eq_true, Bool.and_eq_true, Bool.not_eq_true', beq_iff_eq,
    Option.isSome_iff_exists] at hruns
  obtain ⟨t₀, hbefore, hopen, t₁, hduring, ⟨hclosed, hleft⟩, t₂, hafter⟩ := hruns
  obtain ⟨hloops, -, -, hquiet⟩ :=
    requests_end_with_disposal _ hbefore hopen hduring hclosed hafter
  obtain ⟨hpools, hasked⟩ := hquiet fun p ⟨unit, length, hmem, _⟩ => by simp at hmem
  exact ⟨t₀, t₁, t₂, hbefore, hopen, hduring, hclosed, hafter, hloops, hpools, hasked hleft⟩

/-- A lookup that is started after disposal is carried out by a pool of its own, and a loop that was
waited for in vain while it polled the price asks for candles. -/
theorem disposal_is_followed_by_requests :
    (∃ t₁ t₂, run? [.retire, .halt, .close] (new { stock := .text "KRW-BTC" }) = some t₁ ∧
      run? [.warmUp (.text "day") (.int 1), .lookUp 0] t₁ = some t₂ ∧
      t₁.pools < t₂.pools ∧ t₁.asked.length < t₂.asked.length) ∧
    ∃ t₁ t₂, run? [.start, .ask, .reply (.ok (.list [])), .ask, .retire, .halt, .close]
        (new { stock := .text "KRW-BTC" }) = some t₁ ∧
      run? [.reply (.ok (.int 7)), .ask] t₁ = some t₂ ∧
      t₁.asked.length < t₂.asked.length := by
  have hlate : (run? [.retire, .halt, .close] (new { stock := .text "KRW-BTC" })).any (fun t₁ =>
      (run? [.warmUp (.text "day") (.int 1), .lookUp 0] t₁).any fun t₂ =>
        t₁.pools < t₂.pools && t₁.asked.length < t₂.asked.length) = true := by decide +kernel
  have hslow : (run? [.start, .ask, .reply (.ok (.list [])), .ask, .retire, .halt, .close]
      (new { stock := .text "KRW-BTC" })).any (fun t₁ =>
        (run? [.reply (.ok (.int 7)), .ask] t₁).any fun t₂ =>
          t₁.asked.length < t₂.asked.length) = true := by decide +kernel
  simp only [Option.any_eq_true, Bool.and_eq_true, decide_eq_true_eq] at hlate hslow
  obtain ⟨t₁, hended, t₂, hlate⟩ := hlate
  obtain ⟨s₁, hwaited, s₂, hslow⟩ := hslow
  exact ⟨⟨t₁, t₂, hended, hlate⟩, s₁, s₂, hwaited, hslow⟩

/-- Disposal at one moment, of market data whose lookups have yet to begin. -/
theorem market_of_disposal (hopen : t.market.disposed = false) (hclosed : t.closed = false)
    (hqueued : ∀ p, (p, .pending) ∈ t.market.lookups → t.retire.abandons p = true) :
    (run? [.retire, .halt, .close] t).map (·.market) = some t.market.dispose := by
  have hfinished : ∀ l ∈ t.market.lookups,
      (if t.retire.abandons l.1 then (l.1, .finished) else l) = (l.1, LookupStatus.finished) := by
    rintro ⟨p, status⟩ hl
    split
    · rfl
    · rename_i hkept
      cases status with
      | pending => exact absurd (hqueued p hl) hkept
      | finished => rfl
  have hdispose : t.market.dispose = { t.market with
      disposed := true
      lookups := t.market.lookups.map fun l => (l.1, .finished) } := if_neg (by simp [hopen])
  have hrun : run? [.retire, .halt, .close] t = some { t.retire with halted := true }.close := by
    simp [run?, step?, retire_of_open hopen, hclosed]
  rw [retire_of_open hopen] at hfinished hrun
  rw [hrun, hdispose, ← List.map_congr_left hfinished]
  rfl

end Threads

end TradingRules.Market
