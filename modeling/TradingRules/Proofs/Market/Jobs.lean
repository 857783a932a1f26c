import TradingRules.Proofs.Market.Turns

/-!
# Lookups that are under way

Calls from any thread, the refresh loop and the pools of lookups may take turns in any order. Still
no period is looked up twice at a time, each failed lookup makes room for one more, and a price that
was found stays: of the lookups of a period that were ever started, all but one have failed, and the
table of lookups has an entry for that one.
-/

namespace TradingRules.Market

/-! ### What leaves lookups alone -/

namespace Threads

variable {t : Threads}

/-- Nothing has happened to lookups. -/
structure Aside (t t' : Threads) : Prop where
  connected : t'.market.connected = t.market.connected
  lookups : t'.market.lookups = t.market.lookups
  highest : t'.market.highest = t.market.highest
  jobs : t'.jobs = t.jobs
  asked : t'.asked.filter (·.isLookup) = t.asked.filter (·.isLookup)
  answers : t'.answers.filter (·.1.isLookup) = t.answers.filter (·.1.isLookup)

theorem Aside.of_unaffected {market : Market} (hmarket : t.market.Unaffected market) :
    t.Aside { t with market } :=
  ⟨hmarket.connected, hmarket.lookups, hmarket.highest, rfl, rfl, rfl⟩

theorem aside_start (t : Threads) : t.Aside t.start := by
  obtain ⟨-, hconnected, -, hlookups, hhighest⟩ := unaffected_start t.market
  rw [start]
  split <;> exact ⟨hconnected, hlookups, hhighest, rfl, rfl, rfl⟩

theorem aside_retire (t : Threads) : t.Aside t.retire := by
  rw [retire]
  split <;> exact ⟨rfl, rfl, rfl, rfl, rfl, rfl⟩

theorem aside_ask (chore : Chore) : t.Aside (t.ask chore) :=
  ⟨rfl, rfl, rfl, rfl, by simp [ask, Errand.isLookup], rfl⟩

theorem aside_reply (chore : Chore) (answer : Outcome Value) : t.Aside (t.reply chore answer) := by
  obtain ⟨-, hconnected, -, hlookups, hhighest⟩ := unaffected_told t.market answer chore
  exact ⟨hconnected, hlookups, hhighest, rfl, rfl, by simp [reply, Errand.isLookup]⟩

end Threads

/-! ### Counting the lookups of a period -/

section

variable {σ : Type} (source : Source σ) (m : Market) (s : σ) {p q : Period}

theorem isUntried_runLookup_iff (hp : ∃ unit, p.unit = .text unit) (hpq : p ≠ q) :
    (m.runLookup source q s).1.IsUntried p ↔ m.IsUntried p := by
  have hkeys : ∀ m : Market, m.IsUntried p ↔ ∀ status, (p, status) ∉ m.lookups := fun m =>
    ⟨fun h status hmem => h _ hmem rfl, fun h l hl hlp => h l.2 (hlp ▸ hl)⟩
  rw [hkeys, hkeys]
  exact forall_congr' fun status => not_congr (mem_lookups_runLookup source m s hp hpq)

variable {source m s}

/-- An answer leaves the entry of its lookup in the table. -/
theorem not_isUntried_runLookup {v : Value} (hp : ∃ unit, p.unit = .text unit)
    (hanswer : (source.answer (m.highestRequest p) s).1 = .ok v) (h : ¬m.IsUntried p) :
    ¬(m.runLookup source p s).1.IsUntried p := by
  obtain ⟨l, hl, rfl⟩ : ∃ l ∈ m.lookups, l.1 = p := by simpa [IsUntried] using h
  have hself : (l.1 == l.1) = true := (Period.beq_iff hp).mpr rfl
  have hmem : (l.1, .finished) ∈
      m.lookups.map fun k => if k.1 == l.1 then (l.1, .finished) else k :=
    List.mem_map.mpr ⟨l, hl, if_pos hself⟩
  rcases hanswered : source.answer (m.highestRequest l.1) s with ⟨e | w, s'⟩
  · rw [hanswered] at hanswer
    cases hanswer
  · cases hw : w.toFloat with
    | ok x =>
      rw [runLookup_of_number source m s hanswered hw]
      exact fun huntried => huntried _ hmem rfl
    | error e =>
      rw [runLookup_of_no_number source m s hanswered hw]
      exact fun huntried => huntried _ hmem rfl

end

namespace Job

def hasBegun (j : Job) : Bool :=
  match j.progress with
  | .asking | .answered _ | .landed _ => true
  | .queued | .cancelled => false

def answer? (j : Job) : Option (Outcome Value) :=
  match j.progress with
  | .answered answer | .landed answer => some answer
  | .queued | .asking | .cancelled => none

/-- Has the source failed to answer? -/
def wasRefused (j : Job) : Bool :=
  j.answer?.any fun answer => !answer.isOk

/-- Has a failure landed, which makes room for another lookup? -/
def hasFailed (j : Job) : Bool :=
  match j.progress with
  | .landed (.error _) => true
  | _ => false

/-- Does the lookup stand in the way of another one of the period? -/
def holds (p : Period) (j : Job) : Bool :=
  j.isFor p && !j.hasFailed

variable {j : Job}

theorem hasFailed_of_isOpen (h : j.isOpen = true) : j.hasFailed = false := by
  rw [hasFailed]
  split
  · rename_i hlanded
    rw [isOpen, hlanded] at h
    cases h
  · rfl

/-- Only a failure that has landed makes room. -/
theorem wasRefused_of_hasFailed (h : j.hasFailed = true) : j.wasRefused = true := by
  rw [hasFailed] at h
  split at h
  · rename_i hlanded
    rw [wasRefused, answer?, hlanded]
    rfl
  · cases h

@[simp] theorem isFor_shutDown (p : Period) (pool : Option Nat) (j : Job) :
    (j.shutDown pool).isFor p = j.isFor p := by
  rw [isFor, isFor, period_shutDown]

@[simp] theorem hasBegun_shutDown (pool : Option Nat) (j : Job) :
    (j.shutDown pool).hasBegun = j.hasBegun := by
  rcases shutDown_cases pool j with h | ⟨hqueued, h⟩ <;> rw [h]
  rw [hasBegun, hasBegun, hqueued]

@[simp] theorem answer?_shutDown (pool : Option Nat) (j : Job) :
    (j.shutDown pool).answer? = j.answer? := by
  rcases shutDown_cases pool j with h | ⟨hqueued, h⟩ <;> rw [h]
  rw [answer?, answer?, hqueued]

@[simp] theorem holds_shutDown (p : Period) (pool : Option Nat) (j : Job) :
    (j.shutDown pool).holds p = j.holds p := by
  rw [holds, holds, isFor_shutDown]
  rcases shutDown_cases pool j with h | ⟨hqueued, h⟩ <;> rw [h]
  rw [hasFailed, hasFailed, hqueued]

end Job

namespace Threads

/-- The lookups of a period, compared with the requests, the answers and the market data. -/
structure Tallied (p : Period) (t : Threads) : Prop where
  connected : t.market.connected = true
  single : t.jobs.countP (·.holds p) ≤ 1
  untried : t.market.IsUntried p → t.jobs.countP (·.holds p) = 0
  asked : t.asked.countP (·.isFor p) = t.jobs.countP fun j => j.isFor p && j.hasBegun
  refused : t.answers.countP (fun a => a.1.isFor p && !a.2.isOk) =
    t.jobs.countP fun j => j.isFor p && j.wasRefused
  answers : ∀ j ∈ t.jobs, ∀ answer ∈ j.answer?, (.highest j.period, answer) ∈ t.answers
  found : ∀ x, t.market.highest? p = some x →
    ∃ j ∈ t.jobs, j.isFor p = true ∧ ∃ v, j.progress = .landed (.ok v) ∧ v.toFloat = .ok x

variable {p : Period} {t t' : Threads}

theorem tallied_new (settings : Settings) (p : Period) : Tallied p (new settings) where
  connected := rfl
  single := Nat.zero_le 1
  untried _ := rfl
  asked := rfl
  refused := rfl
  answers := nofun
  found := nofun

theorem isLookup_of_isFor {errand : Errand} (h : errand.isFor p = true) :
    errand.isLookup = true := by
  cases errand with
  | chore => cases h
  | highest => rfl

/-- Counting among lookups is counting among them only. -/
theorem countP_eq_of_filter {α : Type} {f : α → Errand} {q : α → Bool} {es es' : List α}
    (h : es'.filter (fun e => (f e).isLookup) = es.filter fun e => (f e).isLookup) :
    es'.countP (fun e => (f e).isFor p && q e) = es.countP fun e => (f e).isFor p && q e := by
  have hfilter : ∀ es : List α, es.countP (fun e => (f e).isFor p && q e) =
      (es.filter fun e => (f e).isLookup).countP fun e => (f e).isFor p && q e := by
    intro es
    rw [List.countP_filter]
    refine List.countP_congr fun e _ => ?_
    simp only [Bool.and_eq_true]
    exact ⟨fun he => ⟨he, isLookup_of_isFor he.1⟩, And.left⟩
  rw [hfilter, hfilter es, h]

theorem Tallied.aside (h : Tallied p t) (ha : t.Aside t') : Tallied p t' where
  connected := ha.connected.trans h.connected
  single := by
    rw [ha.jobs]
    exact h.single
  untried := by
    rw [IsUntried, ha.lookups, ha.jobs]
    exact h.untried
  asked := by
    have hasked := countP_eq_of_filter (p := p) (f := id) (q := fun _ => true) ha.asked
    simp only [Bool.and_true, id] at hasked
    rw [hasked, ha.jobs, h.asked]
  refused := by
    rw [countP_eq_of_filter ha.answers, ha.jobs, h.refused]
  answers := by
    rw [ha.jobs]
    intro j hj answer hanswer
    have hmem : (.highest j.period, answer) ∈ t.answers.filter (·.1.isLookup) :=
      List.mem_filter.mpr ⟨h.answers j hj answer hanswer, rfl⟩
    rw [← ha.answers] at hmem
    exact (List.mem_filter.mp hmem).1
  found := by
    rw [highest?, ha.highest, ha.jobs]
    exact h.found

theorem Tallied.submit (h : Tallied p t) (hp : ∃ unit, p.unit = .text unit) {q : Period}
    (hnew : ∀ l ∈ t.market.lookups, (l.1 == q) = false) :
    Tallied p (submit { t with market :=
      { t.market with lookups := t.market.lookups ++ [(q, .pending)] } } q) := by
  -- The new lookup counts if it is one of the period, but then there was none in its way.
  have hcount : ∀ pool, ([⟨q, pool, .queued⟩] : List Job).countP (·.holds p) =
      if q == p then 1 else 0 := by
    intro pool
    simp [List.countP_cons, Job.holds, Job.isFor, Job.hasFailed]
  have huntried : (q == p) = true → t.market.IsUntried p := by
    intro hqp l hl hlp
    have hself := hnew l hl
    rw [hlp, (Period.beq_iff hp).mp hqp, (Period.beq_iff hp).mpr rfl] at hself
    cases hself
  refine ⟨h.connected, ?_, ?_, ?_, ?_, ?_, ?_⟩
  · show (t.jobs ++ [_]).countP _ ≤ 1
    rw [List.countP_append, hcount]
    split
    · rename_i hqp
      exact Nat.le_of_eq (congrArg (· + 1) (h.untried (huntried hqp)))
    · exact h.single
  · intro hstill
    have hne : (q == p) = false := by
      cases hqp : q == p with
      | false => rfl
      | true =>
        exact absurd ((Period.beq_iff hp).mp hqp)
          (hstill (q, .pending) (List.mem_append_right _ List.mem_cons_self))
    show (t.jobs ++ [_]).countP _ = 0
    rw [List.countP_append, hcount, hne]
    exact h.untried fun l hl => hstill l (List.mem_append_left _ hl)
  · refine h.asked.trans ?_
    show _ = (t.jobs ++ [_]).countP _
    rw [List.countP_append, List.countP_singleton, if_neg (by simp [Job.hasBegun]), Nat.add_zero]
  · refine h.refused.trans ?_
    show _ = (t.jobs ++ [_]).countP _
    rw [List.countP_append, List.countP_singleton,
      if_neg (by simp [Job.wasRefused, Job.answer?]), Nat.add_zero]
  · intro j hj answer hanswer
    rcases List.mem_append.mp hj with hj | hj
    · exact h.answers j hj answer hanswer
    · obtain rfl := List.mem_singleton.mp hj
      cases hanswer
  · intro x hx
    obtain ⟨j, hj, hfound⟩ := h.found x hx
    exact ⟨j, List.mem_append_left _ hj, hfound⟩

/-- Closing a pool cancels what has not begun, which counts as before. -/
theorem Tallied.close (h : Tallied p t) : Tallied p t.close := by
  refine ⟨h.connected, ?_, ?_, ?_, ?_, ?_, ?_⟩
  · show (t.jobs.map _).countP _ ≤ 1
    simpa [List.countP_map, Function.comp_def] using h.single
  · intro huntried
    show (t.jobs.map _).countP _ = 0
    have hbefore : t.market.IsUntried p := fun l hl hlp => by
      refine huntried _ (List.mem_map_of_mem hl) ?_
      split <;> exact hlp
    simpa [List.countP_map, Function.comp_def] using h.untried hbefore
  · refine h.asked.trans ?_
    show _ = (t.jobs.map _).countP _
    simp [List.countP_map, Function.comp_def]
  · refine h.refused.trans ?_
    show _ = (t.jobs.map _).countP _
    simp [List.countP_map, Function.comp_def, Job.wasRefused]
  · intro j hj answer hanswer
    obtain ⟨k, hk, rfl⟩ := List.mem_map.mp hj
    rw [Job.answer?_shutDown] at hanswer
    rw [Job.period_shutDown]
    exact h.answers k hk answer hanswer
  · intro x hx
    obtain ⟨j, hj, hfor, v, hlanded, hv⟩ := h.found x hx
    refine ⟨_, List.mem_map_of_mem hj, ?_⟩
    rcases Job.shutDown_cases t.retired j with hsame | ⟨hqueued, -⟩
    · rw [hsame]
      exact ⟨hfor, v, hlanded, hv⟩
    · cases hqueued.symm.trans hlanded

theorem exists_split {jobs : List Job} {i : Nat} {j : Job} (hj : jobs[i]? = some j) (k : Job) :
    ∃ front behind, jobs = front ++ j :: behind ∧ jobs.set i k = front ++ k :: behind := by
  obtain ⟨hi, rfl⟩ := List.getElem?_eq_some_iff.mp hj
  have hsplit : ∃ front behind, jobs = front ++ jobs[i] :: behind ∧ front.length = i ∧
      jobs.set i k = front ++ k :: behind := List.exists_of_set hi
  obtain ⟨front, behind, hjobs, -, hset⟩ := hsplit
  exact ⟨front, behind, hjobs, hset⟩

/-- Replacing a lookup changes a count by what the two lookups count. -/
theorem countP_set_add {jobs : List Job} {i : Nat} {j : Job} (hj : jobs[i]? = some j) (k : Job)
    (q : Job → Bool) :
    (jobs.set i k).countP q + (q j).toNat = jobs.countP q + (q k).toNat := by
  obtain ⟨front, behind, hjobs, hset⟩ := exists_split hj k
  have hone : ∀ b : Bool, (if b = true then 1 else 0) = b.toNat := fun b => by cases b <;> rfl
  rw [hset, hjobs, List.countP_append, List.countP_append, List.countP_cons, List.countP_cons,
    hone, hone]
  omega

theorem countP_set {jobs : List Job} {i : Nat} {j k : Job} (hj : jobs[i]? = some j)
    {q : Job → Bool} (hsame : q k = q j) : (jobs.set i k).countP q = jobs.countP q := by
  have hcount := countP_set_add hj k q
  rw [hsame] at hcount
  exact Nat.add_right_cancel hcount

/-- A lookup that has landed is still there when another one has come further. -/
theorem mem_set_of_progress {jobs : List Job} {i : Nat} {j j' k : Job} (hj : jobs[i]? = some j)
    (hj' : j' ∈ jobs) (hne : j'.progress ≠ j.progress) : j' ∈ jobs.set i k := by
  obtain ⟨front, behind, hjobs, hset⟩ := exists_split hj k
  rw [hset]
  rw [hjobs] at hj'
  rcases List.mem_append.mp hj' with hfront | hrest
  · exact List.mem_append_left _ hfront
  · rcases List.mem_cons.mp hrest with rfl | hbehind
    · exact absurd rfl hne
    · exact List.mem_append_right _ (List.mem_cons_of_mem _ hbehind)

/-- A lookup comes further, short of landing. -/
theorem Tallied.advance (h : Tallied p t) {i : Nat} {j k : Job} (hj : t.jobs[i]? = some j)
    (hopen : j.isOpen = true) (hholds : k.holds p = j.holds p) {asked : List Errand}
    {answers : List (Errand × Outcome Value)}
    (hasked : asked.countP (·.isFor p) + (j.isFor p && j.hasBegun).toNat =
      t.asked.countP (·.isFor p) + (k.isFor p && k.hasBegun).toNat)
    (hrefused : answers.countP (fun a => a.1.isFor p && !a.2.isOk) +
        (j.isFor p && j.wasRefused).toNat =
      t.answers.countP (fun a => a.1.isFor p && !a.2.isOk) + (k.isFor p && k.wasRefused).toNat)
    (hkept : t.answers ⊆ answers)
    (hanswer : ∀ answer ∈ k.answer?, (.highest k.period, answer) ∈ answers) :
    Tallied p { t with jobs := t.jobs.set i k, asked, answers } where
  connected := h.connected
  single := by
    rw [countP_set hj hholds]
    exact h.single
  untried huntried := by
    rw [countP_set hj hholds]
    exact h.untried huntried
  asked := by
    have hjobs := countP_set_add hj k fun j => j.isFor p && j.hasBegun
    have hbefore := h.asked
    dsimp only at hjobs ⊢
    omega
  refused := by
    have hjobs := countP_set_add hj k fun j => j.isFor p && j.wasRefused
    have hbefore := h.refused
    dsimp only at hjobs ⊢
    omega
  answers := by
    intro j' hj' answer hmem
    rcases List.mem_or_eq_of_mem_set hj' with hold | rfl
    · exact hkept (h.answers j' hold answer hmem)
    · exact hanswer answer hmem
  found := by
    intro x hx
    obtain ⟨j', hj', hfor, v, hlanded, hv⟩ := h.found x hx
    refine ⟨j', mem_set_of_progress hj hj' fun heq => ?_, hfor, v, hlanded, hv⟩
    rw [Job.isOpen, ← heq, hlanded] at hopen
    cases hopen

theorem Tallied.lookUp (h : Tallied p t) {i : Nat} {j : Job} (hj : t.jobs[i]? = some j)
    (hqueued : j.progress = .queued) : Tallied p (t.lookUp i j) := by
  refine h.advance hj (by simp [Job.isOpen, hqueued]) ?_ ?_ ?_ (List.Subset.refl _) nofun
  · simp [Job.holds, Job.isFor, Job.hasFailed, hqueued]
  · rw [List.countP_append, List.countP_singleton]
    cases hfor : j.period == p <;>
      simp [Errand.isFor, Job.isFor, Job.hasBegun, hqueued, hfor]
  · simp [Job.wasRefused, Job.answer?, hqueued]

theorem Tallied.answer (h : Tallied p t) {i : Nat} {j : Job} (hj : t.jobs[i]? = some j)
    (hasking : j.progress = .asking) (answer : Outcome Value) :
    Tallied p (t.answer i j answer) := by
  refine h.advance hj (by simp [Job.isOpen, hasking]) ?_ ?_ ?_ (List.subset_append_left _ _) ?_
  · simp [Job.holds, Job.isFor, Job.hasFailed, hasking]
  · simp [Job.isFor, Job.hasBegun, hasking]
  · rw [List.countP_append, List.countP_singleton]
    cases hfor : j.period == p <;> cases hok : answer.isOk <;>
      simp [Errand.isFor, Job.isFor, Job.wasRefused, Job.answer?, hasking, hfor, hok]
  · intro a ha
    obtain rfl := Option.some.inj ha
    exact List.mem_append_right _ List.mem_cons_self

/-- Room for another lookup of a period is made only by a failure of one of it. -/
theorem Tallied.untried_land (h : Tallied p t) (hp : ∃ unit, p.unit = .text unit) {i : Nat}
    {j : Job} {answer : Outcome Value} (hj : t.jobs[i]? = some j)
    (hanswered : j.progress = .answered answer) :
    (t.land i j answer).jobs.countP (·.holds p) ≤ 1 ∧
      ((t.land i j answer).market.IsUntried p →
        (t.land i j answer).jobs.countP (·.holds p) = 0) := by
  have hcount := countP_set_add hj { j with progress := .landed answer } (·.holds p)
  have hsingle := h.single
  show (t.jobs.set i _).countP _ ≤ 1 ∧ (_ → (t.jobs.set i _).countP _ = 0)
  by_cases hfor : j.period = p
  · have hself : j.isFor p = true := (Period.beq_iff hp).mpr hfor
    have hheld : j.holds p = true := by simp [Job.holds, Job.hasFailed, hanswered, hself]
    rw [hheld] at hcount
    cases answer with
    | error e =>
      have hgone : Job.holds p { j with progress := .landed (.error e) } = false :=
        Bool.and_false _
      rw [hgone] at hcount
      simp only [Bool.toNat_true, Bool.toNat_false] at hcount
      omega
    | ok v =>
      have hstill : Job.holds p { j with progress := .landed (.ok v) } = true :=
        Bool.and_eq_true_iff.mpr ⟨hself, rfl⟩
      rw [hstill] at hcount
      simp only [Bool.toNat_true] at hcount
      refine ⟨by omega, fun huntried => ?_⟩
      have hpos : 0 < t.jobs.countP (·.holds p) :=
        List.countP_pos_iff.mpr ⟨j, List.mem_of_getElem? hj, hheld⟩
      have htried : ¬t.market.IsUntried p := fun hbefore =>
        Nat.ne_of_gt hpos (h.untried hbefore)
      subst hfor
      exact absurd huntried (not_isUntried_runLookup hp rfl htried)
  · have hother : (j.period == p) = false := by simpa using mt (Period.beq_iff hp).mp hfor
    have hsame : Job.holds p { j with progress := .landed answer } = j.holds p := by
      simp [Job.holds, Job.isFor, hother]
    rw [hsame] at hcount
    refine ⟨by omega, fun huntried => ?_⟩
    have hbefore := (isUntried_runLookup_iff (.always answer) t.market () hp (Ne.symm hfor)).mp
      huntried
    have hzero := h.untried hbefore
    omega

/-- A price that is there after a lookup has landed was there before, or is what it has found. -/
theorem Tallied.found_land (h : Tallied p t) (hp : ∃ unit, p.unit = .text unit) {i : Nat} {j : Job}
    {answer : Outcome Value} (hj : t.jobs[i]? = some j) (hanswered : j.progress = .answered answer)
    {x : Float} (hx : (t.land i j answer).market.highest? p = some x) :
    ∃ k ∈ (t.land i j answer).jobs, k.isFor p = true ∧
      ∃ v, k.progress = .landed (.ok v) ∧ v.toFloat = .ok x := by
  have hold : t.market.highest? p = some x → ∃ k ∈ (t.land i j answer).jobs, k.isFor p = true ∧
      ∃ v, k.progress = .landed (.ok v) ∧ v.toFloat = .ok x := by
    intro hbefore
    obtain ⟨k, hk, hfor, v, hlanded, hv⟩ := h.found x hbefore
    refine ⟨k, mem_set_of_progress hj hk fun heq => ?_, hfor, v, hlanded, hv⟩
    cases hlanded.symm.trans (heq.trans hanswered)
  by_cases hfor : j.period = p
  · subst hfor
    have hlanding := landing_runLookup (.always answer) t.market () hp
    change Landing j.period t.market (t.land i j answer).market answer at hlanding
    cases hlanding with
    | failed huntried hhighest =>
      rw [highest?, hhighest] at hx
      exact hold hx
    | @found v y hy hhighest =>
      obtain rfl := Option.some.inj (hhighest.symm.trans hx)
      obtain ⟨hi, -⟩ := List.getElem?_eq_some_iff.mp hj
      exact ⟨_, List.mem_set hi _, (Period.beq_iff hp).mpr rfl, v, rfl, hy⟩
    | spoiled he hfinished hhighest =>
      rw [highest?, hhighest] at hx
      exact hold hx
  · refine hold ?_
    rwa [← highest?_runLookup (.always answer) t.market () hp (Ne.symm hfor)]

theorem Tallied.land (h : Tallied p t) (hp : ∃ unit, p.unit = .text unit) {i : Nat} {j : Job}
    {answer : Outcome Value} (hj : t.jobs[i]? = some j)
    (hanswered : j.progress = .answered answer) :
    Tallied p (t.land i j answer) where
  connected := (runLookup_kept _ t.market () j.period).2.1.trans h.connected
  single := (h.untried_land hp hj hanswered).1
  untried := (h.untried_land hp hj hanswered).2
  asked := by
    refine h.asked.trans (countP_set hj ?_).symm
    simp [Job.isFor, Job.hasBegun, hanswered]
  refused := by
    refine h.refused.trans (countP_set hj ?_).symm
    simp [Job.isFor, Job.wasRefused, Job.answer?, hanswered]
  answers := by
    intro k hk a ha
    rcases List.mem_or_eq_of_mem_set hk with hold | rfl
    · exact h.answers k hold a ha
    · exact h.answers j (List.mem_of_getElem? hj) a (by rwa [Job.answer?, hanswered])
  found x hx := h.found_land hp hj hanswered hx

theorem Tallied.step (h : Tallied p t) (hp : ∃ unit, p.unit = .text unit) {happening : Happening}
    (ht : t.Takes happening t') : Tallied p t' := by
  cases ht with
  | start => exact h.aside (aside_start t)
  | warmUp unit length =>
    rcases warmUp_cases h.connected unit length with hsame | ⟨q, -, hnew, hsubmit⟩
    · rwa [hsame]
    · rw [hsubmit]
      exact h.submit hp hnew
  | ingest batch => exact h.aside (.of_unaffected (unaffected_ingest t.market batch))
  | setLive price => exact h.aside (.of_unaffected (unaffected_setLive t.market price))
  | retire => exact h.aside (aside_retire t)
  | close => exact h.close
  | ask => exact h.aside (aside_ask _)
  | reply answer => exact h.aside (aside_reply _ answer)
  | halt | rest | leave => exact h.aside ⟨rfl, rfl, rfl, rfl, rfl, rfl⟩
  | lookUp hj hqueued => exact h.lookUp hj (Job.isQueued_iff.mp hqueued)
  | answer answer hj hasking => exact h.answer hj hasking answer
  | land hj hanswered => exact h.land hp hj hanswered

theorem tallied_run {settings : Settings} {happenings : List Happening}
    (hp : ∃ unit, p.unit = .text unit) (hrun : run? happenings (new settings) = some t) :
    Tallied p t :=
  run?_induction (P := fun _ => Tallied p) (fun h ht => h.step hp ht) []
    (tallied_new settings p) hrun

/-- Of the lookups that have begun, all but those that failed stand in each other's way. -/
theorem Tallied.begun_le (h : Tallied p t) :
    t.jobs.countP (fun j => j.isFor p && j.hasBegun) ≤
      1 + t.jobs.countP fun j => j.isFor p && j.wasRefused := by
  rw [List.countP_eq_countP_filter_add _ _ (·.holds p), List.countP_filter, List.countP_filter]
  refine Nat.add_le_add (Nat.le_trans (List.countP_mono_left fun j _ hj => ?_) h.single)
    (List.countP_mono_left fun j _ hj => ?_)
  · exact (Bool.and_eq_true_iff.mp hj).2
  · obtain ⟨hbegun, hnot⟩ := Bool.and_eq_true_iff.mp hj
    have hfor := (Bool.and_eq_true_iff.mp hbegun).1
    rw [Job.holds, hfor, Bool.true_and, Bool.not_not] at hnot
    exact Bool.and_eq_true_iff.mpr ⟨hfor, Job.wasRefused_of_hasFailed hnot⟩

/-! ### Periods that are ready -/

theorem eq_of_countP_le_one {jobs : List Job} {q : Job → Bool} (h : jobs.countP q ≤ 1) {j k : Job}
    (hj : j ∈ jobs) (hk : k ∈ jobs) (hqj : q j = true) (hqk : q k = true) : j = k := by
  have hj := List.mem_filter.mpr ⟨hj, hqj⟩
  have hk := List.mem_filter.mpr ⟨hk, hqk⟩
  rw [List.countP_eq_length_filter] at h
  generalize jobs.filter q = found at h hj hk
  match found with
  | [] => cases hj
  | [only] => rw [List.mem_singleton.mp hj, List.mem_singleton.mp hk]
  | _ :: _ :: _ => simp at h

/-- A price was found, and this many requests were made for it. -/
structure Ready (p : Period) (x : Float) (n : Nat) (t : Threads) : Prop where
  tallied : Tallied p t
  highest : t.market.highest? p = some x
  asked : t.asked.countP (·.isFor p) = n

variable {x : Float} {n : Nat}

/-- No lookup of the period is under way any more. -/
theorem Ready.period_ne (h : Ready p x n t) (hp : ∃ unit, p.unit = .text unit) {j : Job}
    (hj : j ∈ t.jobs) (hopen : j.isOpen = true) : j.period ≠ p := by
  intro hfor
  obtain ⟨k, hk, hkfor, v, hlanded, -⟩ := h.tallied.found x h.highest
  have hheld : j.holds p = true := by
    rw [Job.holds, Job.hasFailed_of_isOpen hopen]
    exact Bool.and_eq_true_iff.mpr ⟨(Period.beq_iff hp).mpr hfor, rfl⟩
  have hkheld : k.holds p = true := by simp [Job.holds, Job.hasFailed, hkfor, hlanded]
  obtain rfl := eq_of_countP_le_one h.tallied.single hj hk hheld hkheld
  rw [Job.isOpen, hlanded] at hopen
  cases hopen

theorem Ready.step (h : Ready p x n t) (hp : ∃ unit, p.unit = .text unit) {happening : Happening}
    (ht : t.Takes happening t') : Ready p x n t' := by
  have htallied := h.tallied.step hp ht
  have haside : t.Aside t' → Ready p x n t' := fun ha => by
    have hasked := countP_eq_of_filter (p := p) (f := id) (q := fun _ => true) ha.asked
    simp only [Bool.and_true, id] at hasked
    exact ⟨htallied, by rw [highest?, ha.highest]; exact h.highest, hasked.trans h.asked⟩
  cases ht with
  | start => exact haside (aside_start t)
  | warmUp unit length =>
    rcases warmUp_cases h.tallied.connected unit length with hsame | ⟨q, -, -, hsubmit⟩
    · rwa [hsame]
    · rw [hsubmit] at htallied ⊢
      exact ⟨htallied, h.highest, h.asked⟩
  | ingest batch => exact haside (.of_unaffected (unaffected_ingest t.market batch))
  | setLive price => exact haside (.of_unaffected (unaffected_setLive t.market price))
  | retire => exact haside (aside_retire t)
  | close => exact ⟨htallied, h.highest, h.asked⟩
  | ask => exact haside (aside_ask _)
  | reply answer => exact haside (aside_reply _ answer)
  | halt | rest | leave => exact haside ⟨rfl, rfl, rfl, rfl, rfl, rfl⟩
  | @lookUp i j hj hqueued =>
    have hqueued := Job.isQueued_iff.mp hqueued
    have hother := h.period_ne hp (List.mem_of_getElem? hj) (by simp [Job.isOpen, hqueued])
    refine ⟨htallied, h.highest, ?_⟩
    show (t.asked ++ [_]).countP _ = n
    rw [List.countP_append, List.countP_singleton,
      if_neg (by simpa [Errand.isFor] using mt (Period.beq_iff hp).mp hother), h.asked,
      Nat.add_zero]
  | answer answer hj hasking => exact ⟨htallied, h.highest, h.asked⟩
  | @land i j answer hj hanswered =>
    have hother := h.period_ne hp (List.mem_of_getElem? hj) (by simp [Job.isOpen, hanswered])
    refine ⟨htallied, ?_, h.asked⟩
    exact (highest?_runLookup _ t.market () hp hother.symm).trans h.highest

/-- However calls, lookups and their answers follow each other: of one period at most one lookup is
under way, and it is asked for once and once more for each failure. When its price has been found,
it is never asked for again, and all readings give this price, which is what the source has
answered. -/
theorem lookups_are_single_and_stable (settings : Settings) {happenings : List Happening}
    (hrun : run? happenings (new settings) = some t) (unit : String) (length : Int) :
    let p : Period := ⟨.text unit, length⟩
    t.jobs.countP (fun j => j.isFor p && j.isOpen) ≤ 1 ∧
      t.asked.countP (·.isFor p) ≤
        1 + t.answers.countP (fun a => a.1.isFor p && !a.2.isOk) ∧
      ∀ x, t.market.highestPrice (.text unit) (.int length) = .ok x →
        (∃ v, (.highest p, .ok v) ∈ t.answers ∧ v.toFloat = .ok x) ∧
        ∀ more later, run? more t = some later →
          later.asked.countP (·.isFor p) = t.asked.countP (·.isFor p) ∧
          ∀ u l, periodOf u l = .ok p →
            later.market.isHighestReady u l = .ok true ∧ later.market.highestPrice u l = .ok x := by
  intro p
  have hp : ∃ unit, p.unit = .text unit := ⟨unit, rfl⟩
  have h : Tallied p t := tallied_run hp hrun
  refine ⟨?_, ?_, fun x hx => ?_⟩
  · refine Nat.le_trans (List.countP_mono_left fun j _ hj => ?_) h.single
    obtain ⟨hfor, hopen⟩ := Bool.and_eq_true_iff.mp hj
    rw [Job.holds, hfor, Job.hasFailed_of_isOpen hopen]
    rfl
  · rw [h.asked, h.refused]
    exact h.begun_le
  · have hfound : t.market.highest? p = some x := by
      rw [highestPrice_eq] at hx
      split at hx
      · rename_i y hy
        rw [hy, Except.ok.inj hx]
      · cases hx
    refine ⟨?_, fun more later hmore => ?_⟩
    · obtain ⟨j, hj, hfor, v, hlanded, hv⟩ := h.found x hfound
      have hanswer := h.answers j hj (.ok v) (by rw [Job.answer?, hlanded]; rfl)
      rw [(Period.beq_iff hp).mp hfor] at hanswer
      exact ⟨v, hanswer, hv⟩
    · have hready : Ready p x (t.asked.countP (·.isFor p)) later :=
        run?_induction (P := fun _ => Ready p x _) (fun hr ht => hr.step hp ht) []
          ⟨h, hfound, rfl⟩ hmore
      refine ⟨hready.asked, fun u l hperiod => ⟨?_, ?_⟩⟩
      · rw [isHighestReady, hperiod, Outcome.ok_bind, hready.highest]
        rfl
      · rw [highestPrice, hperiod, Outcome.ok_bind, hready.highest]
        rfl

/-- The lookup of a day fails and is repeated, while calls that find it under way start none, and
that of a week finds its price in between. -/
def flaky : List Happening :=
  let day := .warmUp (.text "day") (.int 1)
  [day, .lookUp 0, .warmUp (.text "week") (.int 1), .warmUp (.text "day") (.text "1"),
    .answer 0 (.error (.marketData "down")), .lookUp 1, day, .land 0, .answer 1 (.ok (.int 7)), day,
    .lookUp 2, .land 1, day, .answer 2 (.ok (.int 5)), .land 2]

theorem flaky_day_is_asked_for_twice : ∃ t later x,
    run? flaky (new { stock := .text "KRW-BTC" }) = some t ∧
      t.asked.countP (·.isFor ⟨.text "day", 1⟩) = 2 ∧
      run? [.warmUp (.text "day") (.int 1), .retire, .halt, .close] t = some later ∧
      later.asked.countP (·.isFor ⟨.text "day", 1⟩) = 2 ∧
      later.market.highestPrice (.text "day") (.text "1") = .ok x := by
  have hrun : (run? flaky (new { stock := .text "KRW-BTC" })).isSome = true := by decide +kernel
  have hasked : (run? flaky (new { stock := .text "KRW-BTC" })).map
      (·.asked.countP (·.isFor ⟨.text "day", 1⟩)) = some 2 := by decide +kernel
  have hfound : (run? flaky (new { stock := .text "KRW-BTC" })).map
      (fun t => (t.market.highestPrice (.text "day") (.int 1)).isOk) = some true := by
    decide +kernel
  have hmore : ((run? flaky (new { stock := .text "KRW-BTC" })).bind
      (run? [.warmUp (.text "day") (.int 1), .retire, .halt, .close])).isSome = true := by
    decide +kernel
  obtain ⟨t, hrun⟩ := Option.isSome_iff_exists.mp hrun
  rw [hrun] at hasked hfound hmore
  obtain ⟨later, hmore⟩ := Option.isSome_iff_exists.mp hmore
  obtain ⟨-, -, hready⟩ := lookups_are_single_and_stable _ hrun "day" 1
  cases hx : t.market.highestPrice (.text "day") (.int 1) with
  | error e =>
    rw [Option.map_some, hx] at hfound
    cases hfound
  | ok x =>
    obtain ⟨hsame, hread⟩ := (hready x hx).2 _ later hmore
    exact ⟨t, later, x, hrun, Option.some.inj hasked, hmore,
      hsame.trans (Option.some.inj hasked), (hread (.text "day") (.text "1") rfl).2⟩

/-- A lookup that nothing interferes with takes its course. -/
theorem market_of_lookup {σ : Type} (source : Source σ) (s : σ)
    (hconnected : t.market.connected = true) {unit length : Value}
    (hperiod : periodOf unit length = .ok p)
    (hnew : ∀ l ∈ t.market.lookups, (l.1 == p) = false) :
    let started := (t.market.warmUp unit length).2
    let answer := (source.answer (started.highestRequest p) s).1
    let n := t.jobs.length
    (run? [.warmUp unit length, .lookUp n, .answer n answer, .land n] t).map (·.market) =
      some (started.runLookup source p s).1 := by
  have hsubmit := warmUp_of_new hconnected hperiod hnew
  have hstarted : (t.market.warmUp unit length).2 =
      { t.market with lookups := t.market.lookups ++ [(p, .pending)] } := by
    have hmarket := congrArg market hsubmit
    rw [warmUp] at hmarket
    split at hmarket <;> exact hmarket
  rw [hstarted]
  dsimp only
  rw [runLookup_always]
  simp [run?, step?, hsubmit, submit, lookUp, answer, land, Job.isQueued]

end Threads

end TradingRules.Market
