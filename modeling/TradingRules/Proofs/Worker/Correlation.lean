import TradingRules.Proofs.Worker.Inquiries
import Mathlib.Data.List.TakeWhile

/-!
# Answers find their requests

Threads share the table of a channel, and yet each request fares as if it were alone. The table
holds exactly the requests that were given a number and that nothing has taken out of it since; a
closed table stays empty.
-/

namespace TradingRules.Worker

open Traffic (Occurrence)

/-! ### All requests of a channel -/

namespace Traffic

variable {t : Traffic} {e : Occurrence}

def refusal (method : Value) : Fault :=
  .isolationBoundary s!"API channel closed: {method.shown}"

/-- The request that an event begins. -/
def newcomers (t : Traffic) : Occurrence → List Inquiry
  | .begin method params =>
    if t.proxy.closed then [] else [{ id := t.proxy.nextId, method, params }]
  | _ => []

theorem newcomers_of_closed (hclosed : t.proxy.closed = true) (e : Occurrence) :
    t.newcomers e = [] := by
  cases e <;> simp [newcomers, hclosed]

theorem newcomers_of_open (hopen : t.proxy.closed = false) (e : Occurrence) : t.newcomers e =
    e.request?.toList.map fun r => { id := t.proxy.nextId, method := r.1, params := r.2 } := by
  cases e <;> simp [newcomers, hopen, Occurrence.request?]

/-- What holds of a channel whatever happens: the requests are numbered from one on, and the table
holds those that wait; a closed table is empty. -/
structure Sound (t : Traffic) : Prop where
  ids : t.inquiries.map (·.id) = List.range' 1 t.inquiries.length
  next : t.proxy.nextId = t.inquiries.length + 1
  pending : t.proxy.pending = (t.inquiries.filter (·.ruling.isNone)).map (·.id)
  closed : t.proxy.closed = true → t.proxy.pending = []

theorem step_resolve_of_carries {id : Nat} {message : Value} (hid : id ∈ t.proxy.pending)
    (h : carries id message = true) : t.step (.resolve message) =
      { t with proxy := t.proxy.forget id }.onInquiry id (·.handed (answerOf message)) := by
  rw [step, Proxy.resolve_of_carries hid h]

theorem step_resolve_of_stray {message : Value}
    (h : ∀ id ∈ t.proxy.pending, carries id message = false) : t.step (.resolve message) = t := by
  obtain ⟨hkept, hnone⟩ := Proxy.resolve_of_stray h
  rw [step]
  generalize t.proxy.resolve message = resolved at hkept hnone
  obtain ⟨result, proxy⟩ := resolved
  obtain rfl : proxy = t.proxy := hkept
  split
  · rename_i hresult
    exact absurd (congrArg Prod.fst hresult) (hnone _)
  · rename_i hresult
    obtain ⟨-, rfl⟩ := Prod.mk.inj hresult
    rfl

@[simp] theorem inquiries_afterAct (id : Nat) (act : Inquiry.Act) :
    (t.afterAct id act).inquiries = t.inquiries := by
  cases act <;> rfl

/-- The channel after an event, told from the event alone. -/
def channelAfter (t : Traffic) (e : Occurrence) : Proxy where
  nextId := t.proxy.nextId + (t.newcomers e).length
  pending := t.proxy.pending.filter (fun id => (e.ruling? id).isNone) ++
    (t.newcomers e).map (·.id)
  closed := t.proxy.closed || e.isClose

theorem channelAfter_of_no_newcomers (hnone : t.newcomers e = []) (hopen : e.isClose = false) :
    t.channelAfter e =
      { t.proxy with pending := t.proxy.pending.filter fun id => (e.ruling? id).isNone } := by
  simp [channelAfter, hnone, hopen]

theorem proxy_step (t : Traffic) (e : Occurrence) : (t.step e).proxy = t.channelAfter e := by
  have hkept : ∀ {e : Occurrence}, (∀ id ∈ t.proxy.pending, e.ruling? id = none) →
      t.proxy.pending.filter (fun id => (e.ruling? id).isNone) = t.proxy.pending := fun hnone =>
    List.filter_eq_self.mpr fun id hid => by simp [hnone id hid]
  cases e with
  | begin method params =>
    rw [channelAfter, hkept fun _ _ => rfl, step, newcomers, Proxy.register]
    obtain ⟨nextId, pending, closed⟩ := t.proxy
    cases closed <;> simp [Occurrence.isClose]
  | resolve message =>
    rw [channelAfter_of_no_newcomers rfl rfl]
    by_cases h : ∃ id ∈ t.proxy.pending, carries id message = true
    · obtain ⟨id, hid, hcarries⟩ := h
      rw [step_resolve_of_carries hid hcarries]
      -- The message carries the number of one request only, so no other leaves the table.
      refine congrArg (fun pending => { t.proxy with pending }) (List.filter_congr fun n _ => ?_)
      cases hn : carries n message with
      | true =>
        obtain rfl := carries_inj hn hcarries
        simp [Occurrence.ruling?, hn]
      | false =>
        have hne : n ≠ id := fun heq => Bool.false_ne_true (hn.symm.trans (heq ▸ hcarries))
        simp [Occurrence.ruling?, hn, hne]
    · have hstray : ∀ id ∈ t.proxy.pending, carries id message = false := by
        simpa using h
      rw [step_resolve_of_stray hstray,
        hkept fun id hid => by simp [Occurrence.ruling?, hstray id hid]]
  | close reason =>
    rw [channelAfter, List.filter_eq_nil_iff.mpr fun _ _ => by simp [Occurrence.ruling?]]
    simp [step, Proxy.close, newcomers, Occurrence.isClose]
  | act id act =>
    rw [channelAfter_of_no_newcomers rfl rfl]
    cases act with
    | purge =>
      refine congrArg (fun pending => { t.proxy with pending }) (List.filter_congr fun n _ => ?_)
      by_cases hn : id = n
      · simp [Occurrence.ruling?, hn]
      · simp [Occurrence.ruling?, hn, Ne.symm hn]
    | post | signal | expire | wake =>
      rw [hkept fun _ _ => rfl]
      rfl

theorem refused_step (t : Traffic) (e : Occurrence) : (t.step e).refused = t.refused ++
    if t.proxy.closed then (e.request?.map fun r => refusal r.1).toList else [] := by
  cases e with
  | begin method params =>
    rw [step, Proxy.register]
    cases t.proxy.closed <;> simp [Occurrence.request?, refusal]
  | resolve message =>
    simp only [step]
    split <;> simp [onInquiry, Occurrence.request?]
  | close reason => simp [step, Occurrence.request?]
  | act id act => cases act <;> simp [step, onInquiry, afterAct, Occurrence.request?]

namespace Sound

variable (h : t.Sound)

include h

theorem nodup : (t.inquiries.map (·.id)).Nodup := by
  rw [h.ids]
  exact List.nodup_range'

theorem mem_pending_iff {q : Inquiry} (hq : q ∈ t.inquiries) :
    q.id ∈ t.proxy.pending ↔ q.ruling = none := by
  rw [h.pending, List.mem_map]
  constructor
  · rintro ⟨q', hq', hid⟩
    obtain ⟨hmem, hopen⟩ := List.mem_filter.mp hq'
    rw [← List.inj_on_of_nodup_map h.nodup hmem hq hid]
    exact Option.isNone_iff_eq_none.mp hopen
  · exact fun hopen => ⟨q, List.mem_filter.mpr ⟨hq, by simp [hopen]⟩, rfl⟩

/-- Each request hears every event as if it were alone. -/
theorem inquiries_step (e : Occurrence) :
    (t.step e).inquiries = t.inquiries.map (·.hear e) ++ t.newcomers e := by
  cases e with
  | begin method params =>
    have hkept : t.inquiries.map (·.hear (.begin method params)) = t.inquiries := by
      refine List.map_id'' (fun q => ?_) _
      unfold Inquiry.hear
      cases q.ruling <;> rfl
    rw [hkept, step, newcomers, Proxy.register]
    cases t.proxy.closed <;> simp
  | resolve message =>
    refine .trans ?_ (List.append_nil _).symm
    by_cases hcarried : ∃ id ∈ t.proxy.pending, carries id message = true
    · obtain ⟨id, hid, hcarries⟩ := hcarried
      rw [step_resolve_of_carries hid hcarries]
      refine List.map_congr_left fun q hq => ?_
      by_cases hqid : q.id = id
      · subst id
        simp [Inquiry.hear, (h.mem_pending_iff hq).mp hid, Occurrence.ruling?, hcarries]
      · have hn : carries q.id message = false :=
          eq_false_of_ne_true fun hn => hqid (carries_inj hn hcarries)
        cases hruling : q.ruling <;> simp [Inquiry.hear, Occurrence.ruling?, hqid, hn, hruling]
    · have hstray : ∀ id ∈ t.proxy.pending, carries id message = false := by
        simpa using hcarried
      rw [step_resolve_of_stray hstray]
      refine (List.map_id _).symm.trans (List.map_congr_left fun q hq => ?_)
      cases hruling : q.ruling with
      | some ruled => simp [Inquiry.hear, hruling]
      | none =>
        simp [Inquiry.hear, hruling, Occurrence.ruling?,
          hstray _ ((h.mem_pending_iff hq).mpr hruling)]
  | close reason =>
    refine .trans ?_ (List.append_nil _).symm
    refine List.map_congr_left fun q hq => ?_
    have hwaiting := h.mem_pending_iff hq
    cases hruling : q.ruling <;> simp [Inquiry.hear, Occurrence.ruling?, hruling, hwaiting]
  | act id act =>
    refine .trans ?_ (List.append_nil _).symm
    rw [step, onInquiry, inquiries_afterAct]
    rfl

theorem id_le {q : Inquiry} (hq : q ∈ t.inquiries) : q.id ≤ t.inquiries.length := by
  have hid : q.id ∈ List.range' 1 t.inquiries.length :=
    h.ids ▸ List.mem_map_of_mem hq
  obtain ⟨i, hi, hqi⟩ := List.mem_range'.mp hid
  omega

end Sound

/-! ### What happened since -/

/-- What happened after so many requests were begun. -/
def since : Nat → List Occurrence → List Occurrence
  | 0, events => events
  | _ + 1, [] => []
  | n + 1, e :: rest => if e.isBegin then since n rest else since (n + 1) rest

theorem since_concat {n : Nat} {events : List Occurrence} (h : n ≤ events.countP Occurrence.isBegin)
    (e : Occurrence) : since n (events ++ [e]) = since n events ++ [e] := by
  induction events generalizing n with
  | nil =>
    obtain rfl : n = 0 := by simpa using h
    rfl
  | cons first rest ih =>
    cases n with
    | zero => rfl
    | succ n =>
      cases hfirst : first.isBegin with
      | true =>
        rw [List.countP_cons_of_pos hfirst] at h
        simp only [List.cons_append, since, hfirst, if_true, ih (Nat.le_of_succ_le_succ h)]
      | false =>
        rw [List.countP_cons_of_neg (by simp [hfirst])] at h
        simp only [List.cons_append, since, hfirst, Bool.false_eq_true, if_false, ih h]

/-- Nothing has happened yet since the last request was begun. -/
theorem since_last {events : List Occurrence} (h : e.isBegin = true) :
    since (events.countP Occurrence.isBegin + 1) (events ++ [e]) = [] := by
  induction events with
  | nil => simp [since, h]
  | cons first rest ih =>
    cases hfirst : first.isBegin with
    | true =>
      rw [List.countP_cons_of_pos hfirst]
      simpa only [List.cons_append, since, hfirst, if_true] using ih
    | false =>
      rw [List.countP_cons_of_neg (by simp [hfirst])]
      simpa only [List.cons_append, since, hfirst, Bool.false_eq_true, if_false] using ih

/-- The state of a channel after some events. -/
structure Recorded (events : List Occurrence) (t : Traffic) : Prop extends t.Sound where
  isClosed : t.proxy.closed = events.any Occurrence.isClose
  requests : t.inquiries.map (fun q => (q.method, q.params)) =
    (events.takeWhile (!·.isClose)).filterMap Occurrence.request?
  refused : t.refused =
    ((events.dropWhile (!·.isClose)).filterMap Occurrence.request?).map fun r => refusal r.1
  follows : ∀ q ∈ t.inquiries, q.Follows (since q.id events)

theorem recorded_nil : Recorded [] {} where
  ids := rfl
  next := rfl
  pending := rfl
  closed _ := rfl
  isClosed := rfl
  requests := rfl
  refused := rfl
  follows _ hq := nomatch hq

namespace Recorded

variable {events : List Occurrence} (h : Recorded events t)

include h

theorem not_isClose (hopen : t.proxy.closed = false) : ∀ e ∈ events, (!e.isClose) = true := by
  have hnone := List.any_eq_false.mp (h.isClosed ▸ hopen)
  simpa using hnone

/-- Before the closing all requests are given a number. -/
theorem takeWhile_eq (hopen : t.proxy.closed = false) :
    events.takeWhile (!·.isClose) = events ∧ events.dropWhile (!·.isClose) = [] :=
  ⟨List.takeWhile_eq_self_iff.mpr (h.not_isClose hopen),
    List.dropWhile_eq_nil_iff.mpr (h.not_isClose hopen)⟩

/-- After the closing none is. -/
theorem takeWhile_concat_of_closed (hclosed : t.proxy.closed = true) (e : Occurrence) :
    (events ++ [e]).takeWhile (!·.isClose) = events.takeWhile (!·.isClose) ∧
      (events ++ [e]).dropWhile (!·.isClose) = events.dropWhile (!·.isClose) ++ [e] := by
  have hany : ¬∀ e ∈ events, (!e.isClose) = true := by
    have hsome := List.any_eq_true.mp (h.isClosed ▸ hclosed)
    simpa using hsome
  constructor
  · rw [List.takeWhile_append, if_neg]
    intro hlength
    exact hany (List.takeWhile_eq_self_iff.mp
      ((List.takeWhile_prefix _).eq_of_length hlength))
  · rw [List.dropWhile_append, if_neg]
    rwa [List.isEmpty_iff, List.dropWhile_eq_nil_iff]

theorem length_eq : t.inquiries.length =
    (events.takeWhile (!·.isClose)).countP Occurrence.isBegin := by
  have hbegin : (fun e : Occurrence => e.request?.isSome) = Occurrence.isBegin := by
    funext e
    cases e <;> rfl
  rw [← List.length_map (fun q : Inquiry => (q.method, q.params)), h.requests,
    List.length_filterMap_eq_countP, hbegin]

theorem id_le_countP {q : Inquiry} (hq : q ∈ t.inquiries) :
    q.id ≤ events.countP Occurrence.isBegin := by
  refine (h.toSound.id_le hq).trans ?_
  rw [h.length_eq]
  exact (List.takeWhile_sublist _).countP_le

theorem can (hallowed : t.allows e = true) {q : Inquiry} (hq : q ∈ t.inquiries)
    {act : Inquiry.Act} (he : e = .act q.id act) : q.can act = true := by
  subst he
  obtain ⟨q', hq', hcan⟩ := List.any_eq_true.mp hallowed
  rw [Bool.and_eq_true, decide_eq_true_iff] at hcan
  rw [← List.inj_on_of_nodup_map h.nodup hq' hq hcan.1]
  exact hcan.2

theorem follows_step (hallowed : t.allows e = true) {q : Inquiry} (hq : q ∈ (t.step e).inquiries) :
    q.Follows (since q.id (events ++ [e])) := by
  rw [h.toSound.inquiries_step, List.mem_append] at hq
  rcases hq with hq | hq
  · obtain ⟨q, hmem, rfl⟩ := List.mem_map.mp hq
    rw [Inquiry.id_hear, since_concat (h.id_le_countP hmem)]
    exact (h.follows q hmem).hear fun act => h.can hallowed hmem
  · cases e with
    | begin method params =>
      rw [newcomers] at hq
      split at hq
      · cases hq
      · rename_i hopen
        obtain rfl := List.mem_singleton.mp hq
        have hlength := h.length_eq
        rw [(h.takeWhile_eq (by simpa using hopen)).1] at hlength
        have hlast : since (events.countP Occurrence.isBegin + 1)
            (events ++ [.begin method params]) = [] := since_last rfl
        show Inquiry.Follows _ (since t.proxy.nextId _)
        rw [h.next, hlength, hlast]
        exact Inquiry.follows_fresh _ _ _
    | resolve | close | act => cases hq

/-- A request that hears an event waits on unless the event takes it out of the table. -/
theorem waiting_step (hallowed : t.allows e = true) :
    ((t.inquiries.map (·.hear e)).filter (·.ruling.isNone)).map (·.id) =
      t.proxy.pending.filter fun id => (e.ruling? id).isNone := by
  rw [List.filter_map, List.map_map, h.pending, List.filter_map, List.filter_filter]
  refine congrArg₂ List.map (funext fun q => Inquiry.id_hear) (List.filter_congr fun q hq => ?_)
  have hfollows := h.follows q hq
  have hheard := (hfollows.hear fun act => h.can hallowed hq).ruling
  rw [Inquiry.id_hear, hfollows.ruling_concat e] at hheard
  simp [hheard, Bool.and_comm]

theorem sound_step (hallowed : t.allows e = true) : (t.step e).Sound := by
  have hinquiries := h.toSound.inquiries_step e
  have hwaiting := h.waiting_step hallowed
  have hproxy := t.proxy_step e
  have hids : (t.inquiries.map (·.hear e)).map (·.id) = t.inquiries.map (·.id) := by
    simp [Function.comp_def]
  have hlength : (t.step e).inquiries.length = t.inquiries.length + (t.newcomers e).length := by
    rw [hinquiries, List.length_append, List.length_map]
  -- An event begins one request at most, under the next number, and that one waits.
  have hfresh : (t.newcomers e).filter (·.ruling.isNone) = t.newcomers e ∧
      (t.newcomers e).map (·.id) = List.range' t.proxy.nextId (t.newcomers e).length := by
    cases hclosed : t.proxy.closed with
    | true => rw [newcomers_of_closed hclosed]; exact ⟨rfl, rfl⟩
    | false => rw [newcomers_of_open hclosed]; cases e.request? <;> exact ⟨rfl, rfl⟩
  refine ⟨?_, ?_, ?_, fun hclosed => ?_⟩
  · rw [hlength, hinquiries, List.map_append, hids, h.ids, hfresh.2, h.next, Nat.add_comm _ 1]
    exact List.range'_append_1
  · rw [hproxy, hlength]
    show t.proxy.nextId + (t.newcomers e).length = _
    rw [h.next]
    omega
  · rw [hproxy, channelAfter, hinquiries, List.filter_append, List.map_append, hwaiting, hfresh.1]
  · rw [hproxy, channelAfter, Bool.or_eq_true] at hclosed
    rw [hproxy, channelAfter]
    rcases hclosed with hclosed | hclosed
    · rw [h.closed hclosed, newcomers_of_closed hclosed]
      rfl
    · cases e with
      | close reason => simp [Occurrence.ruling?, newcomers]
      | begin | resolve | act => cases hclosed

theorem step (hallowed : t.allows e = true) : Recorded (events ++ [e]) (t.step e) where
  toSound := h.sound_step hallowed
  isClosed := by rw [proxy_step, channelAfter, h.isClosed, List.any_append, List.any_cons,
    List.any_nil, Bool.or_false]
  requests := by
    have hsame : (t.inquiries.map (·.hear e)).map (fun q => (q.method, q.params)) =
        t.inquiries.map fun q => (q.method, q.params) := by
      simp [Function.comp_def]
    rw [h.toSound.inquiries_step, List.map_append, hsame, h.requests]
    cases hclosed : t.proxy.closed with
    | true =>
      rw [newcomers_of_closed hclosed, (h.takeWhile_concat_of_closed hclosed e).1]
      simp
    | false =>
      rw [newcomers_of_open hclosed, (h.takeWhile_eq hclosed).1,
        List.takeWhile_append_of_pos (h.not_isClose hclosed), List.filterMap_append]
      cases e <;> rfl
  refused := by
    rw [refused_step, h.refused]
    cases hclosed : t.proxy.closed with
    | true =>
      rw [(h.takeWhile_concat_of_closed hclosed e).2, List.filterMap_append, List.map_append]
      cases e <;> rfl
    | false =>
      rw [(h.takeWhile_eq hclosed).2, List.dropWhile_append_of_pos (h.not_isClose hclosed)]
      cases e <;> rfl
  follows _ := h.follows_step hallowed

end Recorded

/-! ### Courses of events -/

theorem after_concat (t : Traffic) (events : List Occurrence) (e : Occurrence) :
    t.after (events ++ [e]) = (t.after events).step e := by
  simp [after]

theorem happens_concat (t : Traffic) (events : List Occurrence) (e : Occurrence) :
    t.happens (events ++ [e]) = (t.happens events && (t.after events).allows e) := by
  induction events generalizing t with
  | nil => simp [happens, after]
  | cons first rest ih =>
    rw [List.cons_append, happens, ih, happens, Bool.and_assoc]
    rfl

theorem recorded_after {events : List Occurrence} (h : ({} : Traffic).happens events = true) :
    Recorded events (({} : Traffic).after events) := by
  induction events using List.reverseRecOn with
  | nil => exact recorded_nil
  | append_singleton events e ih =>
    rw [happens_concat, Bool.and_eq_true] at h
    rw [after_concat]
    exact (ih h.1).step h.2

/-- What a request has ended with stays as it is. -/
theorem Recorded.final {events more : List Occurrence} (h : Recorded events t)
    (hmore : t.happens more = true) {q : Inquiry} (hq : q ∈ t.inquiries)
    (hended : q.outcome.isSome = true) :
    ∃ q' ∈ (t.after more).inquiries, q'.id = q.id ∧ q'.outcome = q.outcome := by
  induction more generalizing events t q with
  | nil => exact ⟨q, hq, rfl, rfl⟩
  | cons e rest ih =>
    rw [happens, Bool.and_eq_true] at hmore
    have hmem : q.hear e ∈ (t.step e).inquiries := by
      rw [h.toSound.inquiries_step]
      exact List.mem_append_left _ (List.mem_map_of_mem hq)
    have hsame : (q.hear e).outcome = q.outcome :=
      Inquiry.outcome_hear (fun act => h.can hmore.1 hq) hended
    obtain ⟨q', hq', hid, houtcome⟩ := ih (h.step hmore.1) hmore.2 hmem (hsame ▸ hended)
    exact ⟨q', hq', hid.trans Inquiry.id_hear, houtcome.trans hsame⟩

/-- The thread of a request can bring it to its end without the help of others. -/
def CanEnd (t : Traffic) (id : Nat) : Prop :=
  ∃ acts : List Inquiry.Act, .signal ∉ acts ∧ t.happens (acts.map (.act id)) = true ∧
    ∃ q ∈ (t.after (acts.map (.act id))).inquiries, q.id = id ∧ q.outcome.isSome = true

namespace CanEnd

variable {q : Inquiry} (hq : q ∈ t.inquiries)

include hq

theorem of_act {act : Inquiry.Act} (hcan : q.can act = true) (hown : act ≠ .signal)
    (h : ∀ t' : Traffic, q.act act ∈ t'.inquiries → t'.CanEnd q.id) : t.CanEnd q.id := by
  have hallowed : t.allows (.act q.id act) = true :=
    List.any_eq_true.mpr ⟨q, hq, by simp [hcan]⟩
  have hmem : q.act act ∈ (t.step (.act q.id act)).inquiries := by
    refine List.mem_map.mpr ⟨q, by rwa [inquiries_afterAct], if_pos rfl⟩
  obtain ⟨acts, hsignal, hhappens, hended⟩ := h _ hmem
  refine ⟨act :: acts, ?_, ?_, hended⟩
  · simp [hsignal, hown.symm]
  · rw [List.map_cons, happens, hallowed, hhappens, Bool.and_self]

theorem of_ended (h : q.outcome.isSome = true) : t.CanEnd q.id :=
  ⟨[], List.not_mem_nil, rfl, q, hq, rfl, h⟩

theorem of_expired (h : q.expired = true) : t.CanEnd q.id := by
  cases hended : q.outcome with
  | some o => exact of_ended hq (by simp [hended])
  | none =>
    have hcan : q.can .purge = true := by simp [Inquiry.can, h, hended]
    exact of_act hq hcan (by decide) fun t' hq' => of_ended (q := q.act .purge) hq' rfl

theorem of_posted (h : q.posted = true) (hsignalled : q.signalled = true → q.answer.isSome = true) :
    t.CanEnd q.id := by
  cases hexpired : q.expired with
  | true => exact of_expired hq hexpired
  | false =>
    -- Until it is signalled, a thread can always lose patience.
    cases hawake : q.signalled with
    | false =>
      have hcan : q.can .expire = true := by simp [Inquiry.can, h, hexpired, hawake]
      exact of_act hq hcan (by decide) fun t' hq' => of_expired (q := q.act .expire) hq' rfl
    | true =>
      cases hended : q.outcome with
      | some o => exact of_ended hq (by simp [hended])
      | none =>
        have hcan : q.can .wake = true := by simp [Inquiry.can, h, hexpired, hawake, hended]
        refine of_act hq hcan (by decide) fun t' hq' => of_ended (q := q.act .wake) hq' ?_
        simpa [Inquiry.act] using hsignalled hawake

end CanEnd

theorem Recorded.canEnd {events : List Occurrence} (h : Recorded events t) {q : Inquiry}
    (hq : q ∈ t.inquiries) : t.CanEnd q.id := by
  have hsignalled := (h.follows q hq).signalled
  cases hposted : q.posted with
  | true => exact .of_posted hq hposted hsignalled
  | false =>
    have hcan : q.can .post = true := by simp [Inquiry.can, hposted]
    exact .of_act hq hcan (by decide) fun t' hq' => .of_posted (q := q.act .post) hq' rfl hsignalled

/-! ### One request by itself -/

/-- A request that is begun and posted, and then comes to its end by one arrival. -/
def course (id : Nat) (method params : Value) (arrival : Arrival) : List Occurrence :=
  [.begin method params, .act id .post] ++ match arrival with
    | .nothing => [.act id .expire, .act id .purge]
    | .closing reason => [.close reason, .act id .signal, .act id .wake]
    | .message content => .resolve content ::
      if carries id content then [.act id .signal, .act id .wake]
      else [.act id .expire, .act id .purge]

variable {p : Proxy} {method params : Value}

theorem settle_eq_after (hopen : p.closed = false) (arrival : Arrival)
    (hregular : ∀ content fault, arrival = .message content →
      ((p.register method).2.resolve content).1 ≠ .error fault) :
    let t := ({ proxy := p } : Traffic).after (course p.nextId method params arrival)
    ∃ outcome, (p.register method).2.settle p.nextId method arrival = (outcome, t.proxy) ∧
      t.posted = [requestMessage p.nextId method params] ∧
      t.inquiries.map (·.outcome) = [some outcome] := by
  have hposted : ({ proxy := p } : Traffic).after [.begin method params, .act p.nextId .post] =
      { proxy := (p.register method).2
        inquiries := [{ id := p.nextId, method, params, posted := true }]
        posted := [requestMessage p.nextId method params] } := by
    simp [after, step, Proxy.register, hopen, onInquiry, afterAct, Inquiry.act, Inquiry.message]
  have hwaits : p.nextId ∈ (p.register method).2.pending := by
    simp [Proxy.register, hopen]
  rw [after] at hposted
  unfold course
  rw [after, List.foldl_append, hposted]
  generalize (p.register method).2 = p' at hregular hwaits
  cases arrival with
  | nothing =>
    exact ⟨_, rfl, rfl, by simp [step, afterAct, onInquiry, Inquiry.act, Inquiry.timeout]⟩
  | closing reason =>
    exact ⟨_, rfl, rfl, by simp [step, afterAct, onInquiry, Inquiry.act, Inquiry.handed, hwaits]⟩
  | message content =>
    have hother : ∀ answer, (p'.resolve content).1 = .ok (some (p.nextId, answer)) →
        carries p.nextId content = true := fun _ => Proxy.carries_of_resolve
    have hfault := fun fault => hregular content fault rfl
    simp only [Proxy.settle, List.foldl_cons]
    cases hcarried : carries p.nextId content with
    | true =>
      rw [step, Proxy.resolve_of_carries hwaits hcarried]
      exact ⟨_, by simp only [if_pos]; rfl, by
        simp [step, afterAct, onInquiry, Inquiry.act, Inquiry.handed]⟩
    | false =>
      rw [step]
      generalize p'.resolve content = resolved at hother hfault
      obtain ⟨fault | found, p''⟩ := resolved
      · exact absurd rfl (hfault fault)
      · cases found with
        | none =>
          exact ⟨_, rfl, by simp [step, afterAct, onInquiry, Inquiry.act, Inquiry.timeout]⟩
        | some found =>
          have hne : found.1 ≠ p.nextId := fun heq =>
            Bool.false_ne_true (hcarried.symm.trans (hother found.2 (by rw [← heq])))
          simp only [if_neg hne]
          exact ⟨_, rfl, by
            simp [step, afterAct, onInquiry, Inquiry.act, Inquiry.timeout, hne.symm]⟩

/-- A request that nothing interferes with takes its course. -/
theorem send_eq_after {τ : Type} (peer : Peer τ) (s : τ) (hopen : p.closed = false) :
    let arrival := peer.respond (requestMessage p.nextId method params) s
    let t := ({ proxy := p } : Traffic).after (course p.nextId method params arrival.1)
    (∀ content fault, arrival.1 = .message content →
      ((p.register method).2.resolve content).1 ≠ .error fault) →
    ∃ outcome, p.send peer method params s = (outcome, t.proxy, arrival.2) ∧
      t.posted = [requestMessage p.nextId method params] ∧
      t.inquiries.map (·.outcome) = [some outcome] := by
  intro arrival t hregular
  obtain ⟨outcome, hsettled, hposted⟩ := settle_eq_after hopen arrival.1 hregular
  have hregistered : p.register method = (.ok p.nextId, (p.register method).2) := by
    simp [Proxy.register, hopen]
  refine ⟨outcome, ?_, hposted⟩
  rw [Proxy.send, hregistered]
  show (((p.register method).2.settle p.nextId method arrival.1).1,
    ((p.register method).2.settle p.nextId method arrival.1).2, arrival.2) = _
  rw [hsettled]

/-! ### Correlation -/

/-- What is said about a request since it was begun: the first event that takes it out of the table,
with what it is handed then. -/
def ruling? (id : Nat) (events : List Occurrence) : Option (Option Answer) :=
  (since id events).findSome? (Occurrence.ruling? id)

/-- Requests and answers of a channel after some events. -/
structure Correlated (events : List Occurrence) (t : Traffic) : Prop where
  /-- No number is given twice. -/
  ids : t.inquiries.map (·.id) = List.range' 1 t.inquiries.length
  /-- All requests before the closing are given a number. -/
  requests : t.inquiries.map (fun q => (q.method, q.params)) =
    (events.takeWhile (!·.isClose)).filterMap Occurrence.request?
  /-- All requests after the closing are refused. -/
  refused : t.refused =
    ((events.dropWhile (!·.isClose)).filterMap Occurrence.request?).map fun r => refusal r.1
  /-- The table holds the requests that nothing has taken out of it. -/
  pending : t.proxy.pending =
    (t.inquiries.filter fun q => (ruling? q.id events).isNone).map (·.id)
  /-- A request ends with a timeout if its thread gave it up, and else with what it was handed. -/
  outcome : ∀ q ∈ t.inquiries, ∀ o ∈ q.outcome,
    .act q.id .purge ∈ since q.id events ∧ o = q.timeout ∨
      .act q.id .purge ∉ since q.id events ∧
        ∃ answer, ruling? q.id events = some (some answer) ∧ o = answer.outcome q.method
  /-- A request ends once. -/
  final : ∀ more, t.happens more = true → ∀ q ∈ t.inquiries, q.outcome.isSome = true →
    ∃ q' ∈ (t.after more).inquiries, q'.id = q.id ∧ q'.outcome = q.outcome
  /-- A request ends whatever others do. -/
  canEnd : ∀ q ∈ t.inquiries, t.CanEnd q.id
  /-- A message for no request in the table changes nothing. -/
  stray : ∀ message, (∀ id ∈ t.proxy.pending, carries id message = false) →
    t.step (.resolve message) = t
  /-- After the closing nothing waits, and requests are refused without being posted. -/
  closed : (∃ reason, .close reason ∈ events) → t.proxy.pending = [] ∧
    ∀ method params, t.step (.begin method params) =
      { t with refused := t.refused ++ [refusal method] }

/-- Whatever threads do on one channel, in whatever order, each request ends with the first answer
that carries its number, with the closing, or with a timeout, and answers reach no other request. -/
theorem requests_are_correlated (events : List Occurrence)
    (h : ({} : Traffic).happens events = true) : Correlated events (({} : Traffic).after events) := by
  have hrecorded := recorded_after h
  generalize ({} : Traffic).after events = t at hrecorded
  refine ⟨hrecorded.ids, hrecorded.requests, hrecorded.refused, ?_, ?_,
    fun more hmore q => hrecorded.final hmore, fun q => hrecorded.canEnd,
    fun message => step_resolve_of_stray, fun hclose => ?_⟩
  · rw [hrecorded.pending]
    refine congrArg _ (List.filter_congr fun q hq => ?_)
    rw [(hrecorded.follows q hq).ruling, ruling?]
  · intro q hq o ho
    obtain ⟨hruling, -, hpurged, houtcome⟩ := hrecorded.follows q hq
    have hended : q.outcome.isSome = true := Option.isSome_iff_exists.mpr ⟨o, ho⟩
    rcases houtcome o ho with ⟨hexpired, htimeout⟩ | ⟨hwaited, -, answer, hhanded, hanswer⟩
    · exact .inl ⟨hpurged.mpr ⟨hexpired, hended⟩, htimeout⟩
    · refine .inr ⟨fun hpurge => ?_, answer, ?_, hanswer⟩
      · exact Bool.false_ne_true (hwaited.symm.trans (hpurged.mp hpurge).1)
      · rw [ruling?, ← hruling, Inquiry.ruling, hhanded]
  · obtain ⟨reason, hmem⟩ := hclose
    have hclosed : t.proxy.closed = true := by
      rw [hrecorded.isClosed]
      exact List.any_eq_true.mpr ⟨.close reason, hmem, rfl⟩
    refine ⟨hrecorded.toSound.closed hclosed, fun method params => ?_⟩
    rw [step, Proxy.register, hclosed]
    rfl

/-- An answer under a number. -/
def answered (id : Nat) (price : Int) : Occurrence :=
  .resolve (.object [("type", .text "api-response"), ("request_id", .int id),
    ("success", .bool true), ("result", .int price)])

def asked (stock : String) : Occurrence :=
  .begin (.text "get_current_price") (.list [.text stock])

/-- The second request is answered twice and the first one too late, a number is answered that was
never given, and the channel is closed on the third request and before the fourth. -/
def crossing : List Occurrence :=
  [asked "A", asked "B", .act 2 .post, .act 1 .post, answered 2 20, answered 2 21, answered 7 70,
    .act 1 .expire, .act 2 .signal, answered 1 10, .act 1 .purge, asked "C", .act 2 .wake,
    .act 3 .post, .close (.text "worker stopping"), .act 3 .signal, answered 3 30, asked "D",
    .act 3 .wake]

theorem crossing_is_correlated : ({} : Traffic).happens crossing = true ∧
    Correlated crossing (({} : Traffic).after crossing) ∧
      (({} : Traffic).after crossing).inquiries.map (fun q => (q.id, q.outcome)) =
        [(1, some (.error (.requestTimeout "get_current_price"))), (2, some (.ok (.int 20))),
          (3, some (.error (.marketData "worker stopping")))] ∧
      (({} : Traffic).after crossing).refused =
        [.isolationBoundary "API channel closed: get_current_price"] :=
  ⟨by decide, requests_are_correlated crossing (by decide), rfl, rfl⟩

end Traffic

end TradingRules.Worker
