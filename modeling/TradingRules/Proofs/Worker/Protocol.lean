import TradingRules.Proofs.Logic.Account
import TradingRules.Proofs.Worker.Phases

/-!
# The messages of a worker

A worker answers each message to take up a logic by saying whether it is ready, and each message to
start by its interval or by the complaint that there is nothing to start. The last thing that it
posts is that it has stopped, if it was told to; at the end of its inbox it says nothing. Either way
nobody is left waiting on its channel.
-/

namespace TradingRules.Worker

open Event (told)

/-! ### Answers -/

namespace Notice

/-- The notices that answer a message. -/
def isReply : Notice → Bool
  | ready | initFailed _ | started _ | stopped => true
  | error message => message = "Interpreter not initialized"
  | log _ _ | order _ _ _ => false

/-- The notices that say what has become of a logic. -/
def isVerdict : Notice → Bool
  | ready | initFailed _ => true
  | _ => false

variable {n : Notice}

theorem OfTick.not_isReply (h : n.OfTick) : n.isReply = false := by
  have hne := h.ne_error
  cases h with
  | log title message | order side stock data => rfl
  | fault e => simpa [isReply] using hne

theorem OfTick.ne_stopped (h : n.OfTick) : n ≠ .stopped := by
  rintro rfl
  cases h

theorem isReply_of_isVerdict (h : n.isVerdict = true) : n.isReply = true := by
  cases n <;> first | rfl | cases h

end Notice

def Event.isInit (e : Event) : Bool :=
  match e.message with
  | .init _ => true
  | _ => false

namespace Phase

variable {p : Phase} {e : Event} {n : Notice}

/-- The answers to what happens until a worker is told to stop. -/
def replies (p : Phase) : List Event → List Notice
  | [] => []
  | e :: rest => (p.reply? e).toList ++ if e.IsStop then [] else (p.after e).replies rest

theorem isReply_of_reply? (h : p.reply? e = some n) : n.isReply = true := by
  unfold reply? at h
  split at h
  · split at h <;> cases h <;> rfl
  · split at h
    · obtain ⟨x, -, rfl⟩ := Option.map_eq_some_iff.mp h
      rfl
    · cases h
      rfl
  · cases h
    rfl
  · cases h
  · cases h

theorem reply?_of_isStop (h : e.IsStop) : p.reply? e = some .stopped := by
  rw [reply?, show e.message = .stop from h]

theorem ne_stopped_of_reply? (h : ¬e.IsStop) (hn : p.reply? e = some n) : n ≠ .stopped := by
  rintro rfl
  unfold reply? at hn
  split at hn
  · split at hn <;> cases hn
  · split at hn
    · obtain ⟨x, -, hx⟩ := Option.map_eq_some_iff.mp hn
      cases hx
    · cases hn
  · exact h ‹_›
  · cases hn
  · cases hn

/-- A logic gets one verdict, and no other event does. -/
theorem countP_reply? (h : e.IsRegular) :
    (p.reply? e).toList.countP Notice.isVerdict = if e.isInit then 1 else 0 := by
  unfold reply? Event.isInit
  rw [Event.IsRegular] at h
  split
  · rename_i f hmessage
    rw [hmessage] at h ⊢
    cases hcompiled : CompiledLogic.ofLogic (logicOf f) with
    | ok c => rfl
    | error fault =>
      obtain ⟨error, rfl⟩ := h fault hcompiled
      rfl
  · rename_i f hmessage
    rw [hmessage]
    split
    · cases intervalOf f <;> rfl
    · rfl
  · rename_i hmessage
    rw [hmessage]
    rfl
  · rename_i hmessage
    rw [hmessage]
    rfl
  · rename_i hmessage
    rw [hmessage]
    rfl

variable {events : List Event}

theorem countP_replies (p : Phase) (h : ∀ e ∈ events, e.IsRegular) :
    (p.replies events).countP Notice.isVerdict =
      (events.takeWhile fun e => ¬e.IsStop).countP Event.isInit := by
  induction events generalizing p with
  | nil => rfl
  | cons e rest ih =>
    have hfirst := countP_reply? (p := p) (h e List.mem_cons_self)
    rw [replies, List.countP_append, hfirst]
    by_cases hstop : e.IsStop
    · have hinit : e.isInit = false := by rw [Event.isInit, show e.message = .stop from hstop]
      simp [hstop, hinit]
    · rw [if_neg hstop, ih _ fun e he => h e (List.mem_cons_of_mem _ he),
        List.takeWhile_cons_of_pos (by simpa using hstop), List.countP_cons, Nat.add_comm]

end Phase

/-! ### Sessions -/

/-- A worker that has neither an interpreter nor a scheduler, and lets nobody wait. -/
structure IsGone (w : Worker) : Prop where
  interpreter : w.interpreter = none
  scheduler : w.scheduler = none
  closed : w.proxy.closed = true
  pending : w.proxy.pending = []

namespace Desk

variable {τ : Type} {p : Phase} {d : Desk τ} {events : List Event}

theorem isGone_shutdown (d : Desk τ) : IsGone d.shutdown.worker where
  interpreter := rfl
  scheduler := rfl
  closed := rfl
  pending := rfl

/-- What a worker posts while it goes through events that it can handle, and how it ends. -/
theorem InPhase.pass (h : d.InPhase p) (peer : Peer τ) (hregular : ∀ e ∈ events, e.IsRegular) :
    ∃ notices, (d.pass peer events).2.line.posted = d.line.posted ++ notices ∧
      notices.filter Notice.isReply = p.replies events ∧
      ((∃ e ∈ events, e.IsStop) ∧
          (∃ d' : Desk τ, d.pass peer events = (some .stopped, d'.shutdown)) ∧
          (∃ before, notices = before ++ [.stopped] ∧ .stopped ∉ before) ∨
        (∀ e ∈ events, ¬e.IsStop) ∧ (d.pass peer events).1 = none ∧ .stopped ∉ notices) := by
  induction events generalizing d p with
  | nil => exact ⟨[], by simp [Desk.pass], rfl, .inr ⟨by simp, rfl, by simp⟩⟩
  | cons e rest ih =>
    obtain ⟨hphase, ⟨asides, hposted, hasides⟩, hending⟩ := h.obeys peer e
    have hfilter : (asides ++ (p.reply? e).toList).filter Notice.isReply = (p.reply? e).toList := by
      rw [List.filter_append, List.filter_eq_nil_iff.mpr fun n hn => by
        simp [(hasides n hn).not_isReply], List.nil_append, List.filter_eq_self]
      exact fun n hn => Phase.isReply_of_reply? (Option.mem_toList.mp hn)
    have hunstopped : .stopped ∉ asides := fun hn => (hasides _ hn).ne_stopped rfl
    -- The worker is told to stop by this event, or it goes on to the rest. It fails at none.
    rcases hending with ⟨hstop, hlast⟩ | ⟨hstop, hnone | ⟨hirregular, -⟩⟩
    · have hpass : d.pass peer (e :: rest) =
          (some .stopped, (d.shutdown.post .stopped).shutdown) := by
        rw [Desk.pass, hlast]
      refine ⟨asides ++ (p.reply? e).toList, ?_, ?_, .inl ⟨⟨e, List.mem_cons_self, hstop⟩,
        ⟨_, hpass⟩, asides, by simp [Phase.reply?_of_isStop hstop], hunstopped⟩⟩
      · rw [← List.append_assoc, ← hposted, hpass, hlast]
      · rw [hfilter, Phase.replies, if_pos hstop, List.append_nil]
    · have hpass : d.pass peer (e :: rest) = (d.advance peer e).2.pass peer rest := by
        rw [Desk.pass]
        generalize d.advance peer e = advanced at hnone
        obtain ⟨ending, d'⟩ := advanced
        obtain rfl : ending = none := hnone
        rfl
      have hquiet : .stopped ∉ asides ++ (p.reply? e).toList := by
        rw [List.mem_append, Option.mem_toList]
        rintro (hn | hn)
        · exact hunstopped hn
        · exact Phase.ne_stopped_of_reply? hstop hn rfl
      obtain ⟨notices, hlater, hreplies, hend⟩ :=
        ih hphase fun e he => hregular e (List.mem_cons_of_mem _ he)
      refine ⟨asides ++ (p.reply? e).toList ++ notices, ?_, ?_, ?_⟩
      · rw [hpass, hlater, hposted]
        simp only [List.append_assoc]
      · rw [List.filter_append, hfilter, hreplies, Phase.replies, if_neg hstop]
      · rw [hpass]
        rcases hend with ⟨⟨last, hmem, hlast⟩, hgone, before, rfl, hbefore⟩ | ⟨hall, hgoing, hrest⟩
        · refine .inl ⟨⟨last, List.mem_cons_of_mem _ hmem, hlast⟩, hgone,
            asides ++ (p.reply? e).toList ++ before, by simp, ?_⟩
          exact fun hn => (List.mem_append.mp hn).elim hquiet hbefore
        · refine .inr ⟨List.forall_mem_cons.mpr ⟨hstop, hall⟩, hgoing, ?_⟩
          exact fun hn => (List.mem_append.mp hn).elim hquiet hrest
    · exact absurd (hregular e List.mem_cons_self) hirregular

/-- A worker that can handle whatever comes answers every message until it is told to stop or its
inbox is at its end: each logic by one verdict, each start as the last logic was accepted or not.
That it has stopped is the last thing it posts, once, if it was told to. -/
theorem work_follows_protocol (peer : Peer τ) (outer : τ) (events : List Event)
    (hregular : ∀ e ∈ events, e.IsRegular) :
    let r := (ofWorker {} outer).work peer events
    let posted := r.2.line.posted
    posted.filter Notice.isReply = Phase.replies {} events ∧
      posted.countP Notice.isVerdict =
        (events.takeWhile fun e => ¬e.IsStop).countP Event.isInit ∧
      ((∃ e ∈ events, e.IsStop) → r.1 = .stopped ∧
        ∃ before, posted = before ++ [.stopped] ∧ .stopped ∉ before) ∧
      ((∀ e ∈ events, ¬e.IsStop) → r.1 = .exhausted ∧ .stopped ∉ posted) ∧
      IsGone r.2.worker := by
  intro r posted
  obtain ⟨notices, hposted, hreplies, hend⟩ :=
    (inPhase_bare ⟨{}, [], outer⟩).pass peer hregular
  have hverdicts : notices.countP Notice.isVerdict =
      (events.takeWhile fun e => ¬e.IsStop).countP Event.isInit := by
    rw [← Phase.countP_replies {} hregular, ← hreplies, List.countP_filter]
    exact List.countP_congr fun n _ => by simpa using Notice.isReply_of_isVerdict
  rcases hend with ⟨hstop, ⟨d', hpass⟩, hlast⟩ | ⟨hnostop, hnone, hunstopped⟩
  · have hr : r = (.stopped, d'.shutdown) := by
      show work _ _ _ = _
      rw [work, ofWorker, hpass]
    have hnotices : posted = notices := by
      rw [hpass] at hposted
      show r.2.line.posted = _
      rw [hr, hposted, List.nil_append]
    rw [hnotices, hr]
    refine ⟨hreplies, hverdicts, fun _ => ⟨rfl, hlast⟩, fun hall => ?_, isGone_shutdown d'⟩
    obtain ⟨e, he, hstop⟩ := hstop
    exact absurd hstop (hall e he)
  · have hr : r = (.exhausted, ((ofWorker {} outer).pass peer events).2.shutdown) := by
      show work _ _ _ = _
      rw [work]
      change ((ofWorker {} outer).pass peer events).1 = none at hnone
      generalize (ofWorker {} outer).pass peer events = passed at hnone
      obtain ⟨ending, d'⟩ := passed
      obtain rfl : ending = none := hnone
      rfl
    have hnotices : posted = notices := by
      show r.2.line.posted = _
      rw [hr]
      exact hposted
    rw [hnotices, hr]
    refine ⟨hreplies, hverdicts, ?_, fun _ => ⟨rfl, hunstopped⟩, isGone_shutdown _⟩
    rintro ⟨e, he, hstop⟩
    exact absurd hstop (hnostop e he)

/-- A worker is told to start before it has a logic, gets an empty logic and then one that compiles,
is started twice, hears what is not meant for it, and is told to stop. -/
def breakoutSession : List Event :=
  [told "start" [], told "init" [], told "start" [],
    told "init" [("logic_data", CompiledLogic.breakoutLogic)], told "start" [], .tick,
    told "start" [], told "api-response" [("request_id", .int 7)], .item (.text "start"),
    told "stop" [], told "init" []]

theorem breakout_session_follows_protocol :
    (∀ e ∈ breakoutSession, e.IsRegular) ∧
      ∃ reason, (((ofWorker {} ()).work ⟨fun _ _ => (.nothing, ())⟩
        breakoutSession).2.line.posted.filter Notice.isReply) =
          [.error "Interpreter not initialized", .initFailed reason,
            .error "Interpreter not initialized", .ready, .started (raisedInterval usualInterval),
            .started (raisedInterval usualInterval), .stopped] := by
  obtain ⟨error, hempty⟩ : ∃ error, CompiledLogic.ofLogic (.object []) = .error (.compile error) :=
    ⟨_, by with_unfolding_all rfl⟩
  have hstart : (told "start" []).message = .start [("type", .text "start")] := rfl
  have hinterval : intervalOf [("type", .text "start")] = .ok usualInterval := rfl
  have hinit : (told "init" []).message = .init [("type", .text "init")] := rfl
  have hlogic : logicOf [("type", .text "init")] = .object [] := rfl
  have hbreakout : (told "init" [("logic_data", CompiledLogic.breakoutLogic)]).message =
      .init [("type", .text "init"), ("logic_data", CompiledLogic.breakoutLogic)] := rfl
  have hbreakoutLogic : logicOf [("type", .text "init"),
      ("logic_data", CompiledLogic.breakoutLogic)] = CompiledLogic.breakoutLogic := rfl
  have hregular : ∀ e ∈ breakoutSession, e.IsRegular := by
    have hstarts : (told "start" []).IsRegular := Event.isRegular_of_start hstart hinterval
    have hinits : (told "init" []).IsRegular := by
      rw [Event.IsRegular, hinit]
      intro fault hfault
      rw [hlogic, hempty] at hfault
      exact ⟨error, (Except.error.inj hfault).symm⟩
    have hbreakouts : (told "init" [("logic_data", CompiledLogic.breakoutLogic)]).IsRegular :=
      Event.isRegular_of_init hbreakout CompiledLogic.ofLogic_breakoutLogic
    simp only [breakoutSession, List.forall_mem_cons, hstarts, hinits, hbreakouts, true_and]
    exact ⟨trivial, rfl, trivial, trivial, fun _ h => nomatch h⟩
  refine ⟨hregular, error.message, ?_⟩
  rw [(work_follows_protocol _ _ _ hregular).1]
  have hothers : Event.tick.message = .unknown ∧ (Event.item (.text "start")).message = .unknown ∧
      (told "api-response" [("request_id", .int 7)]).message =
        .answer [("type", .text "api-response"), ("request_id", .int 7)] ∧
      (told "stop" []).message = .stop := ⟨rfl, rfl, rfl, rfl⟩
  simp [breakoutSession, Phase.replies, Phase.reply?, Phase.after, Event.IsStop, hstart, hinterval,
    hinit, hlogic, hempty, hbreakout, hbreakoutLogic, CompiledLogic.ofLogic_breakoutLogic, hothers,
    Except.isOk, Except.toBool, Except.toOption]

end Desk

end TradingRules.Worker
